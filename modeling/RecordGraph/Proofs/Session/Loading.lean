/-
  The load of a linked collection, when it succeeds.

  The children are those that the rows of the read are mapped to, each with the key that
  its row has for the link.
-/
import RecordGraph.Proofs.Session.Relations
import RecordGraph.Proofs.Session.Progress

namespace RecordGraph

namespace Session

variable {τ δ σ α ι : Type} [Model τ] {env : Env δ} {w w' : World τ δ} {x x' : σ}
  {r r' : Record} {m : TableMap τ} {rel : Relation τ} {master : Value}

omit [Model τ] in
/-- Going through a list and leaving focus and database alone gives one answer for each
    element. -/
theorem mapM_ok {P : ι → α → Prop} {f : ι → Session τ δ σ α} {is : List ι} {as : List α}
    (hf : ∀ i ∈ is, ∀ w x a w' x', f i env w x = ⟨.ok a, w', x'⟩ →
      x = x' ∧ w'.database = w.database ∧ P i a)
    (h : is.mapM f env w x = ⟨.ok as, w', x'⟩) :
    x = x' ∧ w'.database = w.database ∧ List.Forall₂ P is as := by
  induction is generalizing as w x with
  | nil =>
    obtain ⟨rfl, rfl, rfl⟩ := pure_ok.1 h
    exact ⟨rfl, rfl, .nil⟩
  | cons i is ih =>
    rw [List.mapM_cons] at h
    obtain ⟨a, w₁, x₁, hi, h⟩ := bind_ok.1 h
    obtain ⟨as', w₂, x₂, his, h⟩ := bind_ok.1 h
    obtain ⟨rfl, rfl, rfl⟩ := pure_ok.1 h
    obtain ⟨rfl, hdb, hp⟩ := hf i (by simp) _ _ _ _ _ hi
    obtain ⟨rfl, hdb', hps⟩ := ih (fun j hj => hf j (by simp [hj])) his
    exact ⟨rfl, hdb'.trans hdb, .cons hp hps⟩

/-! ## Link keys -/

/-- The key that a row has for the link. -/
def linkKey? (rel : Relation τ) (row : Row) : Option Value :=
  (row.get? (rel.spec.childColumn (typeName rel.child))).filter fun key => !key.isNull

/-- The child has the key that its row has for the link, as its field stores it. -/
def CarriesKey (rel : Relation τ) (property : String) (row : Row) (c : Record) : Prop :=
  ∀ key ft, linkKey? rel row = some key → typeAt rel.child (FieldName.segments property) = some ft →
    ∃ v, ft.normalize key = .ok v ∧ fieldValue rel.child c property = some v

/-- The child has the key that its row has for the link, if its field takes that key as it
    is. -/
def KeyedBy (rel : Relation τ) (property : String) (row : Row) (c : Record) : Prop :=
  ∀ key ft, row.get? (rel.spec.childColumn (typeName rel.child)) = some key →
    key.isNull = false → typeAt rel.child (FieldName.segments property) = some ft →
    ft.normalize key = .ok key → fieldValue rel.child c property = some key

/-- A child with the key that its row has for the link, if it has a field for it. -/
def linkKeyed (rel : Relation τ) (property : String) (row : Row) (c : Record) : Result Record :=
  match row.get? (rel.spec.childColumn (typeName rel.child)) with
  | none => return c
  | some key =>
    if key.isNull then return c
    else do
      match ← setPath rel.child c property key with
      | .set c' => return c'
      | .missing _ => return c

theorem withLinkKey_run (env : Env δ) (rel : Relation τ) (property : String) (row : Row)
    (c : Record) (w : World τ δ) (x : σ) :
    ∃ es, (withLinkKey rel property row c : Session τ δ σ Record) env w x =
      ⟨linkKeyed rel property row c, w.logged es, x⟩ := by
  unfold withLinkKey linkKeyed
  cases row.get? (rel.spec.childColumn (typeName rel.child)) with
  | none => exact ⟨[], by rw [World.logged_nil]; rfl⟩
  | some key =>
    dsimp only
    split
    · exact ⟨[], by rw [World.logged_nil]; rfl⟩
    · rw [lift_bind]
      rcases setPath rel.child c property key with e | c' | segment
      · exact ⟨[], by rw [World.logged_nil]; rfl⟩
      · exact ⟨[], by rw [World.logged_nil]; rfl⟩
      · exact ⟨[.linkKeyDropped (typeName rel.child) property segment], rfl⟩

theorem withLinkKeys_run (env : Env δ) (rel : Relation τ) (property : String)
    (read : List (Row × Record)) (w : World τ δ) (x : σ) :
    ∃ es, (read.mapM fun e => withLinkKey rel property e.1 e.2 : Session τ δ σ _) env w x =
      ⟨read.mapM fun e => linkKeyed rel property e.1 e.2, w.logged es, x⟩ := by
  induction read generalizing w with
  | nil => exact ⟨[], by rw [World.logged_nil]; rfl⟩
  | cons e read ih =>
    obtain ⟨es, he⟩ := withLinkKey_run env rel property e.1 e.2 w x
    obtain ⟨es', hread⟩ := ih (w.logged es)
    rw [List.mapM_cons, List.mapM_cons, bind_run, he]
    cases linkKeyed rel property e.1 e.2 with
    | error error => exact ⟨es, rfl⟩
    | ok c =>
      refine ⟨es ++ es', ?_⟩
      dsimp only
      rw [bind_run, hread, World.logged_logged]
      cases read.mapM fun e => linkKeyed rel property e.1 e.2 <;> rfl

theorem linkKey_eq_some {row : Row} {key : Value} : linkKey? rel row = some key ↔
    row.get? (rel.spec.childColumn (typeName rel.child)) = some key ∧ key.isNull = false := by
  simp [linkKey?, Option.filter_eq_some_iff]

theorem linkKeyed_none {property : String} {row : Row} (c : Record) (h : linkKey? rel row = none) :
    linkKeyed rel property row c = .ok c := by
  unfold linkKeyed
  cases hget : row.get? (rel.spec.childColumn (typeName rel.child)) with
  | none => rfl
  | some key => exact if_pos (by simpa [linkKey?, hget] using h)

/-- A field can be written, or it refuses the key, but its path is not missing. -/
theorem linkKeyed_some {property : String} {row : Row} {c c' : Record} {key : Value}
    {ft : FieldType} (h : linkKey? rel row = some key)
    (hft : typeAt rel.child (FieldName.segments property) = some ft) :
    linkKeyed rel property row c = .ok c' ↔ setPath rel.child c property key = .ok (.set c') := by
  obtain ⟨hget, hnull⟩ := linkKey_eq_some.1 h
  simp only [linkKeyed, hget, hnull]
  cases hset : setPath rel.child c property key with
  | error e => exact iff_of_false nofun nofun
  | ok written =>
    cases written with
    | set c₁ => exact ⟨by rintro ⟨⟩; rfl, by rintro ⟨⟩; rfl⟩
    | missing segment =>
      rw [setAt_missing.1 ⟨segment, hset⟩] at hft
      cases hft

theorem linkKeyed_carriesKey (hτ : Model.Sound τ) {property : String} {row : Row} {c c' : Record}
    (hc : Typed rel.child c) (h : linkKeyed rel property row c = .ok c') :
    CarriesKey rel property row c' := by
  intro key ft hkey hft
  obtain ⟨ft', v, hft', hn, hv⟩ := fieldValue_setPath hτ hc ((linkKeyed_some hkey hft).1 h)
  rw [hft] at hft'
  cases hft'
  exact ⟨v, hn, hv⟩

/-- The child is the one that is loaded from the row. -/
def LoadedFrom (config : Config) (rel : Relation τ) (property : String) (row : Row)
    (c : Record) : Prop :=
  ∃ c₀, RowMapper.MapsTo config rel.child row c₀ ∧ linkKeyed rel property row c₀ = .ok c

theorem LoadedFrom.carriesKey (hτ : Model.Sound τ) {config : Config} {property : String}
    {row : Row} {c : Record} (h : LoadedFrom config rel property row c) :
    CarriesKey rel property row c := by
  obtain ⟨c₀, hmaps, hkeyed⟩ := h
  exact linkKeyed_carriesKey hτ (hmaps.typed hτ) hkeyed

theorem LoadedFrom.keyedBy (hτ : Model.Sound τ) {config : Config} {property : String} {row : Row}
    {c : Record} (h : LoadedFrom config rel property row c) : KeyedBy rel property row c := by
  intro key ft hget hnull hft hn
  obtain ⟨v, hv, hc⟩ := h.carriesKey hτ key ft (linkKey_eq_some.2 ⟨hget, hnull⟩) hft
  rw [hn] at hv
  cases hv
  exact hc

/-- A row is loaded in one way only. -/
theorem LoadedFrom.rightUnique {config : Config} {property : String} :
    Relator.RightUnique (LoadedFrom config rel property) := by
  rintro row c c' ⟨c₀, hmaps, hkeyed⟩ ⟨c₀', hmaps', hkeyed'⟩
  rw [hmaps.eq_filled] at hkeyed
  rw [hmaps'.eq_filled, hkeyed] at hkeyed'
  exact Except.ok.inj hkeyed'

/-! ## Loading -/

variable [DecidableEq τ]

theorem mapRows_ok {t : τ} {rows : List Row} {rs : List Record} (hc : w.catalog.Sound env.config)
    (h : mapRows t rows env w x = ⟨.ok rs, w', x'⟩) :
    x = x' ∧ w'.database = w.database ∧
      List.Forall₂ (RowMapper.MapsTo env.config t) rows rs := by
  rw [mapRows_run, Ran.mk.injEq] at h
  obtain ⟨hrs, rfl, rfl⟩ := h
  exact ⟨rfl, World.toldAll_database .., (hc.mapper t).mapAll_ok hrs⟩

theorem readChildren_ok (hc : w.catalog.Sound env.config)
    (hmaster : masterKey m rel.spec r = some master) {read : Option (List (Row × Record))}
    (h : readChildren m rel env w r = ⟨.ok read, w', r'⟩) :
    ∃ s rows children, m.relationRead env.config.dialect rel.spec master = .ok s ∧
      (env.executor.query s w.database).1 = .ok rows ∧
      List.Forall₂ (RowMapper.MapsTo env.config rel.child) rows children ∧
      read = some (rows.zip children) ∧ w'.database = (env.executor.query s w.database).2 ∧
      r = r' := by
  obtain ⟨ds, hd⟩ := masterValue_run env m rel.spec w r
  unfold readChildren at h
  rw [bind_run, hd, hmaster] at h
  obtain ⟨_, _, _, hconfig, h⟩ := bind_ok.1 h
  cases hconfig
  obtain ⟨s, w₁, r₁, hlift, h⟩ := bind_ok.1 h
  obtain ⟨hs, rfl, rfl⟩ := lift_ok.1 hlift
  obtain ⟨rows, w₂, r₂, hquery, h⟩ := bind_ok.1 h
  obtain ⟨hrows, rfl, rfl⟩ := query_ok.1 hquery
  obtain ⟨children, w₃, r₃, hmap, h⟩ := bind_ok.1 h
  obtain ⟨rfl, rfl, rfl⟩ := pure_ok.1 h
  obtain ⟨rfl, hdb, hall⟩ := mapRows_ok (by simpa using hc) hmap
  rw [World.toldAll_database] at hrows
  refine ⟨s, rows, children, hs, hrows, hall, rfl, ?_, rfl⟩
  rw [hdb, World.queried_database, World.toldAll_database]

theorem loadRelation_ok (hc : w.catalog.Sound env.config)
    (hk : rel.kind = .manyToMany) (hmaster : masterKey m rel.spec r = some master)
    (h : loadRelation m rel env w r = ⟨.ok (), w', r'⟩) :
    ∃ s rows cm children, m.relationRead env.config.dialect rel.spec master = .ok s ∧
      (env.executor.query s w.database).1 = .ok rows ∧
      w'.database = (env.executor.query s w.database).2 ∧
      w'.catalog.map? rel.child = some cm ∧
      List.Forall₂ (LoadedFrom env.config rel (linkProperty rel.spec cm)) rows children ∧
      r' = r.setSlot rel.slot (.many (some children)) := by
  obtain ⟨read, w₁, r₁, hread, h⟩ := bind_ok.1 h
  obtain ⟨s, rows, mapped, hs, hquery, hmapped, rfl, hdb, rfl⟩ := readChildren_ok hc hmaster hread
  simp only [hk] at h
  obtain ⟨cm, w₂, r₂, hmap, h⟩ := bind_ok.1 h
  obtain ⟨children, w₃, r₃, hkeyed, h⟩ := bind_ok.1 h
  obtain ⟨c, ht, rfl, rfl⟩ := tableMap_ok.1 hmap
  have hlater := (Grows.mapM (fun e : Row × Record => .withLinkKey rel _ e.1 e.2) _).later hkeyed
  obtain ⟨rfl, hdb', hall⟩ := mapM_ok
    (P := fun e c => linkKeyed rel (linkProperty rel.spec cm) e.1 e.2 = .ok c)
    (fun e _ w x _ _ _ hrun => by
      obtain ⟨es, hes⟩ := withLinkKey_run env rel (linkProperty rel.spec cm) e.1 e.2 w x
      rw [hes, Ran.mk.injEq] at hrun
      obtain ⟨hok, rfl, rfl⟩ := hrun
      exact ⟨rfl, World.logged_database .., hok⟩) hkeyed
  cases h
  refine ⟨s, rows, cm, children, hs, hquery, hdb'.trans hdb,
    hlater.maps _ _ (Catalog.map_of_tableMap ht), ?_, rfl⟩
  refine List.forall₂_iff_get.2 ⟨?_, fun i hi hi' => ?_⟩
  · rw [← hall.length_eq, List.length_zip, hmapped.length_eq, Nat.min_self]
  · have hz : i < (rows.zip mapped).length := by rw [hall.length_eq]; exact hi'
    have hi₂ : i < mapped.length := by rw [← hmapped.length_eq]; exact hi
    exact ⟨mapped[i], hmapped.get hi hi₂, by simpa using hall.get hz hi'⟩

end Session

end RecordGraph
