/-
  The steps that the synchronization of a relation takes besides writing: finding the
  key of the parent and the map of the children, and pointing the children at the
  parent.
-/
import RecordGraph.Proofs.Catalog
import RecordGraph.Proofs.Mapping.Statements
import RecordGraph.Proofs.Session.Collections
import RecordGraph.Proofs.Session.Requests

namespace RecordGraph

namespace Session

variable {τ δ σ : Type} [Model τ] {env : Env δ} {w w' : World τ δ} {x x' : σ}
  {r r' : Record} {t : τ} {m : TableMap τ} {P : Request → Prop}

section
variable [DecidableEq τ]

theorem tableMap_ok : (tableMap t : Session τ δ σ _) env w x = ⟨.ok m, w', x'⟩ ↔
    ∃ c, w.catalog.tableMap env.config t = .ok (m, c) ∧ w' = { w with catalog := c } ∧ x' = x := by
  simp only [tableMap, catalog_bind, config_bind, bind_ok, lift_ok, pure_ok, setCatalog_bind]
  constructor
  · rintro ⟨⟨m', c⟩, _, _, ⟨h, rfl, rfl⟩, rfl, rfl, rfl⟩; exact ⟨c, h, rfl, rfl⟩
  · rintro ⟨c, h, rfl, rfl⟩; exact ⟨(m, c), _, _, ⟨h, rfl, rfl⟩, rfl, rfl, rfl⟩

theorem tableMap_run : (tableMap t : Session τ δ σ _) env w x =
    match w.catalog.tableMap env.config t with
    | .error e => ⟨.error e, w, x⟩
    | .ok (m, c) => ⟨.ok m, { w with catalog := c }, x⟩ := by
  simp only [tableMap, catalog_bind, config_bind, lift_bind]
  cases w.catalog.tableMap env.config t <;> rfl

end

/-! ## The key of the parent -/

/-- The value that the children of a record refer to, if it has one. -/
def masterKey (m : TableMap τ) (spec : RelationSpec) (r : Record) : Option Value :=
  ((spec.masterProperty.or m.keys.head?).bind fun p => resolveValue m.owner r p).filter
    fun v => !v.isUnsetKey

theorem masterValue_run (env : Env δ) (m : TableMap τ) (spec : RelationSpec) (w : World τ δ)
    (r : Record) :
    ∃ ds, masterValue m spec env w r = ⟨.ok (masterKey m spec r), w.toldAll env.config ds, r⟩ := by
  unfold masterValue masterKey
  cases spec.masterProperty.or m.keys.head? with
  | none => exact ⟨[], rfl⟩
  | some p =>
    simp only [focus_bind, Option.bind_some]
    cases resolveValue m.owner r p with
    | none =>
      refine ⟨[noParentKey m.owner spec p], ?_⟩
      exact bind_ok.2 ⟨(), _, _, diagnose_run _, rfl⟩
    | some v =>
      cases hv : v.isUnsetKey with
      | true =>
        refine ⟨[noParentKey m.owner spec p], ?_⟩
        rw [show (some v).filter (fun v => !v.isUnsetKey) = none by simp [hv]]
        simp only [hv, if_true]
        exact bind_ok.2 ⟨(), _, _, diagnose_run _, rfl⟩
      | false =>
        refine ⟨[], ?_⟩
        rw [show (some v).filter (fun v => !v.isUnsetKey) = some v by simp [hv]]
        simp only [hv]
        rfl

/-! ## Pointing children at the parent -/

/-- A child that points at its parent: the key is in the field named after the column, or
    in the nested record that the column refers to, or nowhere. -/
def attached (child : τ) (column : String) (master : Value) (c : Record) : Result Record := do
  match ← setField child c column master with
  | some c' => return c'
  | none =>
    match FieldName.stem? column with
    | none => return c
    | some x =>
      match ← setPath child c (FieldName.keyPath x) master with
      | .set c' => return c'
      | .missing _ => return c

theorem mapM_ok_forall₂ {α β : Type} {f : α → Result β} {as : List α} {bs : List β}
    (h : as.mapM f = .ok bs) : List.Forall₂ (fun a b => f a = .ok b) as bs := by
  induction as generalizing bs with
  | nil => cases h; exact .nil
  | cons a as ih =>
    rw [List.mapM_cons] at h
    cases ha : f a with
    | error e => rw [ha] at h; cases h
    | ok b =>
      cases has : as.mapM f with
      | error e => rw [ha, has] at h; cases h
      | ok bs' => rw [ha, has] at h; cases h; exact .cons ha (ih has)

/-- The key is written to the field of the column or along a path, or the child stays as it is. -/
theorem attached_ok {child : τ} {column : String} {master : Value} {c c' : Record}
    (h : attached child column master c = .ok c') :
    setField child c column master = .ok (some c') ∨
      (∃ x, setPath child c (FieldName.keyPath x) master = .ok (.set c')) ∨ c' = c := by
  obtain ⟨field, hfield, h⟩ := result_bind_ok.1 h
  cases field with
  | some c₁ => cases h; exact .inl hfield
  | none =>
    cases hstem : FieldName.stem? column with
    | none => rw [hstem] at h; cases h; exact .inr (.inr rfl)
    | some x =>
      rw [hstem] at h
      obtain ⟨write, hwrite, h⟩ := result_bind_ok.1 h
      cases write with
      | set c₁ => cases h; exact .inr (.inl ⟨x, hwrite⟩)
      | missing segment => cases h; exact .inr (.inr rfl)

theorem attached_written (hτ : Model.Sound τ) {child : τ} {column : String} {master : Value}
    {c c' : Record} (h : attached child column master c = .ok c') : Written child c c' := by
  rcases attached_ok h with hfield | ⟨x, hwrite⟩ | rfl
  · exact setField_written hτ hfield
  · exact setPath_written hτ hwrite
  · exact .refl

variable {column : String} {master : Value} {cs : List Record}

theorem attach_run (env : Env δ) (child : τ) (column : String) (master : Value) (w : World τ δ)
    (c : Record) : ∃ es,
    attach child column master env w c = ⟨(attached child column master c).map fun _ => (),
      w.logged es, (attached child column master c).toOption.getD c⟩ := by
  unfold attach attached
  simp only [focus_bind]
  change ∃ es, andThen (ofResult _) _ env w c = _
  simp only [andThen, ofResult]
  rcases setField child c column master with e | _ | c'
  · exact ⟨[], by rw [World.logged_nil]; rfl⟩
  · cases FieldName.stem? column with
    | none => exact ⟨[], by rw [World.logged_nil]; rfl⟩
    | some x =>
      change ∃ es, andThen (ofResult _) _ env w c = _
      simp only [andThen, ofResult]
      rcases setPath child c (FieldName.keyPath x) master with e | c' | segment
      · exact ⟨[], by rw [World.logged_nil]; rfl⟩
      · exact ⟨[], by rw [World.logged_nil]; rfl⟩
      · exact ⟨[.parentKeyDropped (typeName child) column segment], rfl⟩
  · exact ⟨[], by rw [World.logged_nil]; rfl⟩

/-- Pointing all children at the parent changes their collection, and nothing but the log
    besides. -/
theorem attachFrom_run (env : Env δ) {rel : Relation τ} (column : String) (master : Value)
    (w : World τ δ) (pre : List Record) (h : r.many? rel.slot = some (pre ++ cs)) :
    ∃ es r', ((List.range' pre.length cs.length).forM fun i =>
        onChild rel.slot i (attach rel.child column master)) env w r =
      ⟨(cs.mapM (attached rel.child column master)).map fun _ => (), w.logged es, r'⟩ ∧
      ∀ cs', cs.mapM (attached rel.child column master) = .ok cs' →
        r' = r.setSlot rel.slot (.many (some (pre ++ cs'))) := by
  induction cs generalizing pre r w with
  | nil =>
    refine ⟨[], r, by rw [World.logged_nil]; rfl, ?_⟩
    rintro _ ⟨⟩
    exact (Record.setSlot_many h).symm
  | cons c cs ih =>
    obtain ⟨es, ha⟩ := attach_run env rel.child column master w c
    have hc : (pre ++ c :: cs)[pre.length]? = some c := by simp
    have hset (c' : Record) : (pre ++ c :: cs).set pre.length c' = (pre ++ [c']) ++ cs := by simp
    rw [List.length_cons, List.range'_succ, List.mapM_cons]
    change ∃ es r', andThen (onChild _ _ _) _ env w r = _ ∧ _
    simp only [andThen, onChild_run h hc, ha]
    cases hac : attached rel.child column master c with
    | error e => exact ⟨es, _, rfl, by rintro _ ⟨⟩⟩
    | ok c' =>
      have hm : (r.setSlot rel.slot (.many (some (pre ++ [c'] ++ cs)))).many? rel.slot =
          some (pre ++ [c'] ++ cs) := Record.many_setSlot h
      obtain ⟨es', r', hr, hr'⟩ := ih (w.logged es) (pre ++ [c']) hm
      rw [List.length_append, List.length_singleton] at hr
      simp only [Except.map, Except.toOption, Option.getD_some, hset]
      refine ⟨es ++ es', r', ?_, ?_⟩
      · rw [hr, World.logged_logged]
        cases cs.mapM (attached rel.child column master) <;> rfl
      · intro cs₁ h₁
        cases hcs : cs.mapM (attached rel.child column master) with
        | error e => rw [hcs] at h₁; cases h₁
        | ok cs' =>
          rw [hcs] at h₁; cases h₁
          rw [hr' cs' hcs, Record.setSlot_setSlot, List.append_assoc]
          rfl

theorem attachAll_run (env : Env δ) {rel : Relation τ} (column : String) (master : Value)
    (w : World τ δ) (h : r.many? rel.slot = some cs) :
    ∃ es r', attachAll rel column master cs.length env w r =
      ⟨(cs.mapM (attached rel.child column master)).map fun _ => (), w.logged es, r'⟩ ∧
      ∀ cs', cs.mapM (attached rel.child column master) = .ok cs' →
        r' = r.setSlot rel.slot (.many (some cs')) := by
  have hr := attachFrom_run env column master w [] h
  rwa [List.length_nil, ← List.range_eq_range'] at hr

/-- The children of a record as they are when they are compared with the stored ones; none
    if the synchronization does not get so far. -/
def aligned (m : TableMap τ) (rel : Relation τ) (r : Record) : Option (List Record) := do
  let children ← r.many? rel.slot
  let master ← masterKey m rel.spec r
  (children.mapM (attached rel.child (rel.spec.masterColumn (typeName m.owner)) master)).toOption

theorem aligned_eq_some {rel : Relation τ} : aligned m rel r = some cs ↔
    ∃ children, r.many? rel.slot = some children ∧ ∃ master, masterKey m rel.spec r = some master ∧
      children.mapM (attached rel.child (rel.spec.masterColumn (typeName m.owner)) master) =
        .ok cs := by
  have hto {α : Type} {x : Result α} {a : α} : x.toOption = some a ↔ x = .ok a := by
    cases x <;> simp [Except.toOption]
  simp only [aligned, bind, Option.bind_eq_some_iff, hto]

/-- The children that are compared come from those of the record by pointing at it. -/
theorem aligned_forall₂ {rel : Relation τ} (h : aligned m rel r = some cs) :
    ∃ children master, r.many? rel.slot = some children ∧ masterKey m rel.spec r = some master ∧
      List.Forall₂ (fun c c' =>
        attached rel.child (rel.spec.masterColumn (typeName m.owner)) master c = .ok c')
        children cs := by
  obtain ⟨children, hc, master, hk, ha⟩ := aligned_eq_some.1 h
  exact ⟨children, master, hc, hk, mapM_ok_forall₂ ha⟩

section
variable [DecidableEq τ] {rel : Relation τ} {c : Catalog τ} {cm : TableMap τ}

/-- A record that does not carry the collection, or has no key, leaves its children alone. -/
theorem synchronizeChildren_skipped (saveChild : τ → Session τ δ Record Unit)
    (old : Option Record) (h : r.many? rel.slot = none ∨ masterKey m rel.spec r = none) :
    ∃ ds, synchronizeChildren saveChild m rel old env w r =
      ⟨.ok (), w.toldAll env.config ds, r⟩ := by
  unfold synchronizeChildren
  rw [focus_bind]
  cases hc : r.many? rel.slot with
  | none => exact ⟨[], rfl⟩
  | some children =>
    obtain ⟨ds, hd⟩ := masterValue_run env m rel.spec w r
    rw [h.resolve_left (by simp [hc])] at hd
    exact ⟨ds, bind_ok.2 ⟨_, _, _, hd, rfl⟩⟩

/-- Once the children point at the record, what is left is to align the stored ones. -/
theorem synchronizeChildren_run (saveChild : τ → Session τ δ Record Unit) (old : Option Record)
    (h : aligned m rel r = some cs)
    (hm : w.catalog.tableMap env.config rel.child = .ok (cm, c)) :
    ∃ w₁, w₁.database = w.database ∧ w₁.requests = w.requests ∧ w₁.catalog = c ∧
      synchronizeChildren saveChild m rel old env w r =
        alignChildren saveChild m rel cm (old.bind fun r => r.many? rel.slot) env w₁
          (r.setSlot rel.slot (.many (some cs))) := by
  obtain ⟨children, hc, master, hk, ha⟩ := aligned_eq_some.1 h
  obtain ⟨ds, hd⟩ := masterValue_run env m rel.spec w r
  have ht : (tableMap rel.child : Session τ δ Record _) env (w.toldAll env.config ds) r =
      ⟨.ok cm, { w.toldAll env.config ds with catalog := c }, r⟩ :=
    tableMap_ok.2 ⟨c, by rwa [World.toldAll_catalog], rfl, rfl⟩
  obtain ⟨es, r', hr, hr'⟩ := attachAll_run env (rel.spec.masterColumn (typeName m.owner)) master
    { w.toldAll env.config ds with catalog := c } hc
  rw [ha, hr' cs ha] at hr
  refine ⟨({ w.toldAll env.config ds with catalog := c } : World τ δ).logged es,
    World.toldAll_database .., World.toldAll_requests .., rfl, ?_⟩
  unfold synchronizeChildren
  rw [focus_bind, hc]
  simp only [bind_run (masterValue m rel.spec), hd, hk, bind_run (tableMap rel.child), ht]
  rw [bind_run, hr]
  rfl

end

end Session

end RecordGraph
