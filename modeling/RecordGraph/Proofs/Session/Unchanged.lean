/-
  A linked collection that is saved as it was loaded.

  What is loaded depends on the rows alone, so that two reads of the same rows give the same
  children.  Their keys are compared, though, as keys of stored children on the new side only:
  if a child has nothing but its link key from the row and counts as new by its other fields,
  its own link is taken away.  `synchronize_unchanged` says that nothing else can go wrong.
-/
import RecordGraph.Proofs.Samples
import RecordGraph.Proofs.Session.Links
import RecordGraph.Proofs.Session.Loading

namespace RecordGraph

namespace Session

variable {τ δ : Type} [Model τ] {env : Env δ} {w w' : World τ δ} {m : TableMap τ}
  {rel : Relation τ} {property : String} {cs : List Record} {r r' : Record} {rows : List Row}

/-! ## Keys of a collection -/

/-- Children whose link key is set are stored, and the key equals itself. -/
def Recognized (rel : Relation τ) (property : String) (cs : List Record) : Prop :=
  ∀ c ∈ cs, ∀ key, resolveValue rel.child c property = some key → key.isUnsetKey = false →
    isNew rel.child c = false ∧ key.eqv key

instance : Decidable (Recognized rel property cs) :=
  decidable_of_iff (∀ c ∈ cs, ∀ key ∈ resolveValue rel.child c property,
    key.isUnsetKey = false → isNew rel.child c = false ∧ key.eqv key) .rfl

theorem linkKeysOf_eq : linkKeysOf rel property cs =
    storedLinkKeys rel.child property (cs.filter fun c => !isNew rel.child c) := by
  rw [linkKeysOf, storedLinkKeys, List.filterMap_filter]
  congr 1
  funext c
  unfold linkKeyOf
  cases isNew rel.child c with
  | true => simp
  | false => simp

theorem linkKeysOf_sublist :
    (linkKeysOf rel property cs).Sublist (storedLinkKeys rel.child property cs) := by
  rw [linkKeysOf_eq]
  exact List.filter_sublist.filterMap _

theorem mem_storedLinkKeys {key : Value} : key ∈ storedLinkKeys rel.child property cs ↔
    ∃ c ∈ cs, resolveValue rel.child c property = some key ∧ key.isUnsetKey = false := by
  simp [storedLinkKeys, Option.filter_eq_some_iff]

theorem length_linkKeysOf_eq_iff :
    (linkKeysOf rel property cs).length = (storedLinkKeys rel.child property cs).length ↔
      ∀ c ∈ cs, ∀ key, resolveValue rel.child c property = some key → key.isUnsetKey = false →
        isNew rel.child c = false := by
  have hperm := (List.filter_append_perm (fun c => !isNew rel.child c) cs).filterMap
    fun c => (resolveValue rel.child c property).filter fun v => !v.isUnsetKey
  have hlen := hperm.length_eq
  rw [List.filterMap_append, List.length_append] at hlen
  -- What the two lists differ by are the keys of the new children.
  have hnone : (linkKeysOf rel property cs).length = (storedLinkKeys rel.child property cs).length ↔
      storedLinkKeys rel.child property (cs.filter fun c => !!isNew rel.child c) = [] := by
    rw [linkKeysOf_eq, ← List.length_eq_zero_iff]
    simp only [storedLinkKeys] at hlen ⊢
    omega
  rw [hnone, List.eq_nil_iff_forall_not_mem]
  constructor
  · intro h c hc key hkey hset
    by_contra hnew
    exact h key (mem_storedLinkKeys.2
      ⟨c, List.mem_filter.2 ⟨hc, by simpa using hnew⟩, hkey, hset⟩)
  · intro h key hmem
    obtain ⟨c, hc, hkey, hset⟩ := mem_storedLinkKeys.1 hmem
    obtain ⟨hc, hnew⟩ := List.mem_filter.1 hc
    simp [h c hc key hkey hset] at hnew

theorem recognized_iff :
    (linkKeysOf rel property cs).length = (storedLinkKeys rel.child property cs).length ∧
      (∀ key ∈ linkKeysOf rel property cs, key.eqv key) ↔ Recognized rel property cs := by
  rw [length_linkKeysOf_eq_iff]
  constructor
  · rintro ⟨hstored, hself⟩ c hc key hkey hset
    have hnew := hstored c hc key hkey hset
    refine ⟨hnew, hself key ?_⟩
    rw [linkKeysOf_eq, mem_storedLinkKeys]
    exact ⟨c, List.mem_filter.2 ⟨hc, by simp [hnew]⟩, hkey, hset⟩
  · intro h
    refine ⟨fun c hc key hkey hset => (h c hc key hkey hset).1, fun key hkey => ?_⟩
    obtain ⟨c, hc, hv, hset⟩ := mem_storedLinkKeys.1 (linkKeysOf_sublist.subset hkey)
    exact (h c hc key hv hset).2

/-! ## Exchanging keys -/

omit [Model τ] in
theorem Executes.requests_length {statement : Value → Result Statement} {keys : List Value}
    (h : Executes env statement keys w w') :
    w'.requests.length = w.requests.length + keys.length := by
  induction h with
  | nil => rfl
  | cons hs hn _ ih =>
    rw [ih, World.executed_requests, List.length_append, List.length_singleton, List.length_cons]
    omega

/-- Nothing is sent exactly if no key is lost or gained. -/
theorem exchangeLinks_quiet_iff {master : Value} {old new : List Value} :
    ((exchangeLinks m rel master old new env w r).result = .ok () ∧
      (exchangeLinks m rel master old new env w r).world.requests = w.requests) ↔
      unlinkedKeys old new = [] ∧ linkedKeys old new = [] := by
  constructor
  · rintro ⟨hok, hrequests⟩
    obtain ⟨-, w₁, w₂, es, hdel, hins, hw⟩ := exchangeLinks_ok (run_of_isOk (by rw [hok]; rfl))
    rw [hw, World.logged_requests] at hrequests
    have h₁ := hdel.requests_length
    have h₂ := hins.requests_length
    rw [hrequests] at h₂
    exact ⟨List.eq_nil_of_length_eq_zero (by omega), List.eq_nil_of_length_eq_zero (by omega)⟩
  · rintro ⟨hold, hnew⟩
    unfold exchangeLinks
    simp only [config_bind, hold, hnew]
    exact ⟨rfl, rfl⟩

/-! ## Loading twice -/

/-- The rows with which the database answers the read of a relation. -/
def relationRows (m : TableMap τ) (rel : Relation τ) (env : Env δ) (w : World τ δ) (r : Record) :
    Option (List Row) := do
  let master ← masterKey m rel.spec r
  let s ← (m.relationRead env.config.dialect rel.spec master).toOption
  (env.executor.query s w.database).1.toOption

theorem relationRows_eq_some : relationRows m rel env w r = some rows ↔
    ∃ master s, masterKey m rel.spec r = some master ∧
      m.relationRead env.config.dialect rel.spec master = .ok s ∧
      (env.executor.query s w.database).1 = .ok rows := by
  have hto {α : Type} {x : Result α} {a : α} : x.toOption = some a ↔ x = .ok a := by
    cases x <;> simp [Except.toOption]
  simp only [relationRows, bind, Option.bind_eq_some_iff, hto, exists_and_left]

variable [DecidableEq τ] {t : τ} {cm : TableMap τ}

/-- The collection that is loaded from some rows, one child from each. -/
theorem loadRelation_rows (hτ : Model.Sound τ) (hc : w.catalog.Sound env.config) (hm : m.Of t)
    (hrel : rel ∈ m.relations) (hk : rel.kind = .manyToMany) (hr : Typed t r)
    (hrows : relationRows m rel env w r = some rows)
    (h : loadRelation m rel env w r = ⟨.ok (), w', r'⟩) :
    ∃ cm children, w'.catalog.map? rel.child = some cm ∧ r'.many? rel.slot = some children ∧
      List.Forall₂ (LoadedFrom env.config rel (linkProperty rel.spec cm)) rows children := by
  obtain ⟨master, s, hmaster, hs, hquery⟩ := relationRows_eq_some.1 hrows
  obtain ⟨s', rows', cm, children, hs', hquery', -, hcm, hloaded, rfl⟩ :=
    loadRelation_ok hc hk hmaster h
  rw [hs] at hs'; cases hs'
  rw [hquery] at hquery'; cases hquery'
  exact ⟨cm, children, hcm,
    Record.many_of_slot (Record.slot_setSlot (hr.lt (hm.shape hτ rel hrel))), hloaded⟩

/-! ## Synchronization -/

variable {p q new old : Record} {w₀ w₁ w₂ w₃ : World τ δ} {rows' : List Row}

/-- A collection that is synchronized as it was loaded, against another load of the same rows,
    changes no links exactly if the relation is not synchronized at all or all children with
    a link key are recognized. -/
theorem synchronize_unchanged (saveChild : τ → Session τ δ Record Unit) (hτ : Model.Sound τ)
    (hc : w₀.catalog.Sound env.config) (hm : m.Of t) (hrel : rel ∈ m.relations)
    (hk : rel.kind = .manyToMany)
    -- The collection has been loaded, and kept.
    (hp : Typed t p) (hload : loadRelation m rel env w₀ p = ⟨.ok (), w₁, new⟩)
    (hrows : relationRows m rel env w₀ p = some rows)
    (hkept : r.many? rel.slot = new.many? rel.slot)
    -- It is loaded again, and the rows are the same in some order.
    (hlater : w₁.Later env.config w₂)
    (hq : Typed t q) (hreload : loadRelation m rel env w₂ q = ⟨.ok (), w₃, old⟩)
    (hrows' : relationRows m rel env w₂ q = some rows') (hsame : rows'.Perm rows)
    (hlater' : w₃.Later env.config w) (hcm : w.catalog.map? rel.child = some cm) :
    ((synchronize saveChild m rel (some old) env w r).result = .ok () ∧
      (synchronize saveChild m rel (some old) env w r).world.requests = w.requests) ↔
      rel.spec.readOnly = true ∨ masterKey m rel.spec r = none ∨
        Recognized rel (linkProperty rel.spec cm) ((r.many? rel.slot).getD []) := by
  obtain ⟨cm₁, children, hcm₁, hnew, hloaded⟩ :=
    loadRelation_rows hτ hc hm hrel hk hp hrows hload
  have hl₁ := (Grows.loadRelation m rel).later hload
  have hl₃ := (Grows.loadRelation m rel).later hreload
  obtain ⟨cm₂, stored, hcm₂, hold, hreloaded⟩ :=
    loadRelation_rows hτ (hlater.sound (hl₁.sound hc)) hm hrel hk hq hrows' hreload
  -- All reads use the same map of the children.
  have hcm₁' := hlater'.maps _ _ (hl₃.maps _ _ (hlater.maps _ _ hcm₁))
  rw [hcm] at hcm₁'; cases hcm₁'
  have hcm₂' := hlater'.maps _ _ hcm₂
  rw [hcm] at hcm₂'; cases hcm₂'
  have hperm : stored.Perm children :=
    List.rel_perm_imp LoadedFrom.rightUnique hreloaded hloaded hsame
  unfold synchronize
  cases hro : rel.spec.readOnly with
  | true => exact iff_of_true ⟨rfl, rfl⟩ (.inl rfl)
  | false =>
    rw [if_neg (by simp), hk]
    dsimp only
    rw [hkept, hnew]
    cases hmaster : masterKey m rel.spec r with
    | none =>
      obtain ⟨ds, hrun⟩ := @synchronizeLinks_skipped _ _ _ env w r m rel _ (some old) (.inr hmaster)
      rw [hrun]
      simp
    | some master =>
      obtain ⟨w₄, -, hrequests, -, hrun⟩ := synchronizeLinks_run (some old) (hkept.trans hnew)
        hmaster (Catalog.tableMap_of_map hcm)
      rw [hrun, ← hrequests, exchangeLinks_quiet_iff]
      simp only [Option.bind_some, hold, Option.getD_some]
      have hkeys : (storedLinkKeys rel.child (linkProperty rel.spec cm) stored).Perm
          (storedLinkKeys rel.child (linkProperty rel.spec cm) children) := hperm.filterMap _
      rw [no_changes_iff (hkeys.symm.subperm_left.1 linkKeysOf_sublist.subperm), hkeys.length_eq,
        recognized_iff]
      simp

/-- Order 7 keeps the tags it was loaded with. -/
theorem tags_kept :
    let loaded := loadRelation Sample.taggedMap Sample.tagsRelation Sample.linking
      (Sample.tagged [(7, 2), (8, 2), (7, 3)]) (Sample.taggedOrder 7 [])
    let again := loadRelation Sample.taggedMap Sample.tagsRelation Sample.linking loaded.world
      (Sample.taggedOrder 7 [])
    let saved := synchronize (fun _ => pure ()) Sample.taggedMap Sample.tagsRelation
      (some again.focus) Sample.linking again.world loaded.focus
    saved.result = .ok () ∧ saved.world.requests = again.world.requests := by
  intro loaded again saved
  have hcatalog : (again.world.catalog.map? Sample.tag).map
      (linkProperty Sample.tagsRelation.spec) = some "Id" := by decide +kernel
  obtain ⟨cm, hcm, hproperty⟩ := Option.map_eq_some_iff.1 hcatalog
  have hload : loadRelation Sample.taggedMap Sample.tagsRelation Sample.linking
      (Sample.tagged [(7, 2), (8, 2), (7, 3)]) (Sample.taggedOrder 7 []) =
        ⟨.ok (), loaded.world, loaded.focus⟩ := run_of_isOk (by decide +kernel)
  have hreload : loadRelation Sample.taggedMap Sample.tagsRelation Sample.linking loaded.world
      (Sample.taggedOrder 7 []) = ⟨.ok (), again.world, again.focus⟩ :=
    run_of_isOk (by decide +kernel)
  have hrows : relationRows Sample.taggedMap Sample.tagsRelation Sample.linking
      (Sample.tagged [(7, 2), (8, 2), (7, 3)]) (Sample.taggedOrder 7 []) =
        some [⟨[("TagId", .int 2)]⟩, ⟨[("TagId", .int 3)]⟩] := by decide +kernel
  have hrows' : relationRows Sample.taggedMap Sample.tagsRelation Sample.linking loaded.world
      (Sample.taggedOrder 7 []) = some [⟨[("TagId", .int 2)]⟩, ⟨[("TagId", .int 3)]⟩] := by
    decide +kernel
  have hrecognized : Recognized Sample.tagsRelation "Id"
      ((loaded.focus.many? Sample.tagsRelation.slot).getD []) := by decide +kernel
  have hunchanged := synchronize_unchanged (r := loaded.focus) (fun _ => pure ()) Sample.sound
    Catalog.sound_empty Sample.taggedMap_of (List.mem_singleton.2 rfl) rfl
    (Sample.typed_taggedOrder 7) hload hrows rfl .refl (Sample.typed_taggedOrder 7) hreload hrows'
    (.refl _) .refl hcm
  have hsaved : synchronize (fun _ => pure ()) Sample.taggedMap Sample.tagsRelation
      (some again.focus) Sample.linking again.world loaded.focus = saved := rfl
  rw [hproperty, hsaved] at hunchanged
  exact hunchanged.2 (.inr (.inr hrecognized))

/-- Tags that are linked by their names have no number when they are loaded, so that the link
    of an order with an unchanged tag is deleted. -/
theorem tag_linked_by_name_lost :
    let loaded := loadRelation Sample.labelledMap Sample.labelsRelation Sample.scripted
      (Sample.answering [.rows [Sample.labelRow], .rows [Sample.labelRow], .affected 1])
      (Sample.taggedOrder 7 [])
    let again := loadRelation Sample.labelledMap Sample.labelsRelation Sample.scripted loaded.world
      (Sample.taggedOrder 7 [])
    let saved := synchronize (fun _ => pure ()) Sample.labelledMap Sample.labelsRelation
      (some again.focus) Sample.scripted again.world loaded.focus
    Sample.registeredLabels.isOk = true ∧
      Sample.labelledMap.relations.map Relation.spec = [Sample.labelsRelation.spec] ∧
      loaded.result.isOk = true ∧ again.result.isOk = true ∧ saved.result.isOk = true ∧
      (saved.world.requests.drop again.world.requests.length).map (fun r => r.statement.sql) =
        ["delete from \"sales\".\"OrderTags\" where \"OrderId\" = $1 and \"Label\" = $2"] := by
  decide +kernel

end Session

end RecordGraph
