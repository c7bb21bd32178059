/-
  The synchronization of a link table, when it succeeds: which keys it compares, and which
  statements it executes.
-/
import RecordGraph.Proofs.Graph.Membership
import RecordGraph.Proofs.Session.Relations

namespace RecordGraph

namespace Session

variable {τ δ σ : Type} [Model τ] {env : Env δ} {w w' : World τ δ} {x x' : σ}
  {r r' : Record} {m : TableMap τ} {rel : Relation τ} {old : Option Record}

/-! ## Statements for keys -/

/-- The statements of some keys are executed, one after the other. -/
inductive Executes (env : Env δ) (statement : Value → Result Statement) :
    List Value → World τ δ → World τ δ → Prop
  | nil {w : World τ δ} : Executes env statement [] w w
  | cons {key : Value} {keys : List Value} {s : Statement} {n : Nat} {w w' : World τ δ} :
      statement key = .ok s → (env.executor.execute s w.database).1 = .ok n →
      Executes env statement keys (w.executed env s) w' →
      Executes env statement (key :: keys) w w'

omit [Model τ] in
theorem executeEach_ok {statement : Value → Result Statement} {keys : List Value}
    (h : (executeEach statement keys : Session τ δ σ Unit) env w x = ⟨.ok (), w', x'⟩) :
    x = x' ∧ Executes env statement keys w w' := by
  unfold executeEach at h
  induction keys generalizing w x with
  | nil =>
    obtain ⟨rfl, rfl⟩ := forM_nil_ok.1 h
    exact ⟨rfl, .nil⟩
  | cons key keys ih =>
    obtain ⟨w₁, x₁, hkey, hkeys⟩ := forM_cons_ok.1 h
    simp only [bind_ok, lift_ok, execute_ok, pure_ok] at hkey
    obtain ⟨s, _, _, ⟨hs, rfl, rfl⟩, n, _, _, ⟨hn, rfl, rfl⟩, -, rfl, rfl⟩ := hkey
    obtain ⟨rfl, he⟩ := ih hkeys
    exact ⟨rfl, .cons hs hn he⟩

/-! ## Keys -/

/-- The key under which a child is linked, if it has one. -/
def linkKeyOf (rel : Relation τ) (property : String) (r : Record) : Option Value :=
  (resolveValue rel.child r property).filter fun v => !isNew rel.child r && !v.isUnsetKey

/-- The keys under which the stored children of a collection are linked. -/
def linkKeysOf (rel : Relation τ) (property : String) (rs : List Record) : List Value :=
  rs.filterMap (linkKeyOf rel property)

theorem linkKey_run (env : Env δ) (rel : Relation τ) (property : String) (c : Record)
    (w : World τ δ) (x : σ) :
    ∃ ds, (linkKey rel property c : Session τ δ σ _) env w x =
      ⟨.ok (linkKeyOf rel property c), w.toldAll env.config ds, x⟩ := by
  change ∃ ds, (do
    if (linkKeyOf rel property c).isNone then diagnose (unsavedLink rel)
    return linkKeyOf rel property c : Session τ δ σ _) env w x = _
  cases linkKeyOf rel property c with
  | none => exact ⟨[unsavedLink rel], bind_ok.2 ⟨(), _, _, diagnose_run _, rfl⟩⟩
  | some key => exact ⟨[], rfl⟩

theorem linkKeys_run (env : Env δ) (rel : Relation τ) (property : String) (cs : List Record)
    (w : World τ δ) (x : σ) :
    ∃ ds, (cs.mapM (linkKey rel property) : Session τ δ σ _) env w x =
      ⟨.ok (cs.map (linkKeyOf rel property)), w.toldAll env.config ds, x⟩ := by
  induction cs generalizing w with
  | nil => exact ⟨[], rfl⟩
  | cons c cs ih =>
    obtain ⟨ds, hc⟩ := linkKey_run env rel property c w x
    obtain ⟨ds', hcs⟩ := ih (w.toldAll env.config ds)
    refine ⟨ds ++ ds', ?_⟩
    rw [List.mapM_cons]
    refine bind_ok.2 ⟨_, _, _, hc, bind_ok.2 ⟨_, _, _, hcs, ?_⟩⟩
    rw [World.toldAll, World.toldAll, World.toldAll, List.foldl_append]
    rfl

/-! ## Synchronization -/

/-- Deletes the links of the keys that are lost, and inserts links for those that are gained. -/
def exchangeLinks (m : TableMap τ) (rel : Relation τ) (master : Value) (old new : List Value) :
    Session τ δ Record Unit := do
  let d := (← config).dialect
  let childType := typeName rel.child
  executeEach (m.linkDelete d rel.spec childType master) (unlinkedKeys old new)
  executeEach (m.linkInsert d rel.spec childType master) (linkedKeys old new)
  emit (.linksSynchronized (typeName m.owner) rel.spec.property
    (membershipChanges old new).1.length (membershipChanges old new).2.length)

variable [DecidableEq τ] {children : List Record} {master : Value} {cm : TableMap τ}
  {c : Catalog τ}

/-- Once the key of the parent and the map of the children are there, what is left is to
    exchange the keys of the collection for those of the stored one. -/
theorem synchronizeLinks_run (old : Option Record) (hc : r.many? rel.slot = some children)
    (hk : masterKey m rel.spec r = some master)
    (ht : w.catalog.tableMap env.config rel.child = .ok (cm, c)) :
    ∃ w₁, w₁.database = w.database ∧ w₁.requests = w.requests ∧ w₁.catalog = c ∧
      synchronizeLinks m rel old env w r =
        exchangeLinks m rel master
          (storedLinkKeys rel.child (linkProperty rel.spec cm)
            ((old.bind fun r => r.many? rel.slot).getD []))
          (linkKeysOf rel (linkProperty rel.spec cm) children) env w₁ r := by
  obtain ⟨ds, hd⟩ := masterValue_run env m rel.spec w r
  have hm : (tableMap rel.child : Session τ δ Record _) env (w.toldAll env.config ds) r =
      ⟨.ok cm, { w.toldAll env.config ds with catalog := c }, r⟩ :=
    tableMap_ok.2 ⟨c, by rwa [World.toldAll_catalog], rfl, rfl⟩
  obtain ⟨ds', hrun⟩ := linkKeys_run env rel (linkProperty rel.spec cm) children
    { w.toldAll env.config ds with catalog := c } r
  refine ⟨World.toldAll { w.toldAll env.config ds with catalog := c } env.config ds',
    by simp, by simp, by simp, ?_⟩
  unfold synchronizeLinks
  rw [focus_bind, hc]
  simp only [bind_run (masterValue m rel.spec), hd, hk, bind_run (tableMap rel.child), hm,
    bind_run (children.mapM _), hrun, List.filterMap_map, Function.id_comp]
  rfl

/-- A record that does not carry the collection, or has no key, changes no links. -/
theorem synchronizeLinks_skipped (old : Option Record)
    (h : r.many? rel.slot = none ∨ masterKey m rel.spec r = none) :
    ∃ ds, synchronizeLinks m rel old env w r = ⟨.ok (), w.toldAll env.config ds, r⟩ := by
  unfold synchronizeLinks
  rw [focus_bind]
  cases hc : r.many? rel.slot with
  | none => exact ⟨[], rfl⟩
  | some children =>
    obtain ⟨ds, hd⟩ := masterValue_run env m rel.spec w r
    rw [h.resolve_left (by simp [hc])] at hd
    exact ⟨ds, bind_ok.2 ⟨_, _, _, hd, rfl⟩⟩

omit [DecidableEq τ] in
theorem exchangeLinks_ok {old new : List Value}
    (h : exchangeLinks m rel master old new env w r = ⟨.ok (), w', r'⟩) :
    r = r' ∧ ∃ w₁ w₂ es,
      Executes env (m.linkDelete env.config.dialect rel.spec (typeName rel.child) master)
        (unlinkedKeys old new) w w₁ ∧
      Executes env (m.linkInsert env.config.dialect rel.spec (typeName rel.child) master)
        (linkedKeys old new) w₁ w₂ ∧
      w' = w₂.logged es := by
  obtain ⟨_, _, _, hconfig, h⟩ := bind_ok.1 h
  cases hconfig
  obtain ⟨_, w₁, r₁, hdel, h⟩ := bind_ok.1 h
  obtain ⟨rfl, deletes⟩ := executeEach_ok hdel
  obtain ⟨_, w₂, r₂, hins, hemit⟩ := bind_ok.1 h
  obtain ⟨rfl, inserts⟩ := executeEach_ok hins
  rw [emit_run, Ran.mk.injEq] at hemit
  obtain ⟨-, rfl, rfl⟩ := hemit
  exact ⟨rfl, w₁, w₂, _, deletes, inserts, rfl⟩

theorem synchronizeLinks_map (hc : r.many? rel.slot = some children)
    (hk : masterKey m rel.spec r = some master)
    (h : synchronizeLinks m rel old env w r = ⟨.ok (), w', r'⟩) :
    ∃ cm c, w.catalog.tableMap env.config rel.child = .ok (cm, c) := by
  obtain ⟨ds, hd⟩ := masterValue_run env m rel.spec w r
  unfold synchronizeLinks at h
  rw [focus_bind, hc] at h
  simp only [bind_run (masterValue m rel.spec), hd, hk] at h
  obtain ⟨cm, w₁, r₁, hm, -⟩ := bind_ok.1 h
  obtain ⟨c, ht, -⟩ := tableMap_ok.1 hm
  rw [World.toldAll_catalog] at ht
  exact ⟨cm, c, ht⟩

/-- Deletes for the keys that are no longer in the collection, then inserts for those that
    are new in it. -/
theorem synchronizeLinks_ok (h : synchronizeLinks m rel old env w r = ⟨.ok (), w', r'⟩) :
    r = r' ∧ ((r.many? rel.slot = none ∧ w = w') ∨
      (masterKey m rel.spec r = none ∧ ∃ ds, w' = w.toldAll env.config ds) ∨
      ∃ children master cm c w₁ w₂ w₃ es, r.many? rel.slot = some children ∧
        masterKey m rel.spec r = some master ∧
        w.catalog.tableMap env.config rel.child = .ok (cm, c) ∧
        w₁.database = w.database ∧
        (let property := linkProperty rel.spec cm
         let oldKeys := storedLinkKeys rel.child property
           ((old.bind fun r => r.many? rel.slot).getD [])
         let newKeys := linkKeysOf rel property children
         Executes env (m.linkDelete env.config.dialect rel.spec (typeName rel.child) master)
           (unlinkedKeys oldKeys newKeys) w₁ w₂ ∧
         Executes env (m.linkInsert env.config.dialect rel.spec (typeName rel.child) master)
           (linkedKeys oldKeys newKeys) w₂ w₃) ∧
        w' = w₃.logged es) := by
  cases hc : r.many? rel.slot with
  | none =>
    unfold synchronizeLinks at h
    rw [focus_bind, hc] at h
    obtain ⟨-, rfl, rfl⟩ := pure_ok.1 h
    exact ⟨rfl, .inl ⟨rfl, rfl⟩⟩
  | some children =>
    cases hk : masterKey m rel.spec r with
    | none =>
      obtain ⟨ds, hskipped⟩ : ∃ ds, synchronizeLinks m rel old env w r =
        ⟨.ok (), w.toldAll env.config ds, r⟩ := synchronizeLinks_skipped old (.inr hk)
      rw [hskipped, Ran.mk.injEq] at h
      obtain ⟨-, rfl, rfl⟩ := h
      exact ⟨rfl, .inr (.inl ⟨rfl, ds, rfl⟩)⟩
    | some master =>
      obtain ⟨cm, c, ht⟩ := synchronizeLinks_map hc hk h
      obtain ⟨w₁, hdb, -, -, hrun⟩ := synchronizeLinks_run old hc hk ht
      rw [hrun] at h
      obtain ⟨rfl, w₂, w₃, es, deletes, inserts, rfl⟩ := exchangeLinks_ok h
      exact ⟨rfl, .inr (.inr ⟨children, master, cm, c, w₁, w₂, w₃, es, rfl, rfl, ht, hdb,
        ⟨deletes, inserts⟩, rfl⟩)⟩

end Session

end RecordGraph
