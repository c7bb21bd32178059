/-
  The synchronization of a collection, when it succeeds.

  `synchronizeChildren_ok` says where it ends if it does not come to the children, and
  `alignChildren_ok` what it does with them: it drops the old ones without a new one and
  visits the places that are accounted for as saved.
-/
import RecordGraph.Proofs.Graph.Changes
import RecordGraph.Proofs.Session.Deletions

namespace RecordGraph

namespace Session

variable {τ δ : Type} [Model τ] {env : Env δ} {w w' : World τ δ} {r r' : Record}
  {m cm : TableMap τ} {rel : Relation τ} {saveChild : τ → Session τ δ Record Unit}
  {before : Option (List Record)} {old : Option Record} {new : List Record}

/-- The places of the children that are saved, in their order. -/
def savedPlaces (rel : Relation τ) (childMap : TableMap τ) (before : Option (List Record))
    (new : List Record) : List Nat :=
  (childChanges rel childMap before new).updates.map Prod.fst ++
    (childChanges rel childMap before new).insertions

/-- The old children without a new one. -/
def lostChildren (rel : Relation τ) (childMap : TableMap τ) (before : Option (List Record))
    (new : List Record) : List Record :=
  (childChanges rel childMap before new).deletions.filterMap ((before.getD [])[·]?)

theorem accounted_childChanges (rel : Relation τ) (cm : TableMap τ) (before : Option (List Record))
    (new : List Record) : Accounted rel.child cm.keys (before.getD []) new
    (savedPlaces rel cm before new) (lostChildren rel cm before new) := by
  cases before with
  | none => exact accounted_allInserted
  | some before => exact Changes.accounted

variable [DecidableEq τ]

theorem alignChildren_ok (hc : r.many? rel.slot = some new)
    (hm : w.catalog.map? rel.child = some cm)
    (h : alignChildren saveChild m rel cm before env w r = ⟨.ok (), w', r'⟩) :
    ∃ w₁ w₂ new' es,
      ((lostChildren rel cm before new).forM (deleteChild rel.child) : Session τ δ Record Unit)
        env w r = ⟨.ok (), w₁, r⟩ ∧
      Visits env (saveChild rel.child) (savedPlaces rel cm before new) w₁ new w₂ new' ∧
      w' = w₂.logged es ∧ r' = r.setSlot rel.slot (.many (some new')) := by
  unfold alignChildren at h
  rw [focus_bind, hc, Option.getD_some] at h
  obtain ⟨_, w₁, r₁, hdel, h⟩ := bind_ok.1 h
  obtain ⟨_, w₂, r₂, hupd, h⟩ := bind_ok.1 h
  obtain ⟨_, w₃, r₃, hins, h⟩ := bind_ok.1 h
  have hlt := (accounted_childChanges rel cm before new).lt
  obtain rfl : r = r₁ := by
    obtain ⟨-, -, -, -, -, -, hx, -⟩ := deleteAll_sends env r hm
      (lostChildren rel cm before new)
    rw [lostChildren, hdel] at hx
    exact hx.symm
  obtain ⟨cs₂, hv₂, rfl⟩ := forM_onChild_ok hc
    (fun i hi => hlt i (List.mem_append_left _ hi)) hupd
  obtain ⟨cs₃, hv₃, rfl⟩ := forM_onChild_ok (Record.many_setSlot hc)
    (fun i hi => hv₂.length_eq ▸ hlt i (List.mem_append_right _ hi)) hins
  rw [emit_run, Ran.mk.injEq] at h
  obtain ⟨-, rfl, rfl⟩ := h
  exact ⟨w₁, w₃, cs₃, _, hdel, hv₂.append hv₃, rfl, Record.setSlot_setSlot⟩

/-- A synchronization that succeeds has the map of the children, and points each of them at the
    record. -/
theorem synchronizeChildren_aligned {children : List Record} {master : Value}
    (hc : r.many? rel.slot = some children) (hk : masterKey m rel.spec r = some master)
    (h : synchronizeChildren saveChild m rel old env w r = ⟨.ok (), w', r'⟩) :
    ∃ cm c new, w.catalog.tableMap env.config rel.child = .ok (cm, c) ∧
      children.mapM (attached rel.child (rel.spec.masterColumn (typeName m.owner)) master) =
        .ok new := by
  obtain ⟨ds, hd⟩ := masterValue_run env m rel.spec w r
  unfold synchronizeChildren at h
  rw [focus_bind, hc] at h
  simp only [bind_run (masterValue m rel.spec), hd, hk] at h
  obtain ⟨cm, w₁, r₁, hmap, hchildren⟩ := bind_ok.1 h
  obtain ⟨c, ht, rfl, rfl⟩ := tableMap_ok.1 hmap
  rw [World.toldAll_catalog] at ht
  obtain ⟨_, w₂, r₂, hatt, -⟩ := bind_ok.1 hchildren
  obtain ⟨es, r₃, hr, -⟩ := attachAll_run env (rel.spec.masterColumn (typeName m.owner)) master
    { w.toldAll env.config ds with catalog := c } hc
  rw [hr, Ran.mk.injEq] at hatt
  cases ha : children.mapM (attached rel.child (rel.spec.masterColumn (typeName m.owner))
      master) with
  | error e => rw [ha] at hatt; cases hatt.1
  | ok new => exact ⟨cm, c, new, ht, rfl⟩

/-- A synchronization that succeeds ends early only for want of a collection or a key. -/
theorem synchronizeChildren_ok
    (h : synchronizeChildren saveChild m rel old env w r = ⟨.ok (), w', r'⟩) :
    (r.many? rel.slot = none ∧ w = w' ∧ r = r') ∨
    (masterKey m rel.spec r = none ∧ (∃ ds, w' = w.toldAll env.config ds) ∧ r = r') ∨
    ∃ new cm c w₁, aligned m rel r = some new ∧
      w.catalog.tableMap env.config rel.child = .ok (cm, c) ∧ w₁.database = w.database ∧
      w₁.requests = w.requests ∧ w₁.catalog = c ∧
      alignChildren saveChild m rel cm (old.bind fun r => r.many? rel.slot) env w₁
        (r.setSlot rel.slot (.many (some new))) = ⟨.ok (), w', r'⟩ := by
  cases hc : r.many? rel.slot with
  | none =>
    unfold synchronizeChildren at h
    rw [focus_bind, hc] at h
    obtain ⟨-, hw, hr⟩ := pure_ok.1 h
    exact .inl ⟨rfl, hw, hr⟩
  | some children =>
    cases hk : masterKey m rel.spec r with
    | none =>
      obtain ⟨ds, hskipped⟩ : ∃ ds, synchronizeChildren saveChild m rel old env w r =
        ⟨.ok (), w.toldAll env.config ds, r⟩ := synchronizeChildren_skipped saveChild old (.inr hk)
      rw [hskipped, Ran.mk.injEq] at h
      obtain ⟨-, rfl, rfl⟩ := h
      exact .inr (.inl ⟨rfl, ⟨ds, rfl⟩, rfl⟩)
    | some master =>
      obtain ⟨cm, c, new, ht, ha⟩ := synchronizeChildren_aligned hc hk h
      have hal := aligned_eq_some.2 ⟨children, hc, master, hk, ha⟩
      obtain ⟨w₁, hdb, hreq, hcat, hrun⟩ := synchronizeChildren_run saveChild old hal ht
      exact .inr (.inr ⟨new, cm, c, w₁, hal, ht, hdb, hreq, hcat, by rw [← hrun, h]⟩)

end Session

end RecordGraph
