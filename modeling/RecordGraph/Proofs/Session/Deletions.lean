/-
  What the synchronization of a collection deletes.

  It deletes, one by one, the stored old children that the pairing leaves over, and then
  sends only what the saves of its children send.  None of the deletes has the keys of a
  child in the collection exactly if no keys have a surplus of old children.
-/
import RecordGraph.Proofs.Graph.Identity
import RecordGraph.Proofs.Samples
import RecordGraph.Proofs.Session.Relations

namespace RecordGraph

namespace Session

variable {τ δ σ : Type} [Model τ] [DecidableEq τ] {env : Env δ} {w : World τ δ} {x : σ}
  {r : Record} {t : τ} {m cm : TableMap τ} {rel : Relation τ} {P : Request → Prop}
  {before : Option (List Record)} {new : List Record}

/-! ## Deletes -/

/-- The stored children that are no longer in a collection. -/
def dropped (rel : Relation τ) (childMap : TableMap τ) (before : Option (List Record))
    (new : List Record) : List Record :=
  ((childChanges rel childMap before new).deletions.filterMap ((before.getD [])[·]?)).filter
    fun o => !isNew rel.child o

omit [DecidableEq τ] in
theorem dropped_unborne_iff (n : Record) :
    (∀ o ∈ dropped rel cm before new, sameKeys rel.child cm.keys n o = false) ↔
      NoSurplus rel.child cm.keys (before.getD []) new n := by
  cases before with
  | none =>
    have hd : dropped rel cm none new = [] := rfl
    rw [hd]
    exact ⟨fun _ => Nat.zero_le _, fun _ o ho => by cases ho⟩
  | some old =>
    rw [Option.getD_some, ← unborne_iff]
    simp only [dropped, childChanges, Option.getD_some, List.mem_filter, List.mem_filterMap,
      Bool.not_eq_true']
    constructor
    · intro h i hi o ho
      rw [bears, Bool.and_eq_false_imp, Bool.not_eq_true']
      exact fun hs => h o ⟨⟨i, hi, ho⟩, hs⟩
    · rintro h o ⟨⟨i, hi, ho⟩, hs⟩
      have hb := h i hi o ho
      rwa [bears, hs, Bool.not_false, Bool.true_and] at hb

/-- The requests are the deletes of the rows of some children. -/
def AreDeletes (d : Dialect) (childMap : TableMap τ) : List Record → List Request → Prop :=
  List.Forall₂ fun o q =>
    ∃ s, childMap.deleteByKeys d (childMap.keyValues o) = .ok s ∧ q = ⟨.execute, s⟩

theorem deleteChild_of_new {o : Record} (ho : isNew t o) :
    (deleteChild t o : Session τ δ σ Unit) env w x = ⟨.ok (), w, x⟩ := by
  simp only [deleteChild, ho, if_true]; rfl

theorem delete_run (hm : w.catalog.map? t = some cm) {o : Record} (ho : isNew t o = false) :
    (delete t o : Session τ δ σ Nat) env w x =
      match cm.deleteByKeys env.config.dialect (cm.keyValues o) with
      | .error e => ⟨.error e, w, x⟩
      | .ok s => ⟨(env.executor.execute s w.database).1,
          w.executed env s, x⟩ := by
  have ht : (tableMap t : Session τ δ σ _) env w x = ⟨.ok cm, w, x⟩ :=
    tableMap_ok.2 ⟨w.catalog, Catalog.tableMap_of_map hm, rfl, rfl⟩
  unfold delete
  rw [ho, if_neg (by simp), bind_run, ht]
  simp only [config_bind, lift_bind, execute_run]
  cases cm.deleteByKeys env.config.dialect (cm.keyValues o) <;> rfl

theorem deleteChild_run (env : Env δ) (x : σ) (hm : w.catalog.map? t = some cm) {o : Record}
    (ho : isNew t o = false) :
    (deleteChild t o : Session τ δ σ Unit) env w x =
      match cm.deleteByKeys env.config.dialect (cm.keyValues o) with
      | .error e => ⟨.error e, w, x⟩
      | .ok s => ⟨(env.executor.execute s w.database).1.map fun _ => (),
          w.executed env s, x⟩ := by
  unfold deleteChild
  rw [ho, if_neg (by simp), bind_run, delete_run hm ho]
  cases cm.deleteByKeys env.config.dialect (cm.keyValues o) with
  | error e => rfl
  | ok s =>
    dsimp only
    cases (env.executor.execute s w.database).1 <;> rfl

/-- Deleting children stops at the first delete that fails. -/
theorem deleteAll_sends (env : Env δ) (x : σ) (hm : w.catalog.map? t = some cm) (os : List Record) :
    ∃ done sent, done <+: os.filter (fun o => !isNew t o) ∧
      AreDeletes env.config.dialect cm done sent ∧
      ((os.forM (deleteChild t) : Session τ δ σ Unit) env w x).world.requests =
        w.requests ++ sent ∧
      ((os.forM (deleteChild t) : Session τ δ σ Unit) env w x).world.catalog = w.catalog ∧
      ((os.forM (deleteChild t) : Session τ δ σ Unit) env w x).focus = x ∧
      (((os.forM (deleteChild t) : Session τ δ σ Unit) env w x).result = .ok () →
        done = os.filter fun o => !isNew t o) := by
  induction os generalizing w with
  | nil => exact ⟨[], [], List.prefix_rfl, .nil, by simp; rfl, rfl, rfl, fun _ => rfl⟩
  | cons o os ih =>
    cases ho : isNew t o with
    | true =>
      rw [forM_cons_run, deleteChild_of_new ho]
      simpa [ho] using ih hm
    | false =>
      have hrun := deleteChild_run env x hm ho
      have hfilter : (o :: os).filter (fun o => !isNew t o) =
          o :: os.filter fun o => !isNew t o := by simp [ho]
      rw [forM_cons_run, hfilter]
      cases hs : cm.deleteByKeys env.config.dialect (cm.keyValues o) with
      | error e =>
        rw [hs] at hrun
        rw [hrun]
        exact ⟨[], [], List.nil_prefix, .nil, by simp, rfl, rfl, by rintro ⟨⟩⟩
      | ok s =>
        rw [hs] at hrun
        dsimp only at hrun
        cases he : (env.executor.execute s w.database).1 with
        | error e =>
          rw [he] at hrun
          rw [hrun]
          refine ⟨[o], [⟨.execute, s⟩], by simp, .cons ⟨s, hs, rfl⟩ .nil, rfl, rfl, rfl, ?_⟩
          rintro ⟨⟩
        | ok n =>
          rw [he] at hrun
          rw [hrun]
          obtain ⟨done, sent, hp, hd, hr, hc, hx, hall⟩ :=
            ih (w := w.executed env s) hm
          refine ⟨o :: done, ⟨.execute, s⟩ :: sent, ?_, .cons ⟨s, hs, rfl⟩ hd, ?_, hc, hx, ?_⟩
          · exact (List.prefix_cons_inj o).2 hp
          · exact hr.trans (by simp)
          · intro h; rw [hall h]

/-! ## Synchronization -/

/-- The run deletes some of the given records, one after the other, all of them if it
    succeeds, and then sends only requests with the property. -/
def DeletesThen (P : Request → Prop) (d : Dialect) (childMap : TableMap τ) (os : List Record)
    (w : World τ δ) (out : Ran τ δ σ Unit) : Prop :=
  ∃ done deletes later, done <+: os ∧ AreDeletes d childMap done deletes ∧
    out.world.requests = w.requests ++ deletes ++ later ∧ (∀ q ∈ later, P q) ∧
    (out.result = .ok () → done = os)

variable {saveChild : τ → Session τ δ Record Unit}

omit [Model τ] [DecidableEq τ] in
theorem saveAll_sends (hP : ∀ w c, SendsOnly P env (saveChild rel.child) w c) (places : List Nat) :
    SendsOnly P env (saveAll saveChild rel places) w r :=
  .forM (I := fun _ _ => True) trivial (fun _ _ _ _ _ => .onChild hP) fun _ _ _ _ _ _ _ _ => trivial

theorem alignChildren_sends (hP : ∀ w c, SendsOnly P env (saveChild rel.child) w c)
    (hc : r.many? rel.slot = some new) (hm : w.catalog.map? rel.child = some cm) :
    DeletesThen P env.config.dialect cm (dropped rel cm before new) w
      (alignChildren saveChild m rel cm before env w r) := by
  obtain ⟨done, deletes, hpre, hdel, hreq, hcat, hx, hall⟩ :=
    deleteAll_sends env r hm
      ((childChanges rel cm before new).deletions.filterMap ((before.getD [])[·]?))
  unfold alignChildren
  rw [focus_bind, hc, Option.getD_some, bind_run]
  rcases hrun : (List.forM _ (deleteChild rel.child) : Session τ δ Record Unit) env w r with
    ⟨e | a, w₁, r₁⟩
  · rw [hrun] at hreq
    exact ⟨done, deletes, [], hpre, hdel, by simpa using hreq, by simp, by rintro ⟨⟩⟩
  · rw [hrun] at hreq hall
    obtain ⟨later, hlater, hPl⟩ : SendsOnly P env (do
        saveAll saveChild rel ((childChanges rel cm before new).updates.map Prod.fst)
        saveAll saveChild rel (childChanges rel cm before new).insertions
        emit (.childrenSynchronized (typeName m.owner) rel.spec.property
          (childChanges rel cm before new).deletions.length
          (childChanges rel cm before new).updates.length
          (childChanges rel cm before new).insertions.length)) w₁ r₁ := by
      refine .bind (saveAll_sends hP _) fun _ w₂ r₂ _ => ?_
      exact .bind (saveAll_sends hP _) fun _ w₃ r₃ _ => .nothing rfl
    exact ⟨done, deletes, later, hpre, hdel, hlater.trans (by rw [hreq]), hPl, fun _ => hall rfl⟩

variable {old : Option Record} {c : Catalog τ}

/-- What a collection loses is `dropped`; it is what the pairing leaves over of the stored old
    children, and it spares the keys of every child of the collection exactly if these have no
    surplus.  The first part says so of the pairing alone, for the identity of children. -/
theorem synchronizeChildren_deletes (saveChild : τ → Session τ δ Record Unit) (m : TableMap τ)
    (old : Option Record) (hP : ∀ w c, SendsOnly P env (saveChild rel.child) w c)
    (hm : w.catalog.tableMap env.config rel.child = .ok (cm, c))
    (h : aligned m rel r = some new) :
    (∀ (t : τ) (keys : List String) (old new : List Record),
      (∀ i ∈ (Changes.between t keys old new).deletions, ∀ o, old[i]? = some o →
        ∀ n ∈ new, sameIdentity t keys o n = false) ↔
      ∀ n ∈ new, isNew t n = false → NoSurplus t keys old new n) ∧
    DeletesThen P env.config.dialect cm
      (dropped rel cm (old.bind fun r => r.many? rel.slot) new) w
      (synchronizeChildren saveChild m rel old env w r) ∧
    ((∀ n ∈ new, ∀ o ∈ dropped rel cm (old.bind fun r => r.many? rel.slot) new,
      sameKeys rel.child cm.keys n o = false) ↔
      ∀ n ∈ new, NoSurplus rel.child cm.keys ((old.bind fun r => r.many? rel.slot).getD []) new
        n) := by
  refine ⟨fun _ _ _ _ => deleted_unheld_iff, ?_, ?_⟩
  · obtain ⟨w₁, -, hr, hc, hrun⟩ := synchronizeChildren_run saveChild old h hm
    obtain ⟨children, hch, -⟩ := aligned_eq_some.1 h
    rw [hrun, DeletesThen, ← hr]
    have hmap : w₁.catalog.map? rel.child = some cm := hc ▸ Catalog.map_of_tableMap hm
    exact alignChildren_sends hP (Record.many_setSlot hch) hmap
  · exact forall₂_congr fun n _ => dropped_unborne_iff n

/-- An order that has lost one of two lines deletes the row of that one. -/
theorem removed_line_deleted :
    DeletesThen (fun _ => False) .postgres Sample.lineMap [Sample.lineOf 5 7] Sample.lineWorld
      (synchronizeChildren (fun _ => pure ()) Sample.orderMap Sample.linesRelation
        (some (Sample.orderOf 7 [Sample.lineOf 4 7, Sample.lineOf 5 7])) Sample.scripted
        Sample.lineWorld (Sample.orderOf 7 [Sample.lineOf 4 7])) ∧
    ∀ n ∈ [Sample.lineOf 4 7], ∀ o ∈ [Sample.lineOf 5 7],
      sameKeys Sample.orderLine ["Id"] n o = false := by
  have hquiet (w : World Sample Script) (c : Record) : SendsOnly (fun _ => False) Sample.scripted
      ((fun _ => pure () : Sample → Session Sample Script Record Unit) .orderLine) w c :=
    .nothing rfl
  have hmap : Sample.lineWorld.catalog.tableMap Sample.scripted.config .orderLine =
      .ok (Sample.lineMap, Sample.lineCatalog) := Catalog.tableMap_of_map rfl
  have haligned : aligned Sample.orderMap Sample.linesRelation
      (Sample.orderOf 7 [Sample.lineOf 4 7]) = some [Sample.lineOf 4 7] := rfl
  have h := synchronizeChildren_deletes (fun _ => pure ()) Sample.orderMap
    (some (Sample.orderOf 7 [Sample.lineOf 4 7, Sample.lineOf 5 7])) hquiet hmap haligned
  exact ⟨h.2.1, h.2.2.2 (by decide +kernel)⟩

/-- A stored line that was read twice and is kept once is deleted, though the collection
    still holds it. -/
theorem repeated_line_deleted :
    (Changes.between Sample.orderLine ["Id"] [Sample.lineOf 4 7, Sample.lineOf 4 7]
      [Sample.lineOf 4 7]).deletions = [1] ∧
    sameIdentity Sample.orderLine ["Id"] (Sample.lineOf 4 7) (Sample.lineOf 4 7) = true ∧
    (synchronizeChildren (fun _ => pure ()) Sample.orderMap Sample.linesRelation
      (some (Sample.orderOf 7 [Sample.lineOf 4 7, Sample.lineOf 4 7])) Sample.scripted
      Sample.lineWorld (Sample.orderOf 7 [Sample.lineOf 4 7])).world.requests =
        [⟨.execute, .delete, "delete from \"sales\".\"OrderLines\" where \"Id\" = $1",
          [.int 4]⟩] := by
  decide +kernel

end Session

end RecordGraph
