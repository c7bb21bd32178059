/-
  The order of the statements of a save.

  `SaveOrder` says which statements may come after which in a save, at every depth: of its own
  a record has one insert or update at most, and the statements of its relations come only after
  its reload has given a row.

  `save_follows` is the main result: what a save sends are its steps, in this order, whatever
  the executor answers.
-/
import RecordGraph.Proofs.Session.Awaiting
import RecordGraph.Proofs.Session.SaveSteps

namespace RecordGraph

variable {τ δ ρ : Type}

/-! ## Kinds of statements -/

/-- Statements of the kind insert, update or delete rows. -/
def StatementKind.changes : StatementKind → Bool
  | insert | update | delete => true
  | _ => false

namespace Session

variable [Model τ] {config : Config} {maps : τ → Result (TableMap τ)} {m : TableMap τ}
  {r : Record} {p : StatementKind → Bool} {n : Nat}

/-! ## The statements of the record itself -/

section

open Steps

/-- None of the kinds is that of a statement that only reads. -/
structure Writing (p : StatementKind → Bool) : Prop where
  select : p .select = false
  describe : p .describe = false
  procedure : p .procedure = false

/-- A select is of none of the kinds. -/
theorem Writing.no_select (hp : Writing p) {s : Statement} (hs : s.kind = .select)
    (h : p s.kind = true) : 1 ≤ n := by
  rw [hs, hp.select] at h
  cases h

theorem probeSteps_atMost (hp : Writing p) : AtMost p 0 (probeSteps config m r) := by
  unfold probeSteps
  split
  · exact .given _
  · exact AtMost.bind_zero (.send fun s hs => hp.no_select (TableMap.probe_ok hs).1)
      fun _ => .given _

theorem updateSteps_atMost (h : p .update = true → 1 ≤ n) (row : Row) :
    AtMost p n (updateSteps config m r row) := by
  refine AtMost.ofResult_bind fun _ _ => AtMost.ofResult_bind fun update hu => ?_
  cases update with
  | none => exact .given _
  | some s =>
    refine AtMost.bind_zero (.send fun s' hs hk => ?_) fun _ => .given _
    cases hs
    exact h (by rwa [(TableMap.update_ok hu).1] at hk)

theorem insertSteps_atMost (hp : Writing p) (h : p .insert = true → 1 ≤ n) :
    AtMost p n (insertSteps config m r) := by
  refine AtMost.zero_bind (.send fun s hs hk => ?_) fun columns => ?_
  · rw [TableMap.describe_kind hs, hp.describe] at hk
    cases hk
  · have hinsert : ∀ s, m.insert config.dialect r columns = .ok s → p s.kind = true → 1 ≤ n :=
      fun s hs hk => h (by rwa [(TableMap.insert_ok hs).1] at hk)
    split
    · exact AtMost.bind_zero (.send hinsert) fun _ => .given _
    · exact AtMost.bind_zero (.send hinsert) fun _ => .given _

theorem readSteps_atMost (hp : Writing p) (rel : Relation τ) (r : Record) :
    AtMost p 0 (readSteps config maps m rel r) := by
  unfold readSteps keyedSteps
  split
  · exact .given _
  · refine AtMost.bind_zero (.send fun s hs hk => ?_) fun rows =>
      AtMost.bind_zero (.mayGive _) fun cs => AtMost.bind_zero ?_ fun _ => .given _
    · rcases TableMap.relationRead_kind hs with h | h
      · exact hp.no_select h hk
      · rw [h, hp.procedure] at hk
        cases hk
    · cases rel.kind with
      | oneToMany => exact .given _
      | manyToMany => exact AtMost.ofResult_bind fun _ _ => .given _

theorem storedSteps_atMost (hp : Writing p) (row : Row) :
    AtMost p 0 (storedSteps config maps m row) := by
  unfold storedSteps
  split
  · exact .given _
  · exact AtMost.bind_zero (.mayGive _) fun r =>
      AtMost.bind_zero (.each (readSteps_atMost hp) _ _) fun _ => .given _

theorem storeSteps_atMost (hp : Writing p) (hu : p .update = true → 1 ≤ n)
    (hi : p .insert = true → 1 ≤ n) : AtMost p n (storeSteps config maps m r) := by
  refine (probeSteps_atMost hp).zero_bind fun stored => ?_
  cases stored with
  | none => exact (insertSteps_atMost hp hi).bind_zero fun _ => .given _
  | some row =>
    exact (updateSteps_atMost hu row).bind_zero fun _ =>
      (storedSteps_atMost hp row).bind_zero fun _ => .given _

theorem reloadSteps_atMost (hp : Writing p) : AtMost p 0 (reloadSteps config m r) := by
  refine AtMost.bind_zero (.send fun s hs => hp.no_select (TableMap.selectByKeys_ok hs).1)
    fun rows => ?_
  cases rows with
  | nil => exact .given none
  | cons row rows => exact .mayGive _

end

/-- One statement at most changes a row, and it is no delete. -/
structure WritesOnce (xs : List Exchange) : Prop where
  once : xs.countP (fun x => x.statement.kind.changes) ≤ 1
  keeps : ∀ x ∈ xs, x.statement.kind ≠ .delete

/-- The statement has given a row. -/
def GaveRow (x : Exchange) : Prop := ∃ row rows, x.response = .rows (.ok (row :: rows))

variable {xs ys : List Exchange}

theorem WritesOnce.append (h : WritesOnce xs)
    (hys : ∀ y ∈ ys, y.statement.kind.changes = false) : WritesOnce (xs ++ ys) where
  once := by
    have hzero : ys.countP (fun y => y.statement.kind.changes) = 0 :=
      List.countP_eq_zero.2 fun y hy => by simp [hys y hy]
    rw [List.countP_append, hzero]
    exact h.once
  keeps x hx := by
    rcases List.mem_append.1 hx with hx | hx
    · exact h.keeps x hx
    · intro hdelete
      have hreads := hys x hx
      rw [hdelete] at hreads
      cases hreads

theorem storeSteps_writesOnce {out : Option (Option Record × Record)}
    (h : storeSteps config maps m r xs out) : WritesOnce xs where
  once := storeSteps_atMost ⟨rfl, rfl, rfl⟩ (fun _ => Nat.le_refl 1) (fun _ => Nat.le_refl 1) xs _ h
  keeps x hx := by
    have hzero : Steps.AtMost (· == .delete) 0 (storeSteps config maps m r) :=
      storeSteps_atMost ⟨rfl, rfl, rfl⟩ (by decide) (by decide)
    simpa using hzero.forall h x hx

theorem reloadSteps_reads {out : Option Record} (h : reloadSteps config m r xs out) :
    ∀ x ∈ xs, x.statement.kind.changes = false :=
  (reloadSteps_atMost ⟨rfl, rfl, rfl⟩).forall h

theorem reloadSteps_gaveRow {r' : Record} (h : reloadSteps config m r xs (some r')) :
    ∃ x, xs = [x] ∧ GaveRow x := by
  obtain ⟨-, ⟨⟩⟩ | ⟨ys, zs, rows, hquery, hrow, rfl⟩ := h
  cases hs : m.selectByKeys config.dialect .short (m.keyValues r) with
  | error e =>
    rw [hs] at hquery
    cases hquery.2
  | ok s =>
    rw [hs] at hquery
    obtain ⟨answer, rfl, hanswer⟩ := hquery
    cases answer with
    | error e => cases hanswer
    | ok rows' =>
      cases hanswer
      cases rows with
      | nil => cases hrow.2
      | cons row rows =>
        obtain ⟨rfl, -⟩ := hrow
        exact ⟨_, rfl, row, rows, rfl⟩

/-! ## The order of a save -/

mutual

/-- The statements of a save: those of the record itself, and once its reload has given a row,
    those of its relations. -/
inductive SaveOrder : List Exchange → Prop
  | own {xs : List Exchange} : WritesOnce xs → SaveOrder xs
  | reloaded {xs ys : List Exchange} {x : Exchange} : WritesOnce (xs ++ [x]) → GaveRow x →
      RelationsOrder ys → SaveOrder (xs ++ [x] ++ ys)

/-- The statements of some relations, one after the other. -/
inductive RelationsOrder : List Exchange → Prop
  | nil : RelationsOrder []
  | cons {xs ys : List Exchange} : RelationOrder xs → RelationsOrder ys →
      RelationsOrder (xs ++ ys)

/-- The statements of one relation: deletes of links and then inserts of links, or deletes of
    children, then saves of those that have changed, and then saves of those that are new. -/
inductive RelationOrder : List Exchange → Prop
  | links {xs ys : List Exchange} : (∀ x ∈ xs, x.statement.kind = .delete) →
      (∀ y ∈ ys, y.statement.kind = .insert) → RelationOrder (xs ++ ys)
  | children {xs ys zs : List Exchange} : (∀ x ∈ xs, x.statement.kind = .delete) →
      SavesOrder ys → SavesOrder zs → RelationOrder (xs ++ (ys ++ zs))

/-- The statements of some saves, one after the other. -/
inductive SavesOrder : List Exchange → Prop
  | nil : SavesOrder []
  | cons {xs ys : List Exchange} : SaveOrder xs → SavesOrder ys → SavesOrder (xs ++ ys)

end

variable {saving : τ → Record → Steps Record} {old : Option Record} {rel : Relation τ}
  {cm : TableMap τ} {before : Option (List Record)} {out : Option Record}

/-- Work that sends only statements of one kind. -/
theorem kind_of_atMost {P : Steps ρ} {k : StatementKind} {out : Option ρ}
    (h : Steps.AtMost (· != k) 0 P) (hP : P xs out) : ∀ x ∈ xs, x.statement.kind = k := by
  intro x hx
  simpa using h.forall hP x hx

theorem deleteSteps_deletes {child : τ} {os : List Record} {out : Option Unit}
    (h : Steps.each (fun o _ => deleteSteps config maps child o) os () xs out) :
    ∀ x ∈ xs, x.statement.kind = .delete := by
  refine kind_of_atMost (.each (fun o _ => ?_) os ()) h
  unfold deleteSteps
  split
  · exact .given _
  · refine Steps.AtMost.ofResult_bind fun cm _ =>
      Steps.AtMost.bind_zero (.send fun s hs hk => ?_) fun _ => .given _
    rw [(TableMap.deleteByKeys_ok hs).1] at hk
    cases hk

theorem eachKey_kind {statement : Value → Result Statement} {k : StatementKind}
    (hk : ∀ key s, statement key = .ok s → s.kind = k) {keys : List Value} {out : Option Unit}
    (h : eachKey statement keys xs out) : ∀ x ∈ xs, x.statement.kind = k := by
  refine kind_of_atMost (.each (fun key _ => ?_) keys ()) h
  refine Steps.AtMost.bind_zero (.send fun s hs hne => ?_) fun _ => .given _
  simp [hk key s hs] at hne

theorem saveOrder_nil : SaveOrder [] := .own ⟨Nat.zero_le 1, by simp⟩

theorem placeSteps_order {saving : Record → Steps Record}
    (hs : ∀ c xs out, saving c xs out → SaveOrder xs) {slot i : Nat}
    (h : placeSteps saving slot i r xs out) : SaveOrder xs := by
  unfold placeSteps at h
  cases hc : r.child? slot i with
  | none =>
    rw [hc] at h
    obtain ⟨rfl, -⟩ := h
    exact saveOrder_nil
  | some c =>
    rw [hc] at h
    obtain ⟨hsave, -⟩ | ⟨ys, zs, c', hsave, ⟨rfl, -⟩, rfl⟩ := h
    · exact hs c xs none hsave
    · rw [List.append_nil]
      exact hs c ys _ hsave

theorem placesSteps_order {saving : Record → Steps Record}
    (hs : ∀ c xs out, saving c xs out → SaveOrder xs) {slot : Nat} {places : List Nat}
    (h : Steps.each (placeSteps saving slot) places r xs out) : SavesOrder xs :=
  Steps.each_sends (J := SaveOrder) (fun _ _ _ _ => placeSteps_order hs) .nil (fun _ _ => .cons) h

theorem alignSteps_order {saving : Record → Steps Record}
    (hs : ∀ c xs out, saving c xs out → SaveOrder xs)
    (h : alignSteps config maps saving rel cm before r xs out) : RelationOrder xs := by
  obtain ⟨hd, -⟩ | ⟨ds, ss, _, hd, hrest, rfl⟩ := h
  · have horder := RelationOrder.children (deleteSteps_deletes hd) .nil .nil
    rwa [List.append_nil, List.append_nil] at horder
  · obtain ⟨hu, -⟩ | ⟨us, is, _, hu, hi, rfl⟩ := hrest
    · have horder := RelationOrder.children (deleteSteps_deletes hd) (placesSteps_order hs hu) .nil
      rwa [List.append_nil] at horder
    · exact .children (deleteSteps_deletes hd) (placesSteps_order hs hu) (placesSteps_order hs hi)

theorem relationOrder_nil : RelationOrder ([] ++ []) :=
  .links (List.forall_mem_nil _) (List.forall_mem_nil _)

theorem exchangeSteps_order {master : Value} {unlinked linked : List Value}
    (h : (do
      eachKey (m.linkDelete config.dialect rel.spec (typeName rel.child) master) unlinked
      eachKey (m.linkInsert config.dialect rel.spec (typeName rel.child) master) linked
      return r : Steps Record) xs out) : RelationOrder xs := by
  have hdeletes {xs : List Exchange} {out : Option Unit}
      (h : eachKey (m.linkDelete config.dialect rel.spec (typeName rel.child) master) unlinked xs
        out) : ∀ x ∈ xs, x.statement.kind = .delete :=
    eachKey_kind (fun _ _ hs => (TableMap.linkDelete_ok hs).1) h
  have hinserts {xs : List Exchange} {out : Option Unit}
      (h : eachKey (m.linkInsert config.dialect rel.spec (typeName rel.child) master) linked xs
        out) : ∀ x ∈ xs, x.statement.kind = .insert :=
    eachKey_kind (fun _ _ hs => (TableMap.linkInsert_ok hs).1) h
  obtain ⟨hd, -⟩ | ⟨ds, is, _, hd, hi, rfl⟩ := h
  · have horder := RelationOrder.links (hdeletes hd) (List.forall_mem_nil _)
    rwa [List.append_nil] at horder
  · obtain ⟨hi, -⟩ | ⟨is, _, _, hi, ⟨rfl, -⟩, rfl⟩ := hi
    · exact .links (hdeletes hd) (hinserts hi)
    · rw [List.append_nil]
      exact .links (hdeletes hd) (hinserts hi)

theorem relationSteps_order (hs : ∀ t c xs out, saving t c xs out → SaveOrder xs)
    (h : relationSteps config maps saving m old rel r xs out) : RelationOrder xs := by
  have hnone {r : Record} (h : (pure r : Steps Record) xs out) : RelationOrder xs := by
    obtain ⟨rfl, -⟩ := h
    exact relationOrder_nil
  unfold relationSteps childrenSteps linkSteps at h
  cases hro : rel.spec.readOnly with
  | true => exact hnone (by rwa [hro] at h)
  | false =>
    rw [hro] at h
    cases hc : r.many? rel.slot with
    | none => cases hk : rel.kind <;> exact hnone (by rwa [hk, hc] at h)
    | some children =>
      cases hm : masterKey m rel.spec r with
      | none => cases hk : rel.kind <;> exact hnone (by rwa [hk, hc, hm] at h)
      | some master =>
        cases hk : rel.kind with
        | oneToMany =>
          rw [hk, hc, hm] at h
          obtain rfl | ⟨cm, -, h⟩ := Steps.ofResult_bind_cases h
          · exact relationOrder_nil
          obtain rfl | ⟨cs, -, h⟩ := Steps.ofResult_bind_cases h
          · exact relationOrder_nil
          exact alignSteps_order (hs rel.child) h
        | manyToMany =>
          rw [hk, hc, hm] at h
          obtain rfl | ⟨cm, -, h⟩ := Steps.ofResult_bind_cases h
          · exact relationOrder_nil
          exact exchangeSteps_order h

/-- A save in which every child is saved in order is in order. -/
theorem saveSteps_order (hs : ∀ t c xs out, saving t c xs out → SaveOrder xs) {t : τ}
    (h : saveSteps config maps saving t r xs out) : SaveOrder xs := by
  obtain rfl | ⟨m, -, hsave⟩ := Steps.ofResult_bind_cases h
  · exact saveOrder_nil
  obtain ⟨hstore, -⟩ | ⟨ys, zs, ⟨old, r₁⟩, hstore, hrest, rfl⟩ := hsave
  · exact .own (storeSteps_writesOnce hstore)
  have hys := storeSteps_writesOnce hstore
  obtain ⟨hreload, -⟩ | ⟨us, vs, r₂, hreload, hrelations, rfl⟩ := hrest
  · exact .own (hys.append (reloadSteps_reads hreload))
  have hown := hys.append (reloadSteps_reads hreload)
  obtain ⟨x, rfl, hx⟩ := reloadSteps_gaveRow hreload
  rw [← List.append_assoc]
  exact .reloaded hown hx (Steps.each_sends (J := RelationOrder)
    (fun _ _ _ _ => relationSteps_order hs) .nil (fun _ _ => .cons) hrelations)

theorem saveLevelSteps_order {t : τ} (h : saveLevelSteps config maps n t r xs out) :
    SaveOrder xs := by
  induction n generalizing t r xs out with
  | zero => exact saveSteps_order (fun _ _ _ _ => False.elim) h
  | succ n ih => exact saveSteps_order (fun _ _ _ _ => ih) h

/-! ## Runs -/

variable [DecidableEq τ] {env : Env δ} {w : World τ δ} {t : τ}

/-- A save that finds its row newer than the record ends there. -/
theorem save_stale {c : Catalog τ} {s : Statement} {row : Row} {rows : List Row} {column : String}
    {e : Error} (ht : w.catalog.tableMap env.config t = .ok (m, c))
    (hnew : isNew m.owner r = false) (hs : m.probe env.config.dialect (m.keyValues r) = .ok s)
    (hq : (env.executor.query s w.database).1 = .ok (row :: rows))
    (hcolumn : env.config.staleColumn = some column)
    (he : checkStale column m.owner row r = .error e) :
    save t env w r = ⟨.error e, World.queried { w with catalog := c } env s, r⟩ := by
  have hmap : (tableMap t : Session τ δ Record _) env w r = ⟨.ok m, { w with catalog := c }, r⟩ :=
    tableMap_ok.2 ⟨c, ht, rfl, rfl⟩
  have hstored : storedRow m env { w with catalog := c } r =
      ⟨.ok (some row), World.queried { w with catalog := c } env s, r⟩ :=
    storedRow_ok.2 ⟨rfl, .inr ⟨hnew, s, row :: rows, hs, hq, rfl, rfl⟩⟩
  have hupdate (w : World τ δ) : updateRow m row env w r = ⟨.error e, w, r⟩ := by
    unfold updateRow
    rw [focus_bind, config_bind, hcolumn]
    dsimp only
    rw [lift_bind, he]
  have hwrite : writeRow m env { w with catalog := c } r =
      ⟨.error e, World.queried { w with catalog := c } env s, r⟩ := by
    unfold writeRow
    rw [bind_run, hstored]
    dsimp only
    rw [bind_run, hupdate]
  obtain ⟨saveChild, hlevels⟩ := saveLevels_eq τ δ r.depth
  unfold save
  rw [focus_bind, hlevels]
  unfold saveUsing
  rw [bind_run, hmap]
  dsimp only
  rw [bind_run, hwrite]

/-- The exchanges are those of a save: they are sent and answered in this order, they are what
    the steps of the record allow, and a statement that fails is the last one. -/
structure SaveSends (env : Env δ) (t : τ) (w : World τ δ) (r : Record) (out : Ran τ δ Record Unit)
    (xs : List Exchange) : Prop where
  requests : out.world.requests = w.requests ++ xs.map Exchange.request
  answered : Answered env.executor w.database xs out.world.database
  steps : saveLevelSteps env.config (w.catalog.mapOf env.config) r.depth t r xs
    (out.view fun _ r' => r')
  failsLast : FailsLast xs out.result.isOk
  order : SaveOrder xs
  /-- A record that is stale sends its probe, and stays as it is. -/
  stale : ∀ m s row rows column e, w.catalog.mapOf env.config t = .ok m → isNew t r = false →
    m.probe env.config.dialect (m.keyValues r) = .ok s →
    (env.executor.query s w.database).1 = .ok (row :: rows) →
    env.config.staleColumn = some column → checkStale column t row r = .error e →
    xs = [⟨s, .rows (.ok (row :: rows))⟩] ∧ out.result = .error e ∧ out.focus = r

/-- What a save sends are its steps in their order, whatever the executor answers. -/
theorem save_follows (hτ : Model.Sound τ) (hw : w.catalog.Sound env.config) :
    ∃ xs, SaveSends env t w r (save t env w r) xs := by
  have hfollows : Follows env (w.catalog.mapOf env.config)
      (saveLevelSteps env.config (w.catalog.mapOf env.config) r.depth t r) (fun _ r' => r')
      (save t) w r := .focus (saveLevels_follows hτ (Nat.le_refl _))
  obtain ⟨-, xs, hreq, hans, hfail, hsteps⟩ := hfollows ⟨hw, fun _ => rfl⟩
  refine ⟨xs, hreq, hans, hsteps, hfail, saveLevelSteps_order hsteps, ?_⟩
  intro m s row rows column e hm hnew hs hq hcolumn he
  obtain ⟨c, ht⟩ := Catalog.tableMap_of_mapOf hm
  obtain rfl : m.owner = t := (hw.tableMap ht).1.owner
  have hrun := save_stale ht hnew hs hq hcolumn he
  rw [hrun] at hreq hans
  refine ⟨?_, by rw [hrun], by rw [hrun]⟩
  rw [hans.single_query (List.append_cancel_left hreq).symm, hq]

/-- Project 1 is saved with a renamed task, which carries a new step: the project is updated and
    reloaded, then so is its task, and then the step is inserted and reloaded. -/
theorem renamed_task_sends :
    (∃ xs, SaveSends Sample.scripted Sample.project
      (Sample.answering (Sample.projectAnswers ++ Sample.taskAnswers))
      (Sample.projectWithStep "new")
      (save Sample.project Sample.scripted
        (Sample.answering (Sample.projectAnswers ++ Sample.taskAnswers))
        (Sample.projectWithStep "new")) xs) ∧
    (save Sample.project Sample.scripted
      (Sample.answering (Sample.projectAnswers ++ Sample.taskAnswers))
      (Sample.projectWithStep "new")).world.requests.map (fun q => q.statement.kind) =
      [.select, .update, .select, .select, .select,
        .select, .update, .procedure, .select,
        .describe, .insert, .select] :=
  ⟨save_follows Sample.sound Catalog.sound_empty, by decide +kernel⟩

end Session

end RecordGraph
