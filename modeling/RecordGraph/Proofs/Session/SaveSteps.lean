/-
  The statements of a save, one after the other.

  `saveSteps` are the steps of saving one record: a probe unless the record is new; an update
  and the reads of what is stored, or else a describe and an insert; a reload; and then the
  steps of every relation in the order of the map.  `saveLevels_follows`: a save sends what
  these steps allow, whatever is answered.
-/
import RecordGraph.Proofs.Session.Follows
import RecordGraph.Proofs.Session.Saved

namespace RecordGraph

namespace Session

variable {τ δ σ : Type} [Model τ]

/-! ## The row of the record -/

section

variable (config : Config) (maps : τ → Result (TableMap τ)) (m : TableMap τ)

/-- The probe for the stored row of a record that is not new. -/
def probeSteps (r : Record) : Steps (Option Row) :=
  if isNew m.owner r then pure none
  else do
    let rows ← Steps.query (m.probe config.dialect (m.keyValues r))
    return rows.head?

/-- The record may be written over the stored row. -/
def notStale (t : τ) (row : Row) (r : Record) : Result Unit :=
  match config.staleColumn with
  | some column => checkStale column t row r
  | none => .ok ()

/-- One update at most, and none if the record is stale. -/
def updateSteps (r : Record) (row : Row) : Steps Unit := do
  Steps.ofResult (notStale config m.owner row r)
  match ← Steps.ofResult (m.update config.dialect r row.columns) with
  | some s => let _ ← Steps.execute (.ok s)
  | none => pure ()

/-- The record with the key that an insert has given back. -/
def withKey (r : Record) (rows : List Row) : Option Record :=
  match rows.head?.bind fun row => row.value? 0, m.keys with
  | some key, field :: _ =>
    match setPath m.owner r field key with
    | .ok (.set r') => some r'
    | _ => none
  | _, _ => none

/-- A describe and one insert. -/
def insertSteps (r : Record) : Steps Record := do
  let columns ← Steps.describe (m.describe config.dialect)
  if m.generatedKey then
    let rows ← Steps.query (m.insert config.dialect r columns)
    Steps.given (withKey m r rows)
  else
    let _ ← Steps.execute (m.insert config.dialect r columns)
    return r

/-- The children that have been read, linked ones with the keys of their links. -/
def keyedSteps (rel : Relation τ) (read : List (Row × Record)) : Steps (List Record) :=
  match rel.kind with
  | .oneToMany => pure (read.map Prod.snd)
  | .manyToMany => do
    let cm ← Steps.ofResult (maps rel.child)
    Steps.ofResult (read.mapM fun e => linkKeyed rel (linkProperty rel.spec cm) e.1 e.2)

/-- The read of one relation of a record that has a key for it. -/
def readSteps (rel : Relation τ) (r : Record) : Steps Record :=
  match masterKey m rel.spec r with
  | none => pure r
  | some master => do
    let rows ← Steps.query (m.relationRead config.dialect rel.spec master)
    let cs ← Steps.mayGive (rows.map (mapped config rel.child))
    let cs' ← keyedSteps maps rel (rows.zip cs)
    return r.setSlot rel.slot (.many (some cs'))

/-- The reads of the relations of the stored record. -/
def storedSteps (row : Row) : Steps (Option Record) :=
  if m.relations.isEmpty then pure none
  else do
    let r ← Steps.mayGive (mapped config m.owner row)
    let r' ← Steps.each (readSteps config maps m) m.relations r
    return some r'

/-- The row is updated, and what is related to it read, if it is there; otherwise it is
    inserted. -/
def storeSteps (r : Record) : Steps (Option Record × Record) := do
  match ← probeSteps config m r with
  | some row =>
    updateSteps config m r row
    let old ← storedSteps config maps m row
    return (old, r)
  | none =>
    let r' ← insertSteps config m r
    return (none, r')

/-- The reload of the record from its row. -/
def reloadSteps (r : Record) : Steps Record := do
  match ← Steps.query (m.selectByKeys config.dialect .short (m.keyValues r)) with
  | [] => Steps.given none
  | row :: _ =>
    Steps.mayGive (RowMapper.filled m.owner r (RowMapper.plannedCells config m.owner row))

end

/-! ## Relations -/

section

variable (config : Config) (maps : τ → Result (TableMap τ))

/-- The delete of a child, if it is stored. -/
def deleteSteps (child : τ) (o : Record) : Steps Unit :=
  if isNew child o then pure ()
  else do
    let cm ← Steps.ofResult (maps child)
    let _ ← Steps.execute (cm.deleteByKeys config.dialect (cm.keyValues o))

/-- The save of the child in one place, if there is one. -/
def placeSteps (saving : Record → Steps Record) (slot i : Nat) (r : Record) : Steps Record :=
  match r.child? slot i with
  | some c => do return r.setChild slot i (← saving c)
  | none => pure r

/-- The deletes of children that are lost, the saves of those that have changed, and then the
    saves of those that are inserted. -/
def alignSteps (saving : Record → Steps Record) (rel : Relation τ) (cm : TableMap τ)
    (before : Option (List Record)) (r : Record) : Steps Record := do
  let children := (r.many? rel.slot).getD []
  let lost := lostChildren rel cm before children
  let changes := childChanges rel cm before children
  Steps.each (fun o _ => deleteSteps config maps rel.child o) lost ()
  let r₁ ← Steps.each (placeSteps saving rel.slot) (changes.updates.map Prod.fst) r
  Steps.each (placeSteps saving rel.slot) changes.insertions r₁

/-- The statements of a collection of children that is carried by a record with a key. -/
def childrenSteps (saving : τ → Record → Steps Record) (m : TableMap τ) (old : Option Record)
    (rel : Relation τ) (r : Record) : Steps Record :=
  match r.many? rel.slot, masterKey m rel.spec r with
  | some children, some master => do
    let cm ← Steps.ofResult (maps rel.child)
    let cs ← Steps.ofResult (children.mapM
      (attached rel.child (rel.spec.masterColumn (typeName m.owner)) master))
    alignSteps config maps (saving rel.child) rel cm (old.bind fun o => o.many? rel.slot)
      (r.setSlot rel.slot (.many (some cs)))
  | _, _ => pure r

/-- The statements of some keys. -/
def eachKey (statement : Value → Result Statement) (keys : List Value) : Steps Unit :=
  Steps.each (fun key _ => do let _ ← Steps.execute (statement key)) keys ()

/-- The deletes of links that are lost, and then the inserts of those that are gained. -/
def linkSteps (m : TableMap τ) (old : Option Record) (rel : Relation τ) (r : Record) :
    Steps Record :=
  match r.many? rel.slot, masterKey m rel.spec r with
  | some children, some master => do
    let cm ← Steps.ofResult (maps rel.child)
    let property := linkProperty rel.spec cm
    let before := storedLinkKeys rel.child property ((old.bind fun o => o.many? rel.slot).getD [])
    let now := linkKeysOf rel property children
    eachKey (m.linkDelete config.dialect rel.spec (typeName rel.child) master)
      (unlinkedKeys before now)
    eachKey (m.linkInsert config.dialect rel.spec (typeName rel.child) master)
      (linkedKeys before now)
    return r
  | _, _ => pure r

/-- The statements of one relation. -/
def relationSteps (saving : τ → Record → Steps Record) (m : TableMap τ) (old : Option Record)
    (rel : Relation τ) (r : Record) : Steps Record :=
  if rel.spec.readOnly then pure r
  else match rel.kind with
    | .oneToMany => childrenSteps config maps saving m old rel r
    | .manyToMany => linkSteps config maps m old rel r

/-- The statements of a save, with given ones for the children. -/
def saveSteps (saving : τ → Record → Steps Record) (t : τ) (r : Record) : Steps Record := do
  let m ← Steps.ofResult (maps t)
  let (old, r₁) ← storeSteps config maps m r
  let r₂ ← reloadSteps config m r₁
  Steps.each (relationSteps config maps saving m old) m.relations r₂

/-- The statements of a save that goes down some levels of children, and no further. -/
def saveLevelSteps : (levels : Nat) → τ → Record → Steps Record
  | 0 => saveSteps config maps fun _ _ => Steps.never
  | levels + 1 => saveSteps config maps (saveLevelSteps levels)

end

/-! ## Runs that follow the steps -/

variable [DecidableEq τ] {env : Env δ} {maps : τ → Result (TableMap τ)} {w w' : World τ δ}
  {x : σ} {r : Record} {m cm : TableMap τ} {rel : Relation τ} {old : Option Record}

theorem storedRow_follows : Follows env maps (probeSteps env.config m r) (fun stored _ => stored)
    (storedRow m) w r := by
  unfold probeSteps storedRow
  refine Follows.focus ?_
  split
  · exact .pure rfl
  · refine Follows.config (Follows.query_bind _ ?_)
    intro rows w'
    exact .pure rfl

theorem writeColumns_follows {columns : List String} : Follows env maps
    (do
      match ← Steps.ofResult (m.update env.config.dialect r columns) with
      | some s => let _ ← Steps.execute (.ok s)
      | none => pure ())
    (fun _ _ => ()) (writeColumns m r columns : Session τ δ σ Unit) w x := by
  refine Follows.config (Follows.lift_bind _ ?_)
  intro update
  cases update with
  | none => exact .pure rfl
  | some s =>
    refine Follows.execute_bind (.ok s) ?_
    intro n w'
    exact .pure rfl

theorem updateRow_follows {row : Row} : Follows env maps (updateSteps env.config m r row)
    (fun _ _ => ()) (updateRow m row) w r := by
  refine Follows.focus (Follows.config ?_)
  unfold updateSteps notStale
  cases hs : env.config.staleColumn with
  | none => exact Follows.lift_bind (.ok ()) fun _ => writeColumns_follows
  | some column => exact Follows.lift_bind _ fun _ => writeColumns_follows

theorem acceptKey_follows {rows : List Row} {key : Value}
    (hkey : (rows.head?.bind fun row => row.value? 0) = some key) :
    Follows env maps (.given (withKey m r rows)) (fun _ r' => r') (acceptKey m key) w r := by
  unfold acceptKey
  cases hk : m.keys with
  | nil => exact .silent rfl rfl id fun _ => ⟨rfl, by simp only [withKey, hkey, hk]; rfl⟩
  | cons field keys =>
    refine Follows.focus ?_
    rcases hset : setPath m.owner r field key with e | r' | segment
    all_goals exact .silent rfl rfl id fun _ => ⟨rfl, by simp only [withKey, hkey, hk, hset]; rfl⟩

theorem insertRow_follows : Follows env maps (insertSteps env.config m r) (fun _ r' => r')
    (insertRow m) w r := by
  unfold insertSteps insertRow
  refine Follows.config (Follows.describe_bind _ ?_)
  intro columns w'
  refine Follows.focus ?_
  cases m.generatedKey with
  | true =>
    simp only [if_true, scalar, bind_assoc, pure_bind]
    refine Follows.query_bind _ ?_
    intro rows w'
    cases hkey : rows.head?.bind fun row => row.value? 0 with
    | none => exact .silent rfl rfl id fun _ => ⟨rfl, by simp only [withKey, hkey]; rfl⟩
    | some key => exact acceptKey_follows hkey
  | false =>
    simp only [Bool.false_eq_true, if_false]
    refine Follows.execute_bind _ ?_
    intro n w'
    exact .pure rfl

/-! ## Reading relations -/

omit [DecidableEq τ] in
theorem Still.withLinkKeys (property : String) (read : List (Row × Record)) :
    Still (read.mapM fun e => withLinkKey rel property e.1 e.2 : Session τ δ σ _) := by
  intro env w x
  obtain ⟨es, hrun⟩ := withLinkKeys_run env rel property read w x
  rw [hrun]

theorem withLinkKeys_follows {property : String} (read : List (Row × Record)) : Follows env maps
    (.ofResult (read.mapM fun e => linkKeyed rel property e.1 e.2)) (fun cs _ => cs)
    (read.mapM fun e => withLinkKey rel property e.1 e.2 : Session τ δ σ _) w x := by
  obtain ⟨es, hrun⟩ := withLinkKeys_run env rel property read w x
  refine .of_run hrun rfl rfl rfl ⟨rfl, ?_⟩
  cases read.mapM fun e => linkKeyed rel property e.1 e.2 <;> rfl

theorem loadRelation_follows : Follows env maps (readSteps env.config maps m rel r)
    (fun _ r' => r') (loadRelation m rel) w r := by
  unfold readSteps loadRelation readChildren
  rw [bind_assoc]
  refine Follows.masterValue ?_
  intro w₁
  cases masterKey m rel.spec r with
  | none => exact .pure rfl
  | some master =>
    simp only [bind_assoc, pure_bind]
    refine Follows.config (Follows.query_bind _ ?_)
    intro rows w₂
    refine (Follows.mapRows rel.child rows).still (.mapRows _ _) ?_
    intro cs w₃
    unfold keyedSteps
    cases rel.kind with
    | oneToMany =>
      rw [pure_bind]
      exact .silent rfl rfl id fun _ => ⟨rfl, rfl⟩
    | manyToMany =>
      rw [bind_assoc]
      refine Follows.tableMap_bind ?_
      intro cm w₄
      refine (withLinkKeys_follows _).still (.withLinkKeys _ _) ?_
      intro cs' w₅
      exact .silent rfl rfl id fun _ => ⟨rfl, rfl⟩

theorem loadRelationsOf_follows :
    Follows env maps (Steps.each (readSteps env.config maps m) m.relations r) (fun _ r' => r')
      (loadRelationsOf m) w r :=
  .forM_all (v := fun r => r) fun _ _ _ => loadRelation_follows

theorem storedRecord_follows {row : Row} : Follows env maps (storedSteps env.config maps m row)
    (fun old _ => old) (storedRecord m row : Session τ δ σ _) w x := by
  unfold storedSteps storedRecord
  split
  · exact .pure rfl
  · refine (Follows.mapRow m.owner row).bind ?_
    intro r₀ w₁ x₁ _
    refine (Follows.onOther loadRelationsOf_follows).bind ?_
    intro a w₂ x₂ _
    exact .pure rfl

theorem writeRow_follows : Follows env maps (storeSteps env.config maps m r)
    (fun old r' => (old, r')) (writeRow m) w r := by
  refine storedRow_follows.bind ?_
  intro stored w₁ r₁ hstored
  obtain ⟨rfl, -⟩ := storedRow_ok.1 hstored
  cases stored with
  | none =>
    refine insertRow_follows.bind ?_
    intro _ w₂ r₂ _
    exact .pure rfl
  | some row =>
    refine updateRow_follows.bind ?_
    intro _ w₂ r₂ hupdate
    obtain ⟨rfl, -⟩ := updateRow_ok hupdate
    rw [← bind_pure (storedRecord m row)]
    refine storedRecord_follows.bind ?_
    intro old w₃ r₃ hread
    obtain ⟨rfl, -⟩ := storedRecord_ok hread
    exact .pure rfl

theorem reloadOf_follows : Follows env maps (reloadSteps env.config m r) (fun _ r' => r')
    (reloadOf m) w r := by
  refine Follows.focus (Follows.config (Follows.query_bind _ ?_))
  intro rows w'
  cases rows with
  | nil => exact .silent rfl rfl id fun _ => ⟨rfl, rfl⟩
  | cons row rows => exact .mapInto m.owner row

/-! ## Children -/

theorem Still.deleteChild (child : τ) (o : Record) :
    Still (deleteChild child o : Session τ δ σ Unit) := by
  unfold Session.deleteChild Session.delete
  split
  · exact .pure ()
  · refine .bind (.bind (.tableMap child) ?_) fun _ => .pure ()
    intro cm
    exact .bind .config fun _ => .bind (.lift _) .execute

theorem deleteChild_follows {child : τ} {o : Record} :
    Follows env maps (deleteSteps env.config maps child o) (fun _ _ => ())
      (deleteChild child o : Session τ δ σ Unit) w x := by
  unfold deleteSteps deleteChild delete
  split
  · exact .pure rfl
  · simp only [bind_assoc]
    refine Follows.tableMap_bind ?_
    intro cm w₁
    refine Follows.config (Follows.execute_bind _ ?_)
    intro n w₂
    exact .pure rfl

theorem onChild_follows {saving : Record → Steps Record} {s : Session τ δ Record Unit}
    {slot i : Nat}
    (h : ∀ c, r.child? slot i = some c → Follows env maps (saving c) (fun _ c' => c') s w c) :
    Follows env maps (placeSteps saving slot i r) (fun _ r' => r') (onChild slot i s) w r := by
  unfold placeSteps
  cases hc : r.child? slot i with
  | none =>
    have hrun : onChild slot i s env w r = ⟨.ok (), w, r⟩ := by simp only [onChild, hc]
    exact .of_run hrun rfl rfl rfl ⟨rfl, rfl⟩
  | some c =>
    intro hw
    obtain ⟨hk, xs, hreq, hans, hfail, hP⟩ := h c hc hw
    have hrun : onChild slot i s env w r = ⟨(s env w c).result, (s env w c).world,
      r.setChild slot i (s env w c).focus⟩ := by simp only [onChild, hc]
    rw [hrun]
    refine ⟨hk, xs, hreq, hans, hfail, ?_⟩
    unfold Ran.view at hP ⊢
    cases hres : (s env w c).result with
    | error e => exact .inl ⟨by rwa [hres] at hP, rfl⟩
    | ok a => exact .inr ⟨xs, [], _, by rwa [hres] at hP, ⟨rfl, rfl⟩, (List.append_nil xs).symm⟩

/-- The records of a collection are less deep than `n`. -/
def ChildrenBelow (n slot : Nat) (r : Record) : Prop :=
  ∀ c ∈ (r.many? slot).getD [], c.depth < n

theorem ChildrenBelow.child {n slot i : Nat} {c : Record} (h : ChildrenBelow n slot r)
    (hc : r.child? slot i = some c) : c.depth < n := by
  obtain ⟨cs, hcs, hi⟩ := Option.bind_eq_some_iff.1 hc
  refine h c ?_
  rw [hcs]
  exact List.mem_of_getElem? hi

theorem ChildrenBelow.setChild {n slot i : Nat} {c : Record} (h : ChildrenBelow n slot r)
    (hc : c.depth < n) : ChildrenBelow n slot (r.setChild slot i c) := by
  cases hcs : r.many? slot with
  | none => rwa [Record.setChild, hcs]
  | some cs =>
    intro c' hc'
    rw [Record.setChild_of_many hcs, Record.many_setSlot hcs] at hc'
    rcases List.mem_or_eq_of_mem_set hc' with hmem | rfl
    · exact h c' (by rwa [hcs])
    · exact hc

variable {n : Nat} {saveChild : τ → Session τ δ Record Unit} {saving : τ → Record → Steps Record}

theorem SavesBelow.onChild (hs : SavesBelow env n saveChild) {slot i : Nat} {t : τ} {r' : Record}
    (h : w.catalog.Sound env.config ∧ ChildrenBelow n slot r)
    (hrun : onChild slot i (saveChild t) env w r = ⟨.ok (), w', r'⟩) :
    w'.catalog.Sound env.config ∧ ChildrenBelow n slot r' := by
  refine ⟨((Grows.onChild (hs.1 t) slot i).later hrun).sound h.1, ?_⟩
  unfold Session.onChild at hrun
  cases hc : r.child? slot i with
  | none =>
    rw [hc, Ran.mk.injEq] at hrun
    obtain ⟨-, -, rfl⟩ := hrun
    exact h.2
  | some c =>
    rcases hsave : saveChild t env w c with ⟨result, w₁, c'⟩
    simp only [hc, hsave, Ran.mk.injEq] at hrun
    obtain ⟨rfl, -, rfl⟩ := hrun
    exact h.2.setChild (hs.2 t w c w₁ c' (h.2.child hc) h.1 hsave).2

/-- The children that are less deep than `n` are saved by steps of their own. -/
def ChildrenFollow (env : Env δ) (maps : τ → Result (TableMap τ)) (n : Nat)
    (saving : τ → Record → Steps Record) (saveChild : τ → Session τ δ Record Unit) : Prop :=
  SavesBelow env n saveChild ∧ ∀ t w c, c.depth < n →
    Follows env maps (saving t c) (fun _ c' => c') (saveChild t) w c

theorem ChildrenFollow.saveAll (hs : ChildrenFollow env maps n saving saveChild)
    {places : List Nat} (h : w.catalog.Sound env.config ∧ ChildrenBelow n rel.slot r) :
    Follows env maps (Steps.each (placeSteps (saving rel.child) rel.slot) places r)
      (fun _ r' => r') (saveAll saveChild rel places) w r := by
  refine Follows.forM (I := fun w r => w.catalog.Sound env.config ∧ ChildrenBelow n rel.slot r)
    (v := fun r => r) h ?_ ?_
  · intro i _ w r h
    refine onChild_follows ?_
    intro c hc
    exact hs.2 rel.child w c (h.2.child hc)
  · intro i _ w r w' r' h hrun
    exact hs.1.onChild h hrun

theorem deleteAll_follows {child : τ} {os : List Record} : Follows env maps
    (Steps.each (fun o _ => deleteSteps env.config maps child o) os ()) (fun _ _ => ())
    (os.forM (deleteChild child) : Session τ δ σ Unit) w x :=
  .forM_all (v := fun _ => ()) fun _ _ _ => deleteChild_follows

theorem ChildrenFollow.alignChildren (hs : ChildrenFollow env maps n saving saveChild)
    {before : Option (List Record)} (hr : ChildrenBelow n rel.slot r) :
    Follows env maps (alignSteps env.config maps (saving rel.child) rel cm before r)
      (fun _ r' => r') (alignChildren saveChild m rel cm before) w r := by
  unfold alignSteps Session.alignChildren
  refine Follows.focus (deleteAll_follows.still (.forM (.deleteChild rel.child) _) ?_)
  intro _ w₁ hw
  refine (hs.saveAll ⟨hw.sound, hr⟩).bind ?_ hw
  intro _ w₂ r₂ hrun
  -- The second loop may start because the first leaves the children less deep than `n`.
  have h₂ : w₂.catalog.Sound env.config ∧ ChildrenBelow n rel.slot r₂ :=
    forM_keeps (fun _ _ _ _ _ h hrun => hs.1.onChild h hrun) ⟨hw.sound, hr⟩ hrun
  rw [← bind_pure (Steps.each _ _ r₂)]
  refine (hs.saveAll h₂).bind ?_
  intro _ w₃ r₃ _
  exact .emit rfl

theorem ChildrenFollow.synchronizeChildren (hs : ChildrenFollow env maps n saving saveChild)
    (hτ : Model.Sound τ) (hr : r.depth ≤ n) :
    Follows env maps (childrenSteps env.config maps saving m old rel r) (fun _ r' => r')
      (synchronizeChildren saveChild m rel old) w r := by
  unfold childrenSteps Session.synchronizeChildren
  refine Follows.focus ?_
  cases hc : r.many? rel.slot with
  | none => exact .pure rfl
  | some children =>
    refine Follows.masterValue ?_
    intro w₁
    cases hk : masterKey m rel.spec r with
    | none => exact .pure rfl
    | some master =>
      refine Follows.tableMap_bind ?_
      intro cm w₂
      obtain ⟨es, r', hrun, hr'⟩ := attachAll_run env
        (rel.spec.masterColumn (typeName m.owner)) master w₂ hc
      cases ha : children.mapM
          (attached rel.child (rel.spec.masterColumn (typeName m.owner)) master) with
      | error e =>
        rw [ha] at hrun
        exact Follows.stop hrun rfl rfl rfl (.inl ⟨⟨rfl, rfl⟩, rfl⟩)
      | ok cs =>
        rw [ha, hr' cs ha] at hrun
        rw [Steps.ofResult_ok, pure_bind]
        refine Follows.skip hrun rfl rfl rfl (hs.alignChildren ?_)
        intro c hmem
        rw [Record.many_setSlot hc] at hmem
        have hal := aligned_eq_some.2 ⟨children, hc, master, hk, ha⟩
        exact Nat.lt_of_lt_of_le (depth_aligned hτ hal c hmem) hr

/-! ## Links -/

theorem executeEach_follows {statement : Value → Result Statement} {keys : List Value} :
    Follows env maps (eachKey statement keys) (fun _ _ => ())
      (executeEach statement keys : Session τ δ σ Unit) w x := by
  refine Follows.forM_all (v := fun _ => ()) ?_
  intro key w x
  refine Follows.execute_bind _ ?_
  intro n w'
  exact .pure rfl

omit [Model τ] [DecidableEq τ] in
theorem Still.executeEach (statement : Value → Result Statement) (keys : List Value) :
    Still (executeEach statement keys : Session τ δ σ Unit) := by
  refine .forM ?_ keys
  intro key
  exact .bind (.lift _) fun _ => .bind (.execute _) fun _ => .pure ()

theorem synchronizeLinks_follows : Follows env maps (linkSteps env.config maps m old rel r)
    (fun _ r' => r') (synchronizeLinks m rel old) w r := by
  unfold linkSteps synchronizeLinks
  refine Follows.focus ?_
  cases hc : r.many? rel.slot with
  | none => exact .pure rfl
  | some children =>
    refine Follows.masterValue ?_
    intro w₁
    cases masterKey m rel.spec r with
    | none => exact .pure rfl
    | some master =>
      refine Follows.tableMap_bind ?_
      intro cm w₂
      obtain ⟨ds, hrun⟩ := linkKeys_run env rel (linkProperty rel.spec cm) children w₂ r
      refine Follows.skip hrun (by simp) (by simp) (by simp) (Follows.config ?_)
      have hkeys : (children.map (linkKeyOf rel (linkProperty rel.spec cm))).filterMap id =
          linkKeysOf rel (linkProperty rel.spec cm) children := by
        rw [List.filterMap_map, Function.id_comp]
        rfl
      rw [hkeys]
      refine executeEach_follows.still (.executeEach _ _) ?_
      intro _ w₃
      refine executeEach_follows.still (.executeEach _ _) ?_
      intro _ w₄
      exact .emit rfl

/-! ## Saves -/

theorem ChildrenFollow.synchronize (hs : ChildrenFollow env maps n saving saveChild)
    (hτ : Model.Sound τ) (hr : r.depth ≤ n) :
    Follows env maps (relationSteps env.config maps saving m old rel r) (fun _ r' => r')
      (synchronize saveChild m rel old) w r := by
  unfold relationSteps Session.synchronize
  split
  · exact .pure rfl
  · cases rel.kind with
    | oneToMany => exact hs.synchronizeChildren hτ hr
    | manyToMany => exact synchronizeLinks_follows

theorem ChildrenFollow.saveUsing (hs : ChildrenFollow env maps n saving saveChild)
    (hτ : Model.Sound τ) {t : τ} (hr : r.depth ≤ n) :
    Follows env maps (saveSteps env.config maps saving t r) (fun _ r' => r')
      (saveUsing saveChild t) w r := by
  refine Follows.tableMap_bind ?_
  intro m w₁
  refine writeRow_follows.bind ?_
  intro old w₂ r₁ hwrite hw₂
  refine reloadOf_follows.bind ?_ hw₂
  intro _ w₃ r₂ hreload hw₃
  have hwritten := (writeRow_written hτ hwrite).trans (reloadOf_written hτ hw₂.sound hreload)
  refine Follows.forM (I := fun w r => w.catalog.Sound env.config ∧ r.depth ≤ n)
    (v := fun r => r) ⟨hw₃.sound, Nat.le_trans hwritten.depth hr⟩ ?_ ?_ hw₃
  · intro rel _ w r h
    exact hs.synchronize hτ h.2
  · intro rel _ w r w' r' h hrun
    exact ⟨((Grows.synchronize hs.1.1 m rel old).later hrun).sound h.1,
      (hs.1.synchronize hτ h.1 h.2 hrun).2.1⟩

theorem savesBelow_saveLevels (hτ : Model.Sound τ) (n : Nat) :
    SavesBelow env (n + 1) (saveLevels n : τ → Session τ δ Record Unit) := by
  refine ⟨fun t => .saveLevels n t, ?_⟩
  intro t w r w' r' hlt hw h
  obtain ⟨hsaved, hd⟩ := saveLevels_saved hτ hw (Nat.lt_succ_iff.1 hlt) h
  exact ⟨hsaved, Nat.lt_succ_iff.2 hd⟩

/-- A save sends what its steps allow, whatever is answered. -/
theorem saveLevels_follows (hτ : Model.Sound τ) {t : τ} (hr : r.depth ≤ n) :
    Follows env maps (saveLevelSteps env.config maps n t r) (fun _ r' => r')
      (saveLevels n t) w r := by
  induction n generalizing t r w with
  | zero =>
    -- No record is less deep than 0, so that no child is ever saved.
    have hs : ChildrenFollow env maps 0 (fun _ _ => Steps.never)
        (fun _ : τ => (pure () : Session τ δ Record Unit)) :=
      ⟨⟨fun _ => .pure (), fun _ _ _ _ _ hlt => absurd hlt (Nat.not_lt_zero _)⟩,
        fun _ _ _ hlt => absurd hlt (Nat.not_lt_zero _)⟩
    exact hs.saveUsing hτ hr
  | succ n ih =>
    have hs : ChildrenFollow env maps (n + 1) (saveLevelSteps env.config maps n)
        (saveLevels n : τ → Session τ δ Record Unit) :=
      ⟨savesBelow_saveLevels hτ n, fun t w c hlt => ih (Nat.lt_succ_iff.1 hlt)⟩
    exact hs.saveUsing hτ hr

end Session

end RecordGraph
