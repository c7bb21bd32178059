/-
  What sessions do to the record in focus.

  `Keeps R s`: whatever comes of the session, its record before and after are related by `R`.
  Most parts of a save leave the record as it is (`Still`).

  `prepare` and `openRelation` are what a save does between one record and the next: the
  first writes the row of the record and reads it back, the second does all that a relation
  needs before its children are saved and says which these are.  A save is made of them
  (`saveUsing_eq`, `synchronize_eq`), and both do no more than edit the record, also when
  they fail (`prepare_keeps`, `openRelation_edits`).
-/
import RecordGraph.Proofs.Record.Shape
import RecordGraph.Proofs.Session.SaveSteps

namespace RecordGraph

variable {τ δ σ ρ α β ι : Type}

namespace Session

/-! ## Sessions that leave the record as it is -/

theorem Still.focus : Still (Session.focus : Session τ δ σ σ) := fun _ _ _ => rfl

theorem Still.emit (e : Event) : Still (Session.emit e : Session τ δ σ Unit) := fun _ _ _ => rfl

theorem Still.fail (e : Error) : Still (Session.fail e : Session τ δ σ α) := fun _ _ _ => rfl

theorem Still.onOther (other : ρ) (s : Session τ δ ρ α) :
    Still (Session.onOther other s : Session τ δ σ _) := fun _ _ _ => rfl

variable [Model τ]

theorem Still.masterValue (m : TableMap τ) (spec : RelationSpec) :
    Still (Session.masterValue m spec : Session τ δ Record _) := by
  intro env w r
  obtain ⟨ds, hrun⟩ := masterValue_run env m spec w r
  rw [hrun]

theorem Still.storedRow (m : TableMap τ) : Still (Session.storedRow m : Session τ δ Record _) := by
  refine .bind .focus fun r => ?_
  split
  · exact .pure _
  · exact .bind .config fun _ => .bind (.lift _) fun _ => .bind (.query _) fun _ => .pure _

theorem Still.writeColumns (m : TableMap τ) (r : Record) (columns : List String) :
    Still (Session.writeColumns m r columns : Session τ δ σ Unit) := by
  refine .bind .config fun _ => .bind (.lift _) fun s => ?_
  split
  · exact .bind (.execute _) fun _ => .pure _
  · exact .pure _

theorem Still.updateRow (m : TableMap τ) (row : Row) :
    Still (Session.updateRow m row : Session τ δ Record Unit) := by
  refine .bind .focus fun r => .bind .config fun c => ?_
  dsimp only
  split
  · exact .bind (.lift _) fun _ => .writeColumns m r _
  · exact .writeColumns m r _

variable [DecidableEq τ]

theorem Still.storedRecord (m : TableMap τ) (row : Row) :
    Still (Session.storedRecord m row : Session τ δ σ _) := by
  unfold Session.storedRecord
  split
  · exact .pure _
  · exact .bind (.bind (.onOther _ _) fun _ => .pure _) fun r =>
      .bind (.onOther r _) fun _ => .pure _

theorem Still.synchronizeLinks (m : TableMap τ) (rel : Relation τ) (old : Option Record) :
    Still (Session.synchronizeLinks m rel old : Session τ δ Record Unit) := by
  refine .bind .focus fun r => ?_
  split
  · exact .pure _
  · refine .bind (.masterValue m rel.spec) fun master => ?_
    split
    · exact .pure _
    · refine .bind (.tableMap _) fun childMap => .bind (fun env w x => ?_) fun _ => ?_
      · obtain ⟨ds, hrun⟩ := linkKeys_run env rel (linkProperty rel.spec childMap) _ w x
        rw [hrun]
      · exact .bind .config fun _ => .bind (.executeEach _ _) fun _ =>
          .bind (.executeEach _ _) fun _ => .emit _

/-! ## Sessions that keep a relation -/

/-- The relation holds of a record and itself, and from one end of a chain to the other. -/
structure Chained (R : Record → Record → Prop) : Prop where
  refl : ∀ r, R r r
  trans : ∀ {r r' r''}, R r r' → R r' r'' → R r r''

/-- Writing fields of records of the type keeps the relation. -/
structure FieldWise (t : τ) (R : Record → Record → Prop) : Prop extends Chained R where
  path : ∀ {r r' path v}, setPath t r path v = .ok (.set r') → R r r'
  fill : ∀ (m : RowMapper τ) r cells, m.owner = t → R r (m.fill r cells).record

omit [DecidableEq τ] in
theorem chained_edited (t : τ) : Chained (Edited t) := ⟨fun _ => .refl, .trans⟩

omit [DecidableEq τ] in
theorem fieldWise_edited (t : τ) : FieldWise t (Edited t) where
  toChained := chained_edited t
  path := setPath_edited
  fill m r cells ho := ho ▸ m.fill_edited r cells

omit [DecidableEq τ] in
theorem fieldWise_written (hτ : Model.Sound τ) (t : τ) : FieldWise t (Written t) where
  refl _ := .refl
  trans := .trans
  path := setPath_written hτ
  fill m r cells ho := ho ▸ m.fill_written hτ r cells

/-- Whatever comes of the session, its record before and after are related. -/
def Keeps (R : Record → Record → Prop) (s : Session τ δ Record α) : Prop :=
  ∀ (env : Env δ) (w : World τ δ) (r : Record), w.catalog.Sound env.config →
    R r (s env w r).focus

variable {t : τ} {m : TableMap τ} {rel : Relation τ} {s : Session τ δ Record α}
  {R Q : Record → Record → Prop}

theorem Keeps.of_still (hR : Chained R) (h : Still s) : Keeps R s := by
  intro env w r _
  rw [h env w r]
  exact hR.refl r

theorem Keeps.bind (hR : Chained R) {next : α → Session τ δ Record β} (hs : Keeps R s)
    (hg : Grows s) (hnext : ∀ a, Keeps R (next a)) : Keeps R (s >>= next) := by
  intro env w r hw
  have hr := hs env w r hw
  have hl := hg.world env w r
  rw [bind_run]
  rcases hrun : s env w r with ⟨e | a, w', r'⟩
  · rwa [hrun] at hr
  · rw [hrun] at hr hl
    exact hR.trans hr (hnext a env w' r' (hl.sound hw))

/-- After a session that leaves the record as it is. -/
theorem Keeps.after (hR : Chained R) {next : α → Session τ δ Record β} (hs : Still s)
    (hg : Grows s) (hnext : ∀ a, Keeps R (next a)) : Keeps R (s >>= next) :=
  .bind hR (.of_still hR hs) hg hnext

theorem Keeps.forM (hR : Chained R) {f : ι → Session τ δ Record Unit} {is : List ι}
    (hf : ∀ i ∈ is, Keeps R (f i)) (hg : ∀ i, Grows (f i)) : Keeps R (is.forM f) := by
  induction is with
  | nil => exact .of_still hR (.pure ())
  | cons i is ih =>
    exact .bind hR (hf i (by simp)) (hg i) fun _ => ih fun j hj => hf j (by simp [hj])

theorem Keeps.onChild (hR : Chained R) {slot i : Nat} {s : Session τ δ Record Unit}
    (hchild : ∀ {r c c'}, r.child? slot i = some c → Q c c' → R r (r.setChild slot i c'))
    (hs : Keeps Q s) : Keeps R (Session.onChild slot i s) := by
  intro env w r hw
  unfold Session.onChild
  cases hc : r.child? slot i with
  | none => exact hR.refl r
  | some c => exact hchild hc (hs env w c hw)

theorem mapInto_keeps (hR : FieldWise t R) (row : Row) :
    Keeps R (mapInto t row : Session τ δ Record Unit) := by
  intro env w r hw
  have hm := hw.mapper t
  rw [mapInto_run, hm.mapInto_eq]
  exact hR.fill _ r _ (hm.mapInto r row).owner

theorem reloadOf_keeps (hR : FieldWise m.owner R) :
    Keeps R (reloadOf m : Session τ δ Record Unit) := by
  refine .after hR.toChained .focus .focus fun r => .after hR.toChained .config .config fun _ =>
    .after hR.toChained (.lift _) (.lift _) fun s =>
    .after hR.toChained (.query s) (.query s) fun rows => ?_
  split
  · exact .of_still hR.toChained (.bind .focus fun _ => .fail _)
  · exact mapInto_keeps hR _

theorem acceptKey_keeps (hR : FieldWise m.owner R) (key : Value) :
    Keeps R (acceptKey m key : Session τ δ Record Unit) := by
  intro env w r _
  unfold acceptKey
  cases m.keys with
  | nil => exact hR.refl r
  | cons field keys =>
    simp only [focus_bind, lift_bind]
    rcases hset : setPath m.owner r field key with e | r' | segment
    · exact hR.refl r
    · exact hR.path hset
    · exact hR.refl r

theorem insertRow_keeps (hR : FieldWise m.owner R) :
    Keeps R (insertRow m : Session τ δ Record Unit) := by
  have hch := hR.toChained
  refine .after hch .config .config fun _ => .after hch (.lift _) (.lift _) fun _ =>
    .after hch (.describe _) (.describe _) fun _ => .after hch .focus .focus fun _ =>
    .after hch (.lift _) (.lift _) fun s => ?_
  split
  · have hstill : Still (scalar s : Session τ δ Record _) := .bind (.query s) fun _ => .pure _
    have hgrows : Grows (scalar s : Session τ δ Record _) := .bind (.query s) fun _ => .pure _
    refine .after hch hstill hgrows fun key => ?_
    split
    · exact acceptKey_keeps hR _
    · exact .of_still hch (.fail _)
  · exact .of_still hch (.bind (.execute _) fun _ => .pure _)

theorem writeRow_keeps (hR : FieldWise m.owner R) :
    Keeps R (writeRow m : Session τ δ Record _) := by
  refine .after hR.toChained (.storedRow m) (.storedRow m) fun stored => ?_
  split
  · exact .of_still hR.toChained (.bind (.updateRow m _) fun _ => .storedRecord m _)
  · exact .bind hR.toChained (insertRow_keeps hR) (.insertRow m) fun _ =>
      .of_still hR.toChained (.pure _)

/-! ## Pointing children at their record -/

omit [DecidableEq τ] in
theorem attached_edited {child : τ} {column : String} {master : Value} {c c' : Record}
    (h : attached child column master c = .ok c') : Edited child c c' := by
  unfold attached at h
  rcases hf : setField child c column master with e | _ | c₁
  · rw [hf] at h
    cases h
  · rw [hf] at h
    cases hx : FieldName.stem? column with
    | none =>
      simp only [hx] at h
      cases h
      exact .refl
    | some x =>
      simp only [hx] at h
      rcases hp : setPath child c (FieldName.keyPath x) master with e | c₁ | segment
      · rw [hp] at h
        cases h
      · rw [hp] at h
        cases h
        exact setPath_edited hp
      · rw [hp] at h
        cases h
        exact .refl
  · rw [hf] at h
    cases h
    exact .field hf

theorem attach_edits (child : τ) (column : String) (master : Value) :
    Keeps (Edited child) (attach child column master : Session τ δ Record Unit) := by
  intro env w c _
  obtain ⟨es, hrun⟩ := attach_run env child column master w c
  rw [hrun]
  cases ha : attached child column master c with
  | error e => exact .refl
  | ok c' => exact attached_edited ha

/-- Editing a child in its place keeps the relation. -/
def ChildWise (rel : Relation τ) (R : Record → Record → Prop) : Prop :=
  ∀ {i : Nat} {r c c' : Record}, r.child? rel.slot i = some c → Edited rel.child c c' →
    R r (r.setChild rel.slot i c')

theorem attachAll_keeps (hR : Chained R) (hrel : ChildWise rel R) (column : String)
    (master : Value) (count : Nat) :
    Keeps R (attachAll rel column master count : Session τ δ Record Unit) :=
  .forM hR (fun _ _ => .onChild hR hrel (attach_edits rel.child column master))
    fun _ => .onChild (.attach _ _ _) _ _

/-! ## A save between one record and the next -/

/-- Writes the row of the record in focus and reads it back.  The answer is the map of the
    record, and the record as it was stored before. -/
def prepare (t : τ) : Session τ δ Record (TableMap τ × Option Record) := do
  let m ← tableMap t
  let old ← writeRow m
  reloadOf m
  return (m, old)

/-- Points the children of the record in focus at it and deletes the stored ones without a
    new one.  The answer is the places of those to be saved, and what is logged then. -/
def openChildren (m : TableMap τ) (rel : Relation τ) (old : Option Record) :
    Session τ δ Record (List Nat × List Event) := do
  match (← focus).many? rel.slot with
  | none => return ([], [])
  | some children =>
    match ← masterValue m rel.spec with
    | none => return ([], [])
    | some master =>
      let childMap ← tableMap rel.child
      attachAll rel (rel.spec.masterColumn (typeName m.owner)) master children.length
      let new := ((← focus).many? rel.slot).getD []
      let before := old.bind fun r => r.many? rel.slot
      let changes := childChanges rel childMap before new
      (lostChildren rel childMap before new).forM (deleteChild rel.child)
      return (savedPlaces rel childMap before new,
        [.childrenSynchronized (typeName m.owner) rel.spec.property changes.deletions.length
          changes.updates.length changes.insertions.length])

/-- Does what a relation needs before its children are saved.  Only the children of a
    collection that is written are. -/
def openRelation (m : TableMap τ) (rel : Relation τ) (old : Option Record) :
    Session τ δ Record (List Nat × List Event) :=
  if rel.spec.readOnly then pure ([], [])
  else match rel.kind with
    | .oneToMany => openChildren m rel old
    | .manyToMany => do
      synchronizeLinks m rel old
      return ([], [])

theorem saveUsing_eq (saveChild : τ → Session τ δ Record Unit) (t : τ) :
    saveUsing saveChild t = (do
      let (m, old) ← prepare t
      m.relations.forM fun rel => synchronize saveChild m rel old) := by
  simp only [saveUsing, prepare, bind_assoc, pure_bind]

/-- A relation is opened, its children are saved, and what was done is logged. -/
theorem synchronize_eq (saveChild : τ → Session τ δ Record Unit) (m : TableMap τ)
    (rel : Relation τ) (old : Option Record) :
    synchronize saveChild m rel old = (do
      let (places, es) ← openRelation m rel old
      saveAll saveChild rel places
      es.forM emit) := by
  unfold synchronize openRelation
  split
  · rfl
  cases rel.kind with
  | manyToMany =>
    simp only [bind_assoc, pure_bind]
    change synchronizeLinks m rel old = synchronizeLinks m rel old >>= pure
    rw [bind_pure]
  | oneToMany =>
    simp only [synchronizeChildren, openChildren, bind_assoc]
    congr 1
    funext r
    cases r.many? rel.slot with
    | none => rfl
    | some children =>
      simp only [bind_assoc]
      congr 1
      funext master
      cases master with
      | none => rfl
      | some master =>
        simp only [alignChildren, saveAll, savedPlaces, lostChildren, bind_assoc, pure_bind,
          List.forM_eq_forM, List.forM_append, List.forM_cons, List.forM_nil, bind_pure_unit]

theorem Grows.prepare (t : τ) : Grows (prepare t : Session τ δ Record _) :=
  .bind (.tableMap t) fun _ => .bind (.writeRow _) fun _ => .bind (.reloadOf _) fun _ => .pure _

theorem Grows.openRelation (m : TableMap τ) (rel : Relation τ) (old : Option Record) :
    Grows (openRelation m rel old : Session τ δ Record _) := by
  unfold Session.openRelation
  split
  · exact .pure _
  · split
    · refine .bind .focus fun r => ?_
      split
      · exact .pure _
      · refine .bind (.masterValue m rel.spec) fun master => ?_
        split
        · exact .pure _
        · exact .bind (.tableMap _) fun _ => .bind (.attachAll _ _ _ _) fun _ =>
            .bind .focus fun _ => .bind (.forM (fun _ => .deleteChild _ _) _) fun _ => .pure _
    · exact .bind (.synchronizeLinks m rel old) fun _ => .pure _

theorem prepare_keeps (hR : FieldWise t R) : Keeps R (prepare t : Session τ δ Record _) := by
  intro env w r hw
  unfold prepare
  rw [bind_run, tableMap_run]
  rcases hm : w.catalog.tableMap env.config t with e | ⟨m, c⟩
  · exact hR.refl r
  · obtain ⟨hof, hc⟩ := hw.tableMap hm
    have hRm : FieldWise m.owner R := hof.owner.symm ▸ hR
    have hrest : Keeps R (do
        let old ← writeRow m
        reloadOf m
        return (m, old) : Session τ δ Record (TableMap τ × Option Record)) :=
      .bind hR.toChained (writeRow_keeps hRm) (.writeRow m) fun _ =>
        .bind hR.toChained (reloadOf_keeps hRm) (.reloadOf m) fun _ =>
          .of_still hR.toChained (.pure _)
    exact hrest env _ r hc

theorem openRelation_keeps (hR : Chained R) (hrel : ChildWise rel R) (m : TableMap τ)
    (old : Option Record) : Keeps R (openRelation m rel old : Session τ δ Record _) := by
  unfold openRelation
  split
  · exact .of_still hR (.pure _)
  · split
    · refine .after hR .focus .focus fun r => ?_
      split
      · exact .of_still hR (.pure _)
      · refine .after hR (.masterValue m rel.spec) (.masterValue m rel.spec) fun master => ?_
        split
        · exact .of_still hR (.pure _)
        · refine .after hR (.tableMap _) (.tableMap _) fun _ =>
            .bind hR (attachAll_keeps hR hrel _ _ _) (.attachAll _ _ _ _) fun _ =>
              .of_still hR ?_
          exact .bind .focus fun _ => .bind (.forM (fun _ => .deleteChild _ _) _) fun _ => .pure _
    · exact .of_still hR (.bind (.synchronizeLinks m rel old) fun _ => .pure _)

theorem openRelation_edits {name : String}
    (hg : (fieldsOf t).get? name = some (.many rel.slot rel.child)) (m : TableMap τ)
    (old : Option Record) : Keeps (Edited t) (openRelation m rel old : Session τ δ Record _) :=
  openRelation_keeps (chained_edited t) (.child hg) m old

end Session

end RecordGraph
