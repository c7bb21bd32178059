/-
  Saving records and what belongs to them.

  * `save` probes for the stored row, updates it or inserts a new one, reloads the
    record, and brings every relation in line with the database.
  * `synchronizeChildren` deletes, updates and inserts the children of a record,
    each child by a save of its own; `synchronizeLinks` changes only the rows of
    the link table.
  * A collection that is not carried is left alone.

  A save goes one level down for every level of carried collections below its
  record, so the depth of the record bounds the recursion.
-/
import RecordGraph.Graph.Matching
import RecordGraph.Session.Reading

namespace RecordGraph

namespace Session

variable {τ δ σ : Type} [Model τ] [DecidableEq τ]

/-! ## Stale records -/

/-- The moment in a column of a row. -/
def momentIn (row : Row) (column : String) : Option Moment :=
  match row.get? column with
  | some (.zoned m) => some m
  | some (.naive m) => some m
  | _ => none

/-- The failure of updating a row that has changed since the record was read. -/
def stale (t : τ) (r : Record) (stored seen : Moment) : Error :=
  .staleData (typeName t ++ " " ++ (keyOf t r).display ++ " changed at " ++ stored.localText ++
    " UTC, record was read at " ++ seen.localText ++ " UTC")

/-- Fails if the stored row is newer than the record. -/
def checkStale (column : String) (t : τ) (row : Row) (r : Record) : Result Unit :=
  match (Model.type t).lastChange r, momentIn row column with
  | some seen, some stored => if seen.before stored then .error (stale t r stored seen) else .ok ()
  | _, _ => .ok ()

/-! ## One row -/

/-- The stored row of the record in focus; a record that is new has none. -/
def storedRow (m : TableMap τ) : Session τ δ Record (Option Row) := do
  let r ← focus
  if isNew m.owner r then return none
  else
    let rows ← query (← m.probe (← config).dialect (m.keyValues r))
    return rows.head?

/-- Writes the given columns of a record to its row, if any of them can be written. -/
def writeColumns (m : TableMap τ) (r : Record) (columns : List String) : Session τ δ σ Unit := do
  match ← m.update (← config).dialect r columns with
  | some s => let _ ← execute s
  | none => pure ()

/-- Updates the stored row of the record in focus. -/
def updateRow (m : TableMap τ) (row : Row) : Session τ δ Record Unit := do
  let r ← focus
  match (← config).staleColumn with
  | some column => checkStale column m.owner row r
  | none => pure ()
  writeColumns m r row.columns

/-- The failure of an insert that gives no key. -/
def noKeyReturned (t : τ) : Error :=
  .executor ("insert into " ++ typeName t ++ " returned no key")

/-- Puts the key that the database made into the record in focus. -/
def acceptKey (m : TableMap τ) (key : Value) : Session τ δ Record Unit := do
  match m.keys with
  | [] => fail (MapFault.noKeys (typeName m.owner)).toError
  | field :: _ =>
    match ← setPath m.owner (← focus) field key with
    | .set r => setFocus r
    | .missing segment => fail (MapFault.keyWithoutField (typeName m.owner) segment).toError

/-- Inserts the record in focus. -/
def insertRow (m : TableMap τ) : Session τ δ Record Unit := do
  let d := (← config).dialect
  let columns ← describe (← m.describe d)
  let s ← m.insert d (← focus) columns
  if m.generatedKey then
    match ← scalar s with
    | some key => acceptKey m key
    | none => fail (noKeyReturned m.owner)
  else let _ ← execute s

/-- The record as it is stored, with its relations; none if nothing is related. -/
def storedRecord (m : TableMap τ) (row : Row) : Session τ δ σ (Option Record) := do
  if m.relations.isEmpty then return none
  else
    let r ← mapRow m.owner row
    let (_, r') ← onOther r (loadRelationsOf m)
    return some r'

/-- Updates or inserts the record in focus.  The answer is the record as it was
    stored before, if it matters. -/
def writeRow (m : TableMap τ) : Session τ δ Record (Option Record) := do
  match ← storedRow m with
  | some row =>
    updateRow m row
    storedRecord m row
  | none =>
    insertRow m
    return none

/-! ## Deleting -/

/-- The failure of deleting a record that is not stored. -/
def deleteUnsaved (t : τ) : Error := .validation ("cannot delete an unsaved " ++ typeName t)

/-- Deletes the stored row of a record. -/
def delete (t : τ) (r : Record) : Session τ δ σ Nat := do
  if isNew t r then fail (deleteUnsaved t)
  else
    let m ← tableMap t
    execute (← m.deleteByKeys (← config).dialect (m.keyValues r))

/-- Deletes the row with the given keys. -/
def deleteByKeys (t : τ) (keys : List Value) : Session τ δ σ Nat := do
  let m ← tableMap t
  execute (← m.deleteByKeys (← config).dialect keys)

/-- Deletes the rows in which every given field has the given value. -/
def deleteWhere (t : τ) (filter : List (String × Value)) : Session τ δ σ Nat := do
  let m ← tableMap t
  execute (← m.deleteWhere (← config).dialect filter)

/-! ## Children -/

/-- Points the child in focus at its parent. -/
def attach (child : τ) (column : String) (master : Value) : Session τ δ Record Unit := do
  match ← setField child (← focus) column master with
  | some r => setFocus r
  | none =>
    match FieldName.stem? column with
    | none => pure ()
    | some x =>
      match ← setPath child (← focus) (FieldName.keyPath x) master with
      | .set r => setFocus r
      | .missing segment => emit (.parentKeyDropped (typeName child) column segment)

/-- Deletes a child that is no longer in its collection. -/
def deleteChild (child : τ) (r : Record) : Session τ δ σ Unit := do
  if isNew child r then pure ()
  else let _ ← delete child r

/-- The changes of the collection in focus. -/
def childChanges (rel : Relation τ) (childMap : TableMap τ) (old : Option (List Record))
    (new : List Record) : Changes :=
  match old with
  | some rs => Changes.between rel.child childMap.keys rs new
  | none => .allInserted new.length

/-- Points the children of the record in focus at it. -/
def attachAll (rel : Relation τ) (column : String) (master : Value) (count : Nat) :
    Session τ δ Record Unit :=
  (List.range count).forM fun i => onChild rel.slot i (attach rel.child column master)

/-- Saves the children in the given places of a collection. -/
def saveAll (saveChild : τ → Session τ δ Record Unit) (rel : Relation τ) (places : List Nat) :
    Session τ δ Record Unit :=
  places.forM fun i => onChild rel.slot i (saveChild rel.child)

/-- Brings the stored children in line with those of the record in focus, which point at
    it already. -/
def alignChildren (saveChild : τ → Session τ δ Record Unit) (m : TableMap τ) (rel : Relation τ)
    (childMap : TableMap τ) (before : Option (List Record)) : Session τ δ Record Unit := do
  let children := ((← focus).many? rel.slot).getD []
  let changes := childChanges rel childMap before children
  (changes.deletions.filterMap ((before.getD [])[·]?)).forM (deleteChild rel.child)
  saveAll saveChild rel (changes.updates.map Prod.fst)
  saveAll saveChild rel changes.insertions
  emit (.childrenSynchronized (typeName m.owner) rel.spec.property changes.deletions.length
    changes.updates.length changes.insertions.length)

/-- Points the children of the record in focus at it, and brings the stored ones in line. -/
def synchronizeChildren (saveChild : τ → Session τ δ Record Unit) (m : TableMap τ)
    (rel : Relation τ) (old : Option Record) : Session τ δ Record Unit := do
  match (← focus).many? rel.slot with
  | none => pure ()
  | some children =>
    match ← masterValue m rel.spec with
    | none => pure ()
    | some master =>
      let childMap ← tableMap rel.child
      attachAll rel (rel.spec.masterColumn (typeName m.owner)) master children.length
      alignChildren saveChild m rel childMap (old.bind fun r => r.many? rel.slot)

/-! ## Links -/

/-- The diagnostic about a linked record without a key. -/
def unsavedLink (rel : Relation τ) : Diagnostic :=
  .relationSkipped (typeName rel.child) rel.spec.property "linked record has not been saved"

/-- The keys of stored children. -/
def storedLinkKeys (child : τ) (property : String) (rs : List Record) : List Value :=
  rs.filterMap fun r => (resolveValue child r property).filter fun v => !v.isUnsetKey

/-- The key of a child to be linked; none is reported. -/
def linkKey (rel : Relation τ) (property : String) (r : Record) :
    Session τ δ σ (Option Value) := do
  let key := (resolveValue rel.child r property).filter fun v =>
    !isNew rel.child r && !v.isUnsetKey
  if key.isNone then diagnose (unsavedLink rel)
  return key

/-- Executes a statement for each of some keys. -/
def executeEach (statement : Value → Result Statement) (keys : List Value) :
    Session τ δ σ Unit :=
  keys.forM fun key => do let _ ← execute (← statement key)

/-- Brings the rows of the link table in line with the collection in focus. -/
def synchronizeLinks (m : TableMap τ) (rel : Relation τ) (old : Option Record) :
    Session τ δ Record Unit := do
  match (← focus).many? rel.slot with
  | none => pure ()
  | some children =>
    match ← masterValue m rel.spec with
    | none => pure ()
    | some master =>
      let property := linkProperty rel.spec (← tableMap rel.child)
      let before := (old.bind fun r => r.many? rel.slot).getD []
      let oldKeys := storedLinkKeys rel.child property before
      let newKeys := (← children.mapM (linkKey rel property)).filterMap id
      let (unlinked, linked) := membershipChanges oldKeys newKeys
      let d := (← config).dialect
      let childType := typeName rel.child
      executeEach (m.linkDelete d rel.spec childType master) (unlinked.filterMap (oldKeys[·]?))
      executeEach (m.linkInsert d rel.spec childType master) (linked.filterMap (newKeys[·]?))
      emit (.linksSynchronized (typeName m.owner) rel.spec.property unlinked.length linked.length)

/-! ## Saving -/

/-- Brings one relation of the record in focus in line, unless it is read only. -/
def synchronize (saveChild : τ → Session τ δ Record Unit) (m : TableMap τ) (rel : Relation τ)
    (old : Option Record) : Session τ δ Record Unit :=
  if rel.spec.readOnly then pure ()
  else match rel.kind with
    | .oneToMany => synchronizeChildren saveChild m rel old
    | .manyToMany => synchronizeLinks m rel old

/-- Saves the record in focus, with a given way to save its children. -/
def saveUsing (saveChild : τ → Session τ δ Record Unit) (t : τ) : Session τ δ Record Unit := do
  let m ← tableMap t
  let old ← writeRow m
  reloadOf m
  m.relations.forM fun rel => synchronize saveChild m rel old

/-- Saves the record in focus and the levels of children below it. -/
def saveLevels : (levels : Nat) → τ → Session τ δ Record Unit
  | 0, t => saveUsing (fun _ => pure ()) t
  | levels + 1, t => saveUsing (saveLevels levels) t

/-- Saves the record in focus and all that belongs to it. -/
def save (t : τ) : Session τ δ Record Unit := do saveLevels (← focus).depth t

/-- Brings one relation of the record in focus in line with the database, given the
    record as it is stored. -/
def synchronizeRelation (t : τ) (rel : Relation τ) (old : Option Record) :
    Session τ δ Record Unit := do
  synchronize (saveLevels (← focus).depth) (← tableMap t) rel old

end Session

end RecordGraph
