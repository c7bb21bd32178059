/-
  Reading records: mapping rows, fetching by key, and loading relations.

  * `mapInto`, `mapRow` and `mapRows` map rows and pass on what the mapper reports.
  * `loadRelation` reads the children of the record in focus into its collection;
    a record without a key is left as it is.
  * `get`, `getByKeys`, `reload` and `fetch` read records from the database.
-/
import RecordGraph.Mapping.Statements
import RecordGraph.Session

namespace RecordGraph

namespace Session

variable {τ δ σ : Type} [Model τ] [DecidableEq τ]

/-! ## Mapping -/

/-- The row mapper of a type. -/
def mapper (t : τ) : Session τ δ σ (RowMapper τ) := return (← catalog).mapper (← config) t

/-- Keeps what a row mapper has learnt. -/
def keepMapper (t : τ) (m : RowMapper τ) : Session τ δ σ Unit := do
  setCatalog ((← catalog).keepMapper t m)

/-- Merges a row into the record in focus. -/
def mapInto (t : τ) (row : Row) : Session τ δ Record Unit := do
  let (m, mapped) := (← mapper t).mapInto (← focus) row
  keepMapper t m
  setFocus mapped.record
  mapped.reports.forM diagnose
  match mapped.failure with
  | some e => fail e
  | none => pure ()

/-- Maps a row to a new record. -/
def mapRow (t : τ) (row : Row) : Session τ δ σ Record := do
  let (_, r) ← onOther (freshRecord t) (mapInto t row)
  return r

/-- Maps rows to new records. -/
def mapRows (t : τ) (rows : List Row) : Session τ δ σ (List Record) := do
  let (m, mapped) := (← mapper t).mapAll rows
  keepMapper t m
  mapped.reports.forM diagnose
  mapped.records

/-! ## Relations -/

/-- The diagnostic about a parent without a key. -/
def noParentKey (t : τ) (spec : RelationSpec) (property : String) : Diagnostic :=
  .relationSkipped (typeName t) spec.property ("parent field " ++ property ++ " holds no key")

/-- The value that the children of the record in focus refer to; none is reported. -/
def masterValue (m : TableMap τ) (spec : RelationSpec) : Session τ δ Record (Option Value) := do
  match spec.masterProperty.or m.keys.head? with
  | none => return none
  | some property =>
    match resolveValue m.owner (← focus) property with
    | some v =>
      if v.isUnsetKey then
        diagnose (noParentKey m.owner spec property)
        return none
      else return some v
    | none =>
      diagnose (noParentKey m.owner spec property)
      return none

/-- The rows of the children of the record in focus, each with its record; none if
    the record has no key. -/
def readChildren (m : TableMap τ) (rel : Relation τ) :
    Session τ δ Record (Option (List (Row × Record))) := do
  match ← masterValue m rel.spec with
  | none => return none
  | some master =>
    let rows ← query (← m.relationRead (← config).dialect rel.spec master)
    let children ← mapRows rel.child rows
    return some (rows.zip children)

/-- The field of a child that holds the key in the link table. -/
def linkProperty (spec : RelationSpec) (childMap : TableMap τ) : String :=
  spec.childProperty.getD (childMap.keys.head?.getD "Id")

/-- A child with the key that its row has for the link. -/
def withLinkKey (rel : Relation τ) (property : String) (row : Row) (child : Record) :
    Session τ δ σ Record := do
  match row.get? (rel.spec.childColumn (typeName rel.child)) with
  | none => return child
  | some key =>
    if key.isNull then return child
    else match ← setPath rel.child child property key with
      | .set child' => return child'
      | .missing segment =>
        emit (.linkKeyDropped (typeName rel.child) property segment)
        return child

/-- Reads the children of the record in focus into its collection. -/
def loadRelation (m : TableMap τ) (rel : Relation τ) : Session τ δ Record Unit := do
  match ← readChildren m rel with
  | none => pure ()
  | some read =>
    let children ← match rel.kind with
      | .oneToMany => pure (read.map Prod.snd)
      | .manyToMany => do
        let property := linkProperty rel.spec (← tableMap rel.child)
        read.mapM fun (row, child) => withLinkKey rel property row child
    setFocus ((← focus).setSlot rel.slot (.many (some children)))

/-- Reads all relations of the record in focus. -/
def loadRelationsOf (m : TableMap τ) : Session τ δ Record Unit := m.relations.forM (loadRelation m)

@[inherit_doc loadRelationsOf]
def loadRelations (t : τ) : Session τ δ Record Unit := do loadRelationsOf (← tableMap t)

/-! ## Fetching -/

/-- The records that a statement reads. -/
def fetch (t : τ) (s : Statement) : Session τ δ σ (List Record) := do mapRows t (← query s)

/-- One record with its relations. -/
def selectOne (m : TableMap τ) (variant : Variant) (keys : List Value) :
    Session τ δ σ (Option Record) := do
  let rows ← query (← m.selectByKeys (← config).dialect variant keys)
  match rows with
  | [] => return none
  | row :: _ =>
    let r ← mapRow m.owner row
    let (_, r') ← onOther r (loadRelationsOf m)
    return some r'

/-- The record with a key, from the extended view and with its relations. -/
def get (t : τ) (key : Value) : Session τ δ σ (Option Record) := do
  selectOne (← tableMap t) .full [key]

/-- The record with the given values for its key fields, with its relations. -/
def getByKeys (t : τ) (keys : List Value) : Session τ δ σ (Option Record) := do
  selectOne (← tableMap t) .short keys

/-- The failure of reading a row that is not there. -/
def missingRow (t : τ) (r : Record) : Error :=
  .notFound (typeName t ++ " " ++ (keyOf t r).display)

/-- Merges the stored row into the record in focus. -/
def reloadOf (m : TableMap τ) : Session τ δ Record Unit := do
  let keys := m.keyValues (← focus)
  let rows ← query (← m.selectByKeys (← config).dialect .short keys)
  match rows with
  | [] => fail (missingRow m.owner (← focus))
  | row :: _ => mapInto m.owner row

/-- Merges the stored row into the record in focus, and reads its relations if
    wanted. -/
def reload (t : τ) (withRelations : Bool) : Session τ δ Record Unit := do
  let m ← tableMap t
  reloadOf m
  if withRelations then loadRelationsOf m

end Session

end RecordGraph
