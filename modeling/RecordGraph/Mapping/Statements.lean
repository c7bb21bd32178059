/-
  The statements of a map.

  * `TableMap.select` is the select of a `QuerySpec`; the statements on one row
    restrict it by its keys, and fail if their number is wrong.
  * `TableMap.writeValues` are the values that a record contributes to the columns
    of its table; inserts and updates are made of them.
  * `TableMap.relationRead`, `linkInsert` and `linkDelete` are the statements of
    relations.
-/
import RecordGraph.Mapping.TableMap
import RecordGraph.Sql.Condition
import RecordGraph.Sql.RowLimit

namespace RecordGraph

/-! ## Selects -/

/-- What a select reads from. -/
inductive Source where
  /-- The table or view of the map. -/
  | map
  /-- Another table or view. -/
  | object (ident : Ident)
  /-- A whole select. -/
  | sql (text : String)
  deriving DecidableEq

/-- What a select needs besides its map. -/
structure QuerySpec where
  source : Source
  conditions : List Condition
  order : OrderBy
  /-- The greatest number of rows; zero is no limit. -/
  take : Nat

namespace QuerySpec

/-- Everything that the map reads. -/
def all : QuerySpec := ⟨.map, [], .none, 0⟩

end QuerySpec

/-- The comparisons of a select or delete, after `where`. -/
def whereFragment (d : Dialect) (conditions : List Condition) : Result Fragment :=
  if conditions.isEmpty then .ok []
  else
    ((Condition.allFragment d conditions).map fun f => .text " where " :: f).mapError
      Condition.Fault.toError

namespace TableMap

variable {τ : Type}

/-- A select up to its conditions. -/
def selectBase (m : TableMap τ) (variant : Variant) : Source → Result Fragment
  | .sql text =>
    .ok [.text (if variant = .count then counted text else text)]
  | .object ident => .ok (.text (selectWords variant) :: ident.fragment)
  | .map => do
    let ident ← m.source variant
    return .text (selectWords variant) :: ident.fragment
where
  /-- The first words of a select. -/
  selectWords (variant : Variant) : String :=
    if variant = .count then "select count(*) from " else "select * from "
  /-- The count of the rows of a select. -/
  counted (text : String) : String := "select count(*) from (" ++ text ++ ") as counted"

/-- The order of a select: its own, or else that of the map. -/
def orderFragment (m : TableMap τ) (order : OrderBy) : Fragment :=
  let clause := (if order.keys.isEmpty then m.order else order).fragment
  if clause.isEmpty then [] else .text " " :: clause

/-- The select of a query.  A count has neither order nor limit. -/
def select (m : TableMap τ) (d : Dialect) (spec : QuerySpec) (variant : Variant) :
    Result Statement := do
  let base ← m.selectBase variant spec.source
  let restricted ← whereFragment d spec.conditions
  if variant = .count then
    return .of d .count (base ++ restricted)
  else
    let s := Statement.of d .select (base ++ restricted ++ m.orderFragment spec.order)
    return { s with sql := d.applyRowLimit s.sql spec.take }

/-! ## Statements on one row -/

variable [Model τ]

/-- The comparison of every key field with its value. -/
def keyFragment (m : TableMap τ) (keys : List Value) : Result Fragment :=
  if keys.length = m.keys.length then
    .ok (.joined " and " ((m.keys.zip keys).map fun (field, v) =>
      [.name field, .text " = ", .bind v]))
  else .error (.keyCardinality (typeName m.owner) m.keys.length keys.length)

/-- The row with the given keys, from the table or view of a variant. -/
def selectByKeys (m : TableMap τ) (d : Dialect) (variant : Variant) (keys : List Value) :
    Result Statement := do
  let source ← m.source variant
  let restricted ← m.keyFragment keys
  return .of d .select (.text "select * from " :: source.fragment ++ .text " where " :: restricted)

/-- The stored row with the given keys, from the table that is written to. -/
def probe (m : TableMap τ) (d : Dialect) (keys : List Value) : Result Statement := do
  let table ← m.tableIdent
  let restricted ← m.keyFragment keys
  return .of d .select (.text "select * from " :: table.fragment ++ .text " where " :: restricted)

/-- No row of the table that is written to, for its columns. -/
def describe (m : TableMap τ) (d : Dialect) : Result Statement := do
  let table ← m.tableIdent
  return .of d .describe (.text "select * from " :: table.fragment ++ [.text " where 1=0"])

/-! ## Writing -/

/-- The value that a record has for a column: the one its reference leads to, or
    its field, or the key of a nested record.  A path through a nested record that
    is not set ends in null. -/
def writeValue? (m : TableMap τ) (r : Record) (column : String) : Option Value :=
  match m.reference? column with
  | some path => some ((fieldValue m.owner r path).getD .null)
  | none =>
    match flatValue m.owner r column with
    | some v => some v
    | none =>
      ((FieldName.stem? column).filter (isNested m.owner)).map fun x =>
        (fieldValue m.owner r (FieldName.keyPath x)).getD .null

/-- The columns that are written for a record, with their values. -/
def writeValues (m : TableMap τ) (r : Record) (columns : List String) : List (String × Value) :=
  columns.filterMap fun column =>
    if m.skipsOnWrite column then none else (m.writeValue? r column).map fun v => (column, v)

/-- The part of an insert that asks for the key which the database made. -/
def returningFragment (m : TableMap τ) (d : Dialect) : Result Fragment :=
  if m.generatedKey then
    match m.keys, d with
    | [], _ => .error (MapFault.noKeys (typeName m.owner)).toError
    | key :: _, .postgres => do
      let column ← (Ident.column key).mapError Ident.Fault.toError
      return .text " returning " :: column.fragment
    | _ :: _, .sqlServer => .ok [.text "; select cast(scope_identity() as bigint)"]
  else .ok []

/-- An insert of a record. -/
def insert (m : TableMap τ) (d : Dialect) (r : Record) (columns : List String) :
    Result Statement := do
  let table ← m.tableIdent
  let values := m.writeValues r columns
  let body : Fragment :=
    if values.isEmpty then [.text " default values"]
    else
      .text " (" :: Fragment.joined ", " (values.map fun p => [.name p.1]) ++
        .text ") values (" :: Fragment.joined ", " (values.map fun p => [.bind p.2]) ++
        [.text ")"]
  let returning ← m.returningFragment d
  return .of d .insert (.text "insert into " :: table.fragment ++ body ++ returning)

/-- An update of the stored row of a record, unless no column is written. -/
def update (m : TableMap τ) (d : Dialect) (r : Record) (columns : List String) :
    Result (Option Statement) := do
  let values := (m.writeValues r columns).filter fun p => !m.isKey p.1
  if values.isEmpty then return none
  let table ← m.tableIdent
  let restricted ← m.keyFragment (m.keyValues r)
  let sets := Fragment.joined ", " (values.map fun p => [.name p.1, .text " = ", .bind p.2])
  return some (.of d .update
    (.text "update " :: table.fragment ++ .text " set " :: sets ++ .text " where " :: restricted))

/-! ## Deleting -/

/-- A delete of the row with the given keys. -/
def deleteByKeys (m : TableMap τ) (d : Dialect) (keys : List Value) : Result Statement := do
  let table ← m.tableIdent
  let restricted ← m.keyFragment keys
  return .of d .delete (.text "delete from " :: table.fragment ++ .text " where " :: restricted)

/-- The complaint about a delete that would take every row. -/
def unfilteredDelete (typeName : String) : Error :=
  .validation ("delete on " ++ typeName ++ " requires at least one filter field")

/-- The condition that a field has a value; null is a test of its own. -/
def filterCondition (field : String) (v : Value) : Condition :=
  if v.isNull then Condition.blank.onField field |>.isNull
  else Condition.blank.onField field |>.isEqualTo v

/-- A delete of the rows in which every given field has the given value. -/
def deleteWhere (m : TableMap τ) (d : Dialect) (filter : List (String × Value)) :
    Result Statement := do
  if filter.isEmpty then throw (unfilteredDelete (typeName m.owner))
  let restricted ← whereFragment d (filter.map fun p => filterCondition p.1 p.2)
  let table ← m.tableIdent
  return .of d .delete (.text "delete from " :: table.fragment ++ restricted)

/-! ## Relations -/

/-- The read of the children of the parent with the given key. -/
def relationRead (m : TableMap τ) (d : Dialect) (spec : RelationSpec) (master : Value) :
    Result Statement := do
  let parent := typeName m.owner
  let called (name : String) : Result Fragment :=
    ((objectIdent m.schema name).map Ident.fragment).mapError Ident.Fault.toError
  match spec.readCommand parent with
  | .source name =>
    let source ← called name
    let column ← (Ident.column (spec.masterColumn parent)).mapError Ident.Fault.toError
    return .of d .select (.text "select * from " :: source ++ .text " where " :: column.fragment ++
      [.text " = ", .bind master])
  | .procedure name =>
    let procedure ← called name
    return .of d .procedure (match d with
      | .sqlServer =>
        .text "exec " :: procedure ++ [.text (" @" ++ parent ++ "Id = "), .bind master]
      | .postgres => .text "select * from " :: procedure ++ [.text "(", .bind master, .text ")"])
  | .function name =>
    let function ← called name
    return .of d .procedure
      (.text "select * from " :: function ++ [.text "(", .bind master, .text ")"])

/-- The complaint about writing to a relation that is read only. -/
def readOnlyRelation (spec : RelationSpec) : Error :=
  .relationIntegrity spec.property "relation is read-only"

/-- The link table of a relation and its two columns. -/
def linkFragments (m : TableMap τ) (spec : RelationSpec) (childType : String) :
    Result (Fragment × Fragment × Fragment) := do
  match ← m.writeTable spec with
  | none => throw (readOnlyRelation spec)
  | some table =>
    let master ← (Ident.column (spec.masterColumn (typeName m.owner))).mapError Ident.Fault.toError
    let child ← (Ident.column (spec.childColumn childType)).mapError Ident.Fault.toError
    return (table.fragment, master.fragment, child.fragment)

/-- An insert of one row into a link table. -/
def linkInsert (m : TableMap τ) (d : Dialect) (spec : RelationSpec) (childType : String)
    (master child : Value) : Result Statement := do
  let (table, masterColumn, childColumn) ← m.linkFragments spec childType
  return .of d .insert (.text "insert into " :: table ++ .text " (" :: masterColumn ++
    .text ", " :: childColumn ++
    [.text ") values (", .bind master, .text ", ", .bind child, .text ")"])

/-- A delete of the rows of a link table that link two keys. -/
def linkDelete (m : TableMap τ) (d : Dialect) (spec : RelationSpec) (childType : String)
    (master child : Value) : Result Statement := do
  let (table, masterColumn, childColumn) ← m.linkFragments spec childType
  return .of d .delete (.text "delete from " :: table ++ .text " where " :: masterColumn ++
    [.text " = ", .bind master, .text " and "] ++ childColumn ++ [.text " = ", .bind child])

end TableMap

end RecordGraph
