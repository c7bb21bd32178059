/-
  Mapping rows to records.

  * `columnPlan` decides how a column lands on a record: on a field, on a path
    through nested records, or nowhere.
  * `placeCell` puts one value where its plan says; what stands in the way is an
    `Anomaly`.  A strict mapper fails with the first anomaly, a lenient one
    reports it and goes on with the rest of the row.
  * A `RowMapper` remembers the plan of every column it has seen.
-/
import RecordGraph.Config
import RecordGraph.Record.Access
import RecordGraph.Report
import RecordGraph.Row

namespace RecordGraph

/-! ## Plans -/

/-- How a column lands on a record. -/
inductive ColumnPlan where
  | field (name : String)
  /-- A path of more than one part. -/
  | path (path : String)
  | unmapped
  deriving DecidableEq

variable {τ : Type} [Model τ]

/-- The name that a column stands for: a column named after the type and `Id` may
    stand for the field `Id`. -/
def columnName (typeIdAlias : Bool) (t : τ) (column : String) : String :=
  if typeIdAlias ∧ column = typeName t ++ "Id" ∧ hasField t "Id" then "Id" else column

/-- The nested record whose key a name refers to. -/
def keyOwner? (t : τ) (name : String) : Option String :=
  (FieldName.stem? name).filter fun x => nestedHasField t x "Id"

/-- The plan of a column. -/
def columnPlan (typeIdAlias : Bool) (t : τ) (column : String) : ColumnPlan :=
  let name := columnName typeIdAlias t column
  if FieldName.isDotted name then .path name
  else match keyOwner? t name with
    | some x => .path (FieldName.keyPath x)
    | none => if isWritable t name then .field name else .unmapped

/-! ## Anomalies -/

/-- Why the value of a column does not get into the record. -/
inductive Anomaly where
  /-- The value does not fit the field. -/
  | undecodable (e : Error)
  /-- The path stops at a part that leads nowhere. -/
  | unresolved (segment : String)
  /-- The column has no field. -/
  | unmapped
  deriving DecidableEq

namespace Anomaly

/-- What a strict mapper fails with. -/
def toError (typeName column : String) : Anomaly → Error
  | undecodable e => e
  | unresolved _ => .mapping typeName column
  | unmapped => .mapping typeName column

/-- What went wrong with a value, without the name of its column. -/
def decodeMessage : Error → String
  | .decode _ message => message
  | e => e.message

/-- What a lenient mapper reports. -/
def diagnostic (typeName column : String) : Anomaly → Diagnostic
  | undecodable e => .columnDecode typeName column (decodeMessage e)
  | unresolved segment => .unresolvedPath typeName column segment
  | unmapped => .unmappedColumn typeName column

end Anomaly

/-! ## Cells -/

/-- What became of a value. -/
inductive Placement where
  /-- Null leaves the record as it is. -/
  | skipped
  | written (r : Record)
  | anomaly (a : Anomaly)

/-- Puts a value where a plan says. -/
def placeCell (t : τ) (r : Record) (plan : ColumnPlan) (v : Value) : Placement :=
  if v.isNull then .skipped
  else match plan with
    | .field name =>
      match setField t r name v with
      | .ok (some r') => .written r'
      | .ok none => .skipped
      | .error e => .anomaly (.undecodable e)
    | .path path =>
      match setPath t r path v with
      | .ok (.set r') => .written r'
      | .ok (.missing segment) => .anomaly (.unresolved segment)
      | .error e => .anomaly (.undecodable e)
    | .unmapped => .anomaly .unmapped

/-! ## Mappers -/

/-- Maps the rows of one type of records. -/
structure RowMapper (τ : Type) where
  owner : τ
  /-- Anomalies are failures. -/
  strict : Bool
  /-- Columns without a field are reported. -/
  logUnmapped : Bool
  typeIdAlias : Bool
  /-- The plans of the columns seen so far. -/
  plans : List (String × ColumnPlan)

/-- What mapping a row came to: the record as far as it was filled, what was
    reported on the way, and what stopped the mapping. -/
structure Mapped where
  record : Record
  reports : List Diagnostic
  failure : Option Error

namespace RowMapper

/-- A mapper that has seen no columns. -/
def ofConfig {τ : Type} (config : Config) (owner : τ) : RowMapper τ where
  owner := owner
  strict := config.strict
  logUnmapped := config.logUnmapped
  typeIdAlias := config.typeIdAlias
  plans := []

/-- The plan of a column, remembered or made now. -/
def planOf (m : RowMapper τ) (column : String) : ColumnPlan :=
  (m.plans.lookup column).getD (columnPlan m.typeIdAlias m.owner column)

/-- Remembers the plan of a column. -/
def learn (m : RowMapper τ) (column : String) : RowMapper τ :=
  if (m.plans.lookup column).isSome then m
  else { m with plans := m.plans ++ [(column, m.planOf column)] }

/-- Remembers the plans of some columns. -/
def learnAll (m : RowMapper τ) (columns : List String) : RowMapper τ := columns.foldl learn m

/-- What a lenient mapper says about an anomaly. -/
def report (m : RowMapper τ) (column : String) (a : Anomaly) : List Diagnostic :=
  if a = .unmapped ∧ !m.logUnmapped then [] else [a.diagnostic (typeName m.owner) column]

/-- Fills a record from cells, each with its plan. -/
def fill (m : RowMapper τ) (r : Record) : List ((String × Value) × ColumnPlan) → Mapped
  | [] => ⟨r, [], none⟩
  | ((column, v), plan) :: rest =>
    match placeCell m.owner r plan v with
    | .skipped => fill m r rest
    | .written r' => fill m r' rest
    | .anomaly a =>
      if m.strict then ⟨r, [], some (a.toError (typeName m.owner) column)⟩
      else
        let later := fill m r rest
        ⟨later.record, m.report column a ++ later.reports, later.failure⟩

/-- Fills a record from a row whose columns have the given plans. -/
def fillRow (m : RowMapper τ) (r : Record) (row : Row) (plans : List ColumnPlan) : Mapped :=
  m.fill r (row.cells.zip plans)

/-- Merges a row into a record. -/
def mapInto (m : RowMapper τ) (r : Record) (row : Row) : RowMapper τ × Mapped :=
  let m' := m.learnAll row.columns
  (m', m'.fillRow r row (row.columns.map m'.planOf))

/-- Maps a row to a new record. -/
def map (m : RowMapper τ) (row : Row) : RowMapper τ × Mapped :=
  m.mapInto (freshRecord m.owner) row

/-- What mapping several rows came to. -/
structure MappedAll where
  reports : List Diagnostic
  records : Result (List Record)

/-- Maps rows one after the other until one fails.  Rows with the given columns
    have the given plans; the columns of other rows are planned on their own. -/
def mapRows (columns : List String) (plans : List ColumnPlan) (m : RowMapper τ) :
    List Row → RowMapper τ × MappedAll
  | [] => (m, ⟨[], .ok []⟩)
  | row :: rows =>
    let (m', first) :=
      if row.columns = columns then (m, m.fillRow (freshRecord m.owner) row plans) else m.map row
    match first.failure with
    | some e => (m', ⟨first.reports, .error e⟩)
    | none =>
      let (m'', later) := mapRows columns plans m' rows
      (m'', ⟨first.reports ++ later.reports, later.records.map (first.record :: ·)⟩)

/-- Maps all rows, with the columns of the first one planned once. -/
def mapAll (m : RowMapper τ) : List Row → RowMapper τ × MappedAll
  | [] => (m, ⟨[], .ok []⟩)
  | row :: rows =>
    let m' := m.learnAll row.columns
    mapRows row.columns (row.columns.map m'.planOf) m' (row :: rows)

/-- How many different columns have been seen. -/
def plannedColumns (m : RowMapper τ) : Nat := m.plans.length

end RowMapper

end RecordGraph
