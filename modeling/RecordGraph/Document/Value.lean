/-
  Values, rows and statements as documents.

  A value is an object with one member, named after its kind; null is null.  The
  bits of a fraction are written in hexadecimal digits.
-/
import RecordGraph.Document
import RecordGraph.Row
import RecordGraph.Sql.Fragment

namespace RecordGraph

/-! ## Writing -/

/-- A document of one whole number. -/
def Json.ofInt (i : Int) : Json := .number (.whole i)

/-- Bytes in hexadecimal digits. -/
def Json.ofBytes (bs : List UInt8) : Json := .string (String.ofList (bytesToHex bs))

/-- An object of one member. -/
def Json.tagged (name : String) (j : Json) : Json := .object [(name, j)]

/-- The bits of a fraction; whatever is not a number has the same ones. -/
def Double.document (x : Double) : Json :=
  .string (String.ofList (toHex 16 (if x.isNaN then 0x7ff8000000000000 else x.bits.toNat)))

def Moment.document (m : Moment) : Json := .array [.ofInt m.seconds, .ofInt m.nanos]

def Date.document (d : Date) : Json :=
  let c := d.civil
  .array [.ofInt c.year, .ofInt c.month, .ofInt c.day]

namespace Value

/-- The content of a value, without its kind. -/
def content : Value → Json
  | null => .null
  | bool b => .bool b
  | int i => .ofInt i.toInt
  | float x => x.document
  | text s => .string s
  | uuid u => .string u.text
  | zoned m => m.document
  | naive m => m.document
  | date d => d.document
  | bytes bs => .ofBytes bs
  | json j => j

def document (v : Value) : Json := if v.isNull then .null else .tagged v.kind v.content

/-- A value that may be missing. -/
def optionDocument : Option Value → Json
  | some v => v.document
  | none => .tagged "none" (.bool true)

end Value

def Row.document (r : Row) : Json :=
  .array (r.cells.map fun (column, v) => .array [.string column, v.document])

/-- The members of the document of a statement. -/
def Statement.members (s : Statement) : List (String × Json) :=
  [("kind", .string s.kind.name), ("sql", .string s.sql),
    ("params", .array (s.params.map Value.document))]

/-! ## Reading -/

namespace Json

def asMoment (j : Json) : Read Moment := do
  match ← j.asList with
  | [seconds, nanos] => return ⟨← seconds.asInt, ← nanos.asNat⟩
  | _ => misread "moment"

def asDate (j : Json) : Read Date := do
  match ← j.asList with
  | [year, month, day] => return .ofCivil ⟨← year.asInt, ← month.asNat, ← day.asNat⟩
  | _ => misread "date"

def asUuid (j : Json) : Read Uuid := do
  match Uuid.parse? (← j.asText) with
  | some u => return u
  | none => misread "identifier"

def asValue : Json → Read Value
  | .null => .ok .null
  | .object [(kind, j)] => do
    match kind with
    | "bool" => return .bool (← j.asFlag)
    | "int" => return .int (.ofInt (← j.asInt))
    | "float" => return .float ⟨.ofNat (ofBigEndian (← j.asBytes))⟩
    | "text" => return .text (← j.asText)
    | "uuid" => return .uuid (← j.asUuid)
    | "timestamptz" => return .zoned (← j.asMoment)
    | "timestamp" => return .naive (← j.asMoment)
    | "date" => return .date (← j.asDate)
    | "bytes" => return .bytes (← j.asBytes)
    | "json" => return .json j
    | _ => misread "kind of value"
  | _ => misread "value"

def asValues (j : Json) : Read (List Value) := do (← j.asList).mapM asValue

/-- A name and a value. -/
def asCell (j : Json) : Read (String × Value) := do
  match ← j.asList with
  | [name, v] => return (← name.asText, ← v.asValue)
  | _ => misread "name and value"

/-- Names and values. -/
def asCells (j : Json) : Read (List (String × Value)) := do (← j.asList).mapM asCell

/-- A row, given by its cells or by columns and values. -/
def asRow (j : Json) : Read Row := do
  match j.member? "pairs" with
  | some pairs => return ⟨← pairs.asCells⟩
  | none => return Row.ofColumns (← j.textsAt "columns") (← (j.part "values").asValues)

/-- Rows, each by itself or all with the same columns. -/
def asRows (j : Json) : Read (List Row) := do
  match j with
  | .object _ =>
    let columns ← j.textsAt "columns"
    (← j.listAt "rows").mapM fun values => return Row.ofColumns columns (← values.asValues)
  | _ => (← j.asList).mapM asRow

end Json

end RecordGraph
