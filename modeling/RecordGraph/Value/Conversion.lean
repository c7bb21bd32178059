/-
  Conversion between values and what the fields of records hold.

  * `ScalarType` lists the types a field may have and `FieldType` adds that it
    may be empty; `FieldType.Carrier` is what a field of that type holds.
  * `FieldType.write` turns the content of a field into a value, and
    `FieldType.read` a value into content: integers are checked for their range,
    and a few kinds are taken for each other (whole numbers for truth values and
    fractions, identifiers and documents for text and back, times for each
    other).
  * `FieldType.lift` makes a value where one is wanted, as in a condition.
  * `FieldType.normalize` is reading followed by writing: the value that a field
    of the type stores when it is given a value.
-/
import RecordGraph.Json.Reader
import RecordGraph.Value

namespace RecordGraph

/-! ## Types of fields -/

/-- The integer types, by sign and width. -/
inductive IntType where
  | i16 | i32 | i64 | u8 | u16 | u32
  deriving DecidableEq

namespace IntType

def name : IntType → String
  | i16 => "i16"
  | i32 => "i32"
  | i64 => "i64"
  | u8 => "u8"
  | u16 => "u16"
  | u32 => "u32"

/-- The smallest number of the type. -/
def least : IntType → Int
  | i16 => -Nat.pow 2 15
  | i32 => -Nat.pow 2 31
  | i64 => -Nat.pow 2 63
  | u8 | u16 | u32 => 0

/-- The largest number of the type. -/
def greatest : IntType → Int
  | i16 => Nat.pow 2 15 - 1
  | i32 => Nat.pow 2 31 - 1
  | i64 => Nat.pow 2 63 - 1
  | u8 => Nat.pow 2 8 - 1
  | u16 => Nat.pow 2 16 - 1
  | u32 => Nat.pow 2 32 - 1

/-- The number fits the type. -/
def Holds (t : IntType) (i : Int) : Prop := t.least ≤ i ∧ i ≤ t.greatest

instance (t : IntType) (i : Int) : Decidable (t.Holds i) :=
  inferInstanceAs (Decidable (_ ∧ _))

end IntType

/-- The types of fields that always hold something. -/
inductive ScalarType where
  | int (t : IntType)
  | single
  | double
  | bool
  | text
  | uuid
  | zoned
  | naive
  | date
  | bytes
  | json
  deriving DecidableEq

/-- The types of fields. -/
inductive FieldType where
  | plain (t : ScalarType)
  | optional (t : ScalarType)
  deriving DecidableEq

/-- What a field of the type holds. -/
def ScalarType.Carrier : ScalarType → Type
  | int t => { i : Int // t.Holds i }
  | single => Single
  | double => Double
  | bool => Bool
  | text => String
  | uuid => Uuid
  | zoned => Moment
  | naive => Moment
  | date => Date
  | bytes => List UInt8
  | json => Json

@[inherit_doc ScalarType.Carrier]
def FieldType.Carrier : FieldType → Type
  | plain t => t.Carrier
  | optional t => Option t.Carrier

/-! ## Failures -/

/-- Why a value does not fit a field. -/
inductive ConvertError where
  /-- The integer is outside the range of the type. -/
  | outOfRange (i : Int64) (t : IntType)
  /-- The kind of the value is not one that the type takes. -/
  | kind (expected found : String)
  /-- The text is not an identifier. -/
  | badUuid
  /-- The text is not a JSON document. -/
  | badJson
  deriving DecidableEq

def ConvertError.message : ConvertError → String
  | outOfRange i t => toString i.toInt ++ " out of range for " ++ t.name
  | kind expected found => "expected " ++ expected ++ ", got " ++ found
  | badUuid => "<uuid parse error>"
  | badJson => "<json parse error>"

/-! ## Reading and writing -/

namespace ScalarType

/-- The name of the type in messages. -/
def name : ScalarType → String
  | int t => t.name
  | single => "f32"
  | double => "f64"
  | bool => "bool"
  | text => "text"
  | uuid => "uuid"
  | zoned => "timestamptz"
  | naive => "timestamp"
  | date => "date"
  | bytes => "bytes"
  | json => "json"

/-- The value of the content of a field. -/
def write : (t : ScalarType) → t.Carrier → Value
  | int _, i => .int (.ofInt i.val)
  | single, x => .float x.widen
  | double, x => .float x
  | bool, b => .bool b
  | text, s => .text s
  | uuid, u => .uuid u
  | zoned, m => .zoned m
  | naive, m => .naive m
  | date, d => .date d
  | bytes, bs => .bytes bs
  | json, j => .json j

/-- An integer as content of an integer field. -/
def readInt (t : IntType) (i : Int64) : Except ConvertError { n : Int // t.Holds n } :=
  if h : t.Holds i.toInt then .ok ⟨i.toInt, h⟩ else .error (.outOfRange i t)

/-- A truth value as content of an integer field. -/
def bit (t : IntType) (b : Bool) : { n : Int // t.Holds n } :=
  ⟨if b then 1 else 0, by cases t <;> cases b <;> decide⟩

/-- The content that a value stands for in a field of the type. -/
def read : (t : ScalarType) → Value → Except ConvertError t.Carrier
  | int t, .int i => readInt t i
  | int t, .bool b => .ok (bit t b)
  | single, .float x => .ok x.narrow
  | single, .int i => .ok (Single.ofInt i.toInt)
  | double, .float x => .ok x
  | double, .int i => .ok (Double.ofInt i.toInt)
  | bool, .bool b => .ok b
  | bool, .int i => .ok (i != 0)
  | text, .text s => .ok s
  | text, .uuid u => .ok u.text
  | uuid, .uuid u => .ok u
  | uuid, .text s =>
    match Uuid.parse? s with
    | some u => .ok u
    | none => .error .badUuid
  | zoned, .zoned m => .ok m
  | zoned, .naive m => .ok m
  | naive, .naive m => .ok m
  | naive, .zoned m => .ok m
  | date, .date d => .ok d
  | date, .naive m => .ok m.date
  | date, .zoned m => .ok m.date
  | bytes, .bytes bs => .ok bs
  | json, .json j => .ok j
  | json, .text s =>
    match Json.read? s with
    | some j => .ok j
    | none => .error .badJson
  | t, v => .error (.kind t.name v.kind)

/-- The value in the place of something of the type, where a value is wanted. -/
def lift : (t : ScalarType) → t.Carrier → Value
  | int _, i => .int (.ofInt i.val)
  | single, x => .float x.widen
  | double, x => .float x
  | bool, b => .bool b
  | text, s => .text s
  | uuid, u => .uuid u
  | zoned, m => .zoned m
  | naive, m => .naive m
  | date, d => .date d
  | bytes, bs => .bytes bs
  | json, j => .json j

/-- What a field of the type holds in a fresh record. -/
def fresh : (t : ScalarType) → t.Carrier
  | int t => bit t false
  | single => Single.zero
  | double => Double.zero
  | bool => false
  | text => ""
  | uuid => Uuid.zero
  | zoned => Moment.epoch
  | naive => Moment.epoch
  | date => Date.epoch
  | bytes => []
  | json => Json.null

end ScalarType

namespace FieldType

/-- The value of the content of a field; an empty field is null. -/
def write : (t : FieldType) → t.Carrier → Value
  | plain t, x => t.write x
  | optional t, some x => t.write x
  | optional _, none => .null

/-- The content that a value stands for; null empties a field that may be empty. -/
def read : (t : FieldType) → Value → Except ConvertError t.Carrier
  | plain t, v => t.read v
  | optional _, .null => .ok none
  | optional t, v => (t.read v).map some

/-- The value in the place of something of the type; nothing is null. -/
def lift : (t : FieldType) → t.Carrier → Value
  | plain t, x => t.lift x
  | optional t, x => (Option.map t.lift x).getD .null

/-- What a field of the type holds in a fresh record. -/
def fresh : (t : FieldType) → t.Carrier
  | plain t => t.fresh
  | optional _ => none

/-- The value that a field stores when it is given a value. -/
def normalize (t : FieldType) (v : Value) : Except ConvertError Value :=
  (t.read v).map t.write

end FieldType

end RecordGraph
