/-
  The values that columns hold and statements bind.

  * `Value.eqv` is the equality that decides whether a field has changed and
    whether two keys are the same: kinds are never mixed, and fractions are
    compared as numbers, so a value that is not a number differs from itself.
  * `Value.isUnsetKey` tells the values that a record has as its key before it
    has been stored.
  * `Value.text` is the text of a value in messages and in patterns.
-/
import RecordGraph.Calendar
import RecordGraph.Json
import RecordGraph.Uuid

namespace RecordGraph

/-- A column or parameter value. -/
inductive Value where
  | null
  | bool (b : Bool)
  | int (i : Int64)
  | float (x : Double)
  | text (s : String)
  | uuid (u : Uuid)
  /-- A moment on the time line. -/
  | zoned (m : Moment)
  /-- Date and time of day without a zone. -/
  | naive (m : Moment)
  | date (d : Date)
  | bytes (bs : List UInt8)
  | json (j : Json)
  deriving DecidableEq

namespace Value

/-- The name of the kind of a value. -/
def kind : Value → String
  | null => "null"
  | bool _ => "bool"
  | int _ => "int"
  | float _ => "float"
  | text _ => "text"
  | uuid _ => "uuid"
  | zoned _ => "timestamptz"
  | naive _ => "timestamp"
  | date _ => "date"
  | bytes _ => "bytes"
  | json _ => "json"

def isNull : Value → Bool
  | null => true
  | _ => false

/-- A key that marks a record as not stored yet. -/
def isUnsetKey : Value → Bool
  | null => true
  | int i => i == 0
  | text s => s.isEmpty
  | uuid u => u == .zero
  | _ => false

/-- The integer of an integer value. -/
def int? : Value → Option Int64
  | int i => some i
  | _ => none

/-- The text of a text value. -/
def text? : Value → Option String
  | text s => some s
  | _ => none

/-- Equality as the program compares values. -/
def eqv : Value → Value → Bool
  | null, null => true
  | bool a, bool b => a == b
  | int a, int b => a == b
  | float a, float b => a.eqv b
  | text a, text b => a == b
  | uuid a, uuid b => a == b
  | zoned a, zoned b => a == b
  | naive a, naive b => a == b
  | date a, date b => a == b
  | bytes a, bytes b => a == b
  | json a, json b => a.eqv b
  | _, _ => false

/-- Equality of values that may be missing. -/
def optionEqv : Option Value → Option Value → Bool
  | none, none => true
  | some a, some b => a.eqv b
  | _, _ => false

/-- The text of a value, without quotes. -/
def display : Value → String
  | null => "NULL"
  | bool b => if b then "true" else "false"
  | int i => toString i.toInt
  | float x => x.text
  | text s => s
  | uuid u => u.text
  | zoned m => m.zonedText
  | naive m => m.localText
  | date d => d.text
  | bytes bs => "<" ++ toString bs.length ++ " bytes>"
  | json j => j.text

end Value

end RecordGraph
