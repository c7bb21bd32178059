/-
  Values in the binary form of PostgreSQL.

  * `write` appends a parameter to a buffer: a value is sent only as a type of its own
    kind, and an integer only if it is in the range of the type.  `encode` is what is
    appended.
  * `decode` reads a column.
  * Dates count days, and moments microseconds, from the first day of 2000.
-/
import RecordGraph.Json.Reader
import RecordGraph.Postgres.Numeric
import RecordGraph.Postgres.SqlType
import RecordGraph.Value.Conversion

namespace RecordGraph.Postgres

/-! ## Dates and moments -/

/-- The first day of 2000. -/
def firstDay : Date := .ofCivil ⟨2000, 1, 1⟩

/-- The first second of 2000, counted from 1970. -/
def firstSecond : Int := firstDay.days * 86400

/-- The microseconds since the start of 2000, without what is left of the last one. -/
def microsOf (m : Moment) : Int := (((m.seconds - firstSecond) * 1000000000 + m.nanos).tdiv 1000)

/-- The moment of a number of microseconds. -/
def momentOf (micros : Int) : Moment :=
  ⟨firstSecond + micros.fdiv 1000000, (micros.fmod 1000000).toNat * 1000⟩

/-- The first day that is read. -/
def earliestDay : Date := .ofCivil ⟨-262143, 1, 1⟩

/-- The last day that is read. -/
def latestDay : Date := .ofCivil ⟨262142, 12, 31⟩

/-- The day is one that is read. -/
def isDay (d : Date) : Bool := earliestDay.days ≤ d.days && d.days ≤ latestDay.days

/-! ## Writing -/

/-- Why a value cannot be sent as a type. -/
inductive EncodeFault where
  /-- The integer is not in the range of the type. -/
  | outOfRange
  /-- Values of the kind are not sent as the type. -/
  | wrongType
  deriving DecidableEq

/-- Work that appends to a buffer.  What it has appended before it fails stays there. -/
abbrev Writer := EStateM EncodeFault (List UInt8)

/-- Appends bytes. -/
def put (bs : List UInt8) : Writer Unit := modify (· ++ bs)

/-- The bytes of a text. -/
def textBytes (s : String) : List UInt8 := s.toUTF8.data.toList

/-- The version of the form of documents and paths. -/
def formVersion : UInt8 := 1

/-- A value in a width in which it is written. -/
inductive Native where
  | bool (b : Bool)
  | int2 (i : Int16)
  | int4 (i : Int32)
  | int8 (i : Int64)
  | float4 (x : Single)
  | float8 (x : Double)
  | text (s : String)
  | uuid (u : Uuid)
  | zoned (m : Moment)
  | naive (m : Moment)
  | date (d : Date)
  | bytes (bs : List UInt8)
  | json (j : Json)

namespace Native

/-- The types as which a value is written. -/
def accepts : Native → SqlType → Bool
  | bool _, .bool => true
  | int2 _, .int2 => true
  | int4 _, .int4 => true
  | int8 _, .int8 => true
  | float4 _, .float4 => true
  | float8 _, .float8 => true
  | text _, .text _ => true
  | text _, .path _ => true
  | uuid _, .uuid => true
  | zoned _, .timestamptz => true
  | naive _, .timestamp => true
  | date _, .date => true
  | bytes _, .bytea => true
  | json _, .json => true
  | json _, .jsonb => true
  | _, _ => false

/-- The forms of a type start with a version. -/
def hasVersion : SqlType → Bool
  | .path _ => true
  | .jsonb => true
  | _ => false

/-- Appends the form of a value as a type that it is written as. -/
def write (t : SqlType) : Native → Writer Unit
  | bool b => put [if b then 1 else 0]
  | int2 i => put (intToBigEndian 2 i.toInt)
  | int4 i => put (intToBigEndian 4 i.toInt)
  | int8 i => put (intToBigEndian 8 i.toInt)
  | float4 x => put (toBigEndian 4 x.bits.toNat)
  | float8 x => put (toBigEndian 8 x.bits.toNat)
  | text s => do
    if hasVersion t then put [formVersion]
    put (textBytes s)
  | uuid u => put u.bytes
  | zoned m => put (intToBigEndian 8 (microsOf m))
  | naive m => put (intToBigEndian 8 (microsOf m))
  | date d => put (intToBigEndian 4 (d.days - firstDay.days))
  | bytes bs => put bs
  | json j => do
    if hasVersion t then put [formVersion]
    put (textBytes j.text)

/-- An integer in a width of its own, if it is in its range. -/
def narrowed (range : IntType) (f : Int64 → Native) (i : Int64) : Except EncodeFault Native :=
  if range.Holds i.toInt then .ok (f i) else .error .outOfRange

/-- A value in the width of a type; null has none. -/
def ofValue? (t : SqlType) : Value → Except EncodeFault (Option Native)
  | .null => .ok none
  | .bool b => .ok (some (bool b))
  | .int i =>
    match t with
    | .int2 => (narrowed .i16 (fun i => int2 i.toInt16) i).map some
    | .int4 => (narrowed .i32 (fun i => int4 i.toInt32) i).map some
    | .float8 => .ok (some (float8 (Double.ofInt i.toInt)))
    | _ => .ok (some (int8 i))
  | .float x =>
    match t with
    | .float4 => .ok (some (float4 x.narrow))
    | _ => .ok (some (float8 x))
  | .text s => .ok (some (text s))
  | .uuid u => .ok (some (uuid u))
  | .zoned m => .ok (some (zoned m))
  | .naive m => .ok (some (naive m))
  | .date d => .ok (some (date d))
  | .bytes bs => .ok (some (bytes bs))
  | .json j => .ok (some (json j))

end Native

/-- Appends a parameter, and tells whether it has a form: null is sent as any type, and without
    bytes. -/
def write (t : SqlType) (v : Value) : Writer Bool :=
  match Native.ofValue? t v with
  | .error e => throw e
  | .ok none => return false
  | .ok (some n) => do
    unless n.accepts t do throw .wrongType
    n.write t
    return true

/-- The form of a parameter. -/
def encode (t : SqlType) (v : Value) : Except EncodeFault (Option (List UInt8)) :=
  match (write t v).run [] with
  | .ok true bs => .ok (some bs)
  | .ok false _ => .ok none
  | .error e _ => .error e

/-! ## Reading -/

/-- Why the value of a column cannot be read. -/
inductive DecodeFault where
  /-- No values of the type are read. -/
  | unsupported (t : SqlType)
  /-- The bytes are not the form of a value of the type. -/
  | malformed
  deriving DecidableEq

def DecodeFault.message : DecodeFault → String
  | unsupported t => "unsupported column type " ++ t.name
  | malformed => "<column read error>"

/-- The integer in exactly so many bytes. -/
def readInt (width : Nat) (bs : List UInt8) : Option Int :=
  if bs.length = width then some (intOfBigEndian bs) else none

/-- The text of some bytes. -/
def readText (bs : List UInt8) : Option String := String.fromUTF8? ⟨bs.toArray⟩

/-- The bytes after the version of their form. -/
def afterVersion : List UInt8 → Option (List UInt8)
  | [] => none
  | b :: bs => if b = formVersion then some bs else none

/-- The document of some bytes. -/
def readJson (bs : List UInt8) : Option Json := (readText bs).bind Json.read?

/-- The moment of some bytes. -/
def readMoment (bs : List UInt8) : Option Moment :=
  ((readInt 8 bs).map momentOf).filter fun m => isDay m.date

/-- The day of some bytes. -/
def readDate (bs : List UInt8) : Option Date :=
  ((readInt 4 bs).map fun days => ⟨firstDay.days + days⟩).filter isDay

/-- An integer value of some bytes. -/
def readIntValue (width : Nat) (bs : List UInt8) : Option Value :=
  (readInt width bs).map fun i => .int (.ofInt i)

/-- The value of the bytes of a column, for a type that is read. -/
def decodeBytes : SqlType → List UInt8 → Option Value
  | .bool, [b] => some (.bool (b != 0))
  | .bool, _ => none
  | .int2, bs => readIntValue 2 bs
  | .int4, bs => readIntValue 4 bs
  | .int8, bs => readIntValue 8 bs
  | .float4, bs =>
    if bs.length = 4 then some (.float (Single.widen ⟨.ofNat (ofBigEndian bs)⟩)) else none
  | .float8, bs => if bs.length = 8 then some (.float ⟨.ofNat (ofBigEndian bs)⟩) else none
  | .numeric, bs => ((Numeric.read? bs).bind Numeric.decimal?).map fun d => .float d.toDouble
  | .text _, bs => (readText bs).map .text
  | .path _, bs => ((afterVersion bs).bind readText).map .text
  | .uuid, bs => if bs.length = 16 then some (.uuid (Uuid.ofBytes bs)) else none
  | .timestamptz, bs => (readMoment bs).map .zoned
  | .timestamp, bs => (readMoment bs).map .naive
  | .date, bs => (readDate bs).map .date
  | .bytea, bs => some (.bytes bs)
  | .json, bs => (readJson bs).map .json
  | .jsonb, bs => ((afterVersion bs).bind readJson).map .json
  | .other _, _ => none

/-- Values of the type are read. -/
def SqlType.isSupported : SqlType → Bool
  | .other _ => false
  | _ => true

/-- The value of a column. -/
def decode (t : SqlType) (sent : Option (List UInt8)) : Except DecodeFault Value :=
  if t.isSupported then
    match sent with
    | none => .ok .null
    | some bs =>
      match decodeBytes t bs with
      | some v => .ok v
      | none => .error .malformed
  else .error (.unsupported t)

end RecordGraph.Postgres
