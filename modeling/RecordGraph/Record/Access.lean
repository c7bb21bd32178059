/-
  Reaching the content of records by name.

  * `fieldValue` reads the value at a dotted path, `resolveValue` also takes a name
    `XId` for the key of the nested record `X`.
  * `setField` writes a field, `setPath` the value at a dotted path; nested records
    on the way that are not set are created.  A record is given back only when the
    value was written, so a failed write changes nothing.
-/
import RecordGraph.Naming
import RecordGraph.Record.Type

namespace RecordGraph

variable {τ : Type} [Model τ]

/-- The name of a type, as it appears in other names. -/
def typeName (t : τ) : String := (Model.type t).name

/-- The fields of a type. -/
def fieldsOf (t : τ) : FieldTable (Access τ) := (Model.type t).fields

/-- A record of a type with nothing set. -/
def freshRecord (t : τ) : Record := (Model.type t).fresh

/-- The key of a record. -/
def keyOf (t : τ) (r : Record) : Value := (Model.type t).key r

/-- The record has not been stored yet. -/
def isNew (t : τ) (r : Record) : Bool := (Model.type t).isNew r

/-! ## Kinds of fields -/

/-- The type has a field of that name. -/
def hasField (t : τ) (name : String) : Bool := (fieldsOf t).contains name

/-- The field has a value, stored or computed. -/
def isScalar (t : τ) (name : String) : Bool :=
  match (fieldsOf t).get? name with
  | some (.stored ..) => true
  | some (.computed _) => true
  | _ => false

/-- The field holds a nested record. -/
def isNested (t : τ) (name : String) : Bool :=
  match (fieldsOf t).get? name with
  | some (.nested ..) => true
  | _ => false

/-- The field has a stored value. -/
def isWritable (t : τ) (name : String) : Bool :=
  match (fieldsOf t).get? name with
  | some (.stored ..) => true
  | _ => false

/-- The field holds a nested record whose type has the given field. -/
def nestedHasField (t : τ) (name field : String) : Bool :=
  match (fieldsOf t).get? name with
  | some (.nested _ target) => hasField target field
  | _ => false

/-! ## Reading -/

/-- The value of a field, of a stored or computed one. -/
def flatValue (t : τ) (r : Record) (name : String) : Option Value :=
  match (fieldsOf t).get? name with
  | some (.stored slot _) => some (r.scalar slot)
  | some (.computed get) => some (get r)
  | _ => none

/-- The nested record of a field, with its type, if it is set. -/
def nestedRecord (t : τ) (r : Record) (name : String) : Option (τ × Record) :=
  match (fieldsOf t).get? name with
  | some (.nested slot target) => (r.nested? slot).map fun n => (target, n)
  | _ => none

/-- The value at the end of a path given in parts. -/
def valueAt (t : τ) (r : Record) : List String → Option Value
  | [] => none
  | [name] => flatValue t r name
  | head :: rest =>
    match nestedRecord t r head with
    | some (target, n) => valueAt target n rest
    | none => none

/-- The value at a dotted path; `none` if the path does not lead to a value, or
    through a nested record that is not set. -/
def fieldValue (t : τ) (r : Record) (path : String) : Option Value :=
  valueAt t r (FieldName.segments path)

/-- The value at a path, or for a name `XId` the key of the nested record `X`. -/
def resolveValue (t : τ) (r : Record) (name : String) : Option Value :=
  match fieldValue t r name with
  | some v => some v
  | none => (FieldName.stem? name).bind fun x => fieldValue t r (FieldName.keyPath x)

/-! ## Writing -/

/-- Writes a field that stores a value; `none` if there is no such field. -/
def setField (t : τ) (r : Record) (name : String) (v : Value) : Result (Option Record) :=
  match (fieldsOf t).get? name with
  | some (.stored slot type) =>
    match type.normalize v with
    | .ok w => .ok (some (r.setSlot slot (.scalar w)))
    | .error e => .error (.decode name e.message)
  | _ => .ok none

/-- What writing to a path came to. -/
inductive PathWrite where
  /-- The value is in the record. -/
  | set (r : Record)
  /-- There is no field of that name that could be written or walked through. -/
  | missing (segment : String)

/-- The nested record of a field, created if it is not set, with its slot. -/
def nestedOrFresh (t : τ) (r : Record) (name : String) : Option (Nat × τ × Record) :=
  match (fieldsOf t).get? name with
  | some (.nested slot target) => some (slot, target, (r.nested? slot).getD (freshRecord target))
  | _ => none

/-- Writes the value at the end of a path given in parts. -/
def setAt (t : τ) (r : Record) (v : Value) : List String → Result PathWrite
  | [] => .ok (.missing "")
  | [name] => do
    match ← setField t r name v with
    | some r' => return .set r'
    | none => return .missing name
  | head :: rest =>
    match nestedOrFresh t r head with
    | none => .ok (.missing head)
    | some (slot, target, n) => do
      match ← setAt target n v rest with
      | .set n' => return .set (r.setSlot slot (.nested (some n')))
      | .missing segment => return .missing segment

/-- Writes the value at a dotted path. -/
def setPath (t : τ) (r : Record) (path : String) (v : Value) : Result PathWrite :=
  setAt t r v (FieldName.segments path)

/-! ## Collections -/

/-- Why a field is not a collection of the wanted records. -/
inductive CollectionFault where
  | otherRecords (type field holds wanted : String)
  | notCollection (type field : String)
  | noField (type field : String)
  deriving DecidableEq

def CollectionFault.message : CollectionFault → String
  | otherRecords type field holds wanted =>
    type ++ "." ++ field ++ " holds " ++ holds ++ " records, not " ++ wanted
  | notCollection type field => type ++ "." ++ field ++ " is not a collection"
  | noField type field => type ++ " has no field " ++ field

/-- The slot of a collection of records of the given type. -/
def collectionSlot [DecidableEq τ] (t : τ) (name : String) (child : τ) :
    Except CollectionFault Nat :=
  match (fieldsOf t).get? name with
  | some (.many slot c) =>
    if c = child then .ok slot
    else .error (.otherRecords (typeName t) name (typeName c) (typeName child))
  | some _ => .error (.notCollection (typeName t) name)
  | none => .error (.noField (typeName t) name)

end RecordGraph
