/-
  Records as documents: an object with a member for every slot of the record.
-/
import RecordGraph.Document.Value
import RecordGraph.Record.Type

namespace RecordGraph

variable {τ : Type} [Model τ]

/-! ## Writing -/

mutual

/-- The document of a record of a type. -/
def recordDocument (t : τ) : Record → Json
  | .mk slots => .ofMembers (slotMembers (Model.type t).members slots)

/-- The documents of slots under the names of their members. -/
def slotMembers : List (Member τ) → List Slot → List (String × Json)
  | m :: ms, s :: ss => (m.name, slotDocument m.shape s) :: slotMembers ms ss
  | _, _ => []

/-- The document of a slot; null if nothing is set or carried. -/
def slotDocument : Shape τ → Slot → Json
  | .nested target, .nested (some r) => recordDocument target r
  | .many child, .many (some rs) => .array (recordDocuments child rs)
  | _, .scalar v => v.document
  | _, _ => .null

/-- The documents of some records. -/
def recordDocuments (t : τ) : List Record → List Json
  | [] => []
  | r :: rs => recordDocument t r :: recordDocuments t rs

end

/-! ## Reading -/

/-- The slot of the member of a name, and what it holds. -/
def memberAt (t : τ) (name : String) : Option (Nat × Shape τ) :=
  ((Model.type t).members.mapIdx fun i m => (m.name, i, m.shape)).lookup name

/-- The value for a field of a type. -/
def readScalar (type : FieldType) (j : Json) : Read Value := do
  (type.normalize (← j.asValue)).mapError fun e => ⟨e.message⟩

mutual

/-- The record of a document.  A member that is missing or null is as in a fresh
    record. -/
def readRecord (t : τ) : Json → Read Record
  | .object members => readMembers t (Model.type t).fresh members
  | .null => .ok (Model.type t).fresh
  | _ => misread "record"

/-- A record with members of a document put into their slots. -/
def readMembers (t : τ) (r : Record) : List (String × Json) → Read Record
  | [] => .ok r
  | (name, j) :: rest =>
    match memberAt t name with
    | none => misread ("member other than " ++ name)
    | some (slot, shape) => do
      match ← readSlot shape j with
      | some s => readMembers t (r.setSlot slot s) rest
      | none => readMembers t r rest

/-- What a slot holds, if it is given. -/
def readSlot (shape : Shape τ) : Json → Read (Option Slot)
  | .null => .ok none
  | .array items =>
    match shape with
    | .many child => do return some (.many (some (← readRecords child items)))
    | _ => misread "value or record"
  | .object members =>
    match shape with
    | .nested target => do
      return some (.nested (some (← readMembers target (Model.type target).fresh members)))
    | .scalar type => do return some (.scalar (← readScalar type (.object members)))
    | .many _ => misread "list"
  | _ => misread "value, record or list"

/-- The records of some documents. -/
def readRecords (t : τ) : List Json → Read (List Record)
  | [] => .ok []
  | j :: js => do
    let r ← readRecord t j
    let rs ← readRecords t js
    return r :: rs

end

end RecordGraph
