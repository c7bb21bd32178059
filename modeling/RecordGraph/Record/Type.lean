/-
  Types of records.

  * A `RecordType` says what the slots of a record hold (`members`), by which
    names its fields are reached and how (`fields`), which value is its key, and
    what a map of the type is told unless told otherwise.
  * A `Model` gives a `RecordType` to every name of a type; the names are what
    nested records and collections refer to, so types may be recursive.
-/
import RecordGraph.Record
import RecordGraph.Record.FieldTable
import RecordGraph.Record.Setting
import RecordGraph.Value.Conversion

namespace RecordGraph

/-- What a slot holds. -/
inductive Shape (τ : Type) where
  | scalar (t : FieldType)
  | nested (target : τ)
  | many (child : τ)

/-- A slot of a record and the name under which it is stored. -/
structure Member (τ : Type) where
  name : String
  shape : Shape τ

/-- How a field reaches its content. -/
inductive Access (τ : Type) where
  /-- The value in a slot. -/
  | stored (slot : Nat) (t : FieldType)
  /-- A value made from the record, which cannot be set. -/
  | computed (get : Record → Value)
  /-- The nested record in a slot. -/
  | nested (slot : Nat) (target : τ)
  /-- The collection in a slot. -/
  | many (slot : Nat) (child : τ)

/-- A type of records. -/
structure RecordType (τ : Type) where
  /-- The name from which other names are made. -/
  name : String
  members : List (Member τ)
  fields : FieldTable (Access τ)
  /-- The value that tells a record from others of its type. -/
  key : Record → Value
  /-- The record has not been stored yet. -/
  isNew : Record → Bool
  isDeleted : Record → Bool
  /-- The record is only there because others refer to it. -/
  isGhost : Record → Bool
  /-- When the stored row was last changed, as far as the record knows. -/
  lastChange : Record → Option Moment
  /-- What a map of the type is told at first. -/
  settings : List (Setting τ)

/-- The record types of a domain, by name. -/
class Model (τ : Type) where
  type : τ → RecordType τ

/-! ## Fresh records -/

/-- What a slot holds at first. -/
def Shape.fresh {τ : Type} : Shape τ → Slot
  | .scalar t => .scalar (t.write t.fresh)
  | .nested _ => .nested none
  | .many _ => .many none

/-- A record with nothing set. -/
def RecordType.fresh {τ : Type} (t : RecordType τ) : Record :=
  .mk (t.members.map fun m => m.shape.fresh)

/-! ## Types with a field for every member -/

/-- The access to the content of a slot. -/
def Shape.access {τ : Type} (slot : Nat) : Shape τ → Access τ
  | .scalar t => .stored slot t
  | .nested target => .nested slot target
  | .many child => .many slot child

/-- A field under the name of each member, in their order. -/
def memberFields {τ : Type} (members : List (Member τ)) : List (String × Access τ) :=
  members.mapIdx fun i m => (m.name, m.shape.access i)

/-- A type with a field for every member and the key in one of the slots.  Its
    records are new until the key is set. -/
def RecordType.ofMembers {τ : Type} (name : String) (members : List (Member τ)) (keySlot : Nat)
    (settings : List (Setting τ)) : RecordType τ where
  name := name
  members := members
  fields := .ofList (memberFields members)
  key r := r.scalar keySlot
  isNew r := (r.scalar keySlot).isUnsetKey
  isDeleted _ := false
  isGhost _ := false
  lastChange _ := none
  settings := settings

end RecordGraph
