/-
  Records: trees of values, nested records and collections of records.

  A record is a list of slots.  Which slot a field is stored in, and what the slot
  may hold, is said by the type of the record (`RecordType`), not by the record.
-/
import RecordGraph.Value

namespace RecordGraph

mutual

/-- A record, as the contents of its slots. -/
inductive Record where
  | mk (slots : List Slot)

/-- The content of a slot. -/
inductive Slot where
  | scalar (v : Value)
  /-- A nested record, if it is set. -/
  | nested (r : Option Record)
  /-- The records of a collection, if the record carries the collection at all. -/
  | many (rs : Option (List Record))

end

namespace Record

def slots : Record → List Slot
  | mk ss => ss

/-- The record with other content in one slot. -/
def setSlot (r : Record) (i : Nat) (s : Slot) : Record := mk (r.slots.set i s)

/-- The value in a slot; null where there is none. -/
def scalar (r : Record) (i : Nat) : Value :=
  match r.slots[i]? with
  | some (.scalar v) => v
  | _ => .null

/-- The truth value in a slot; false where there is none. -/
def flag (r : Record) (i : Nat) : Bool :=
  match r.scalar i with
  | .bool b => b
  | _ => false

/-- The moment in a slot, if there is one. -/
def moment? (r : Record) (i : Nat) : Option Moment :=
  match r.scalar i with
  | .zoned m => some m
  | _ => none

/-- The nested record in a slot, if it is set. -/
def nested? (r : Record) (i : Nat) : Option Record :=
  match r.slots[i]? with
  | some (.nested n) => n
  | _ => none

/-- The records of a collection, if it is carried. -/
def many? (r : Record) (i : Nat) : Option (List Record) :=
  match r.slots[i]? with
  | some (.many rs) => rs
  | _ => none

/-- One record of a collection. -/
def child? (r : Record) (slot i : Nat) : Option Record := (r.many? slot).bind fun rs => rs[i]?

/-- The record with another record in a place of a collection that has one there. -/
def setChild (r : Record) (slot i : Nat) (child : Record) : Record :=
  match r.many? slot with
  | some rs => r.setSlot slot (.many (some (rs.set i child)))
  | none => r

mutual

/-- How many levels of carried collections are below a record. -/
def depth : Record → Nat
  | mk ss => slotsDepth ss

/-- The greatest `slotDepth` of some slots. -/
def slotsDepth : List Slot → Nat
  | [] => 0
  | s :: ss => max (slotDepth s) (slotsDepth ss)

/-- A carried collection is one level deeper than its deepest record. -/
def slotDepth : Slot → Nat
  | .scalar _ => 0
  | .nested _ => 0
  | .many none => 0
  | .many (some rs) => recordsDepth rs + 1

/-- The greatest depth of some records. -/
def recordsDepth : List Record → Nat
  | [] => 0
  | r :: rs => max r.depth (recordsDepth rs)

end

end Record

end RecordGraph
