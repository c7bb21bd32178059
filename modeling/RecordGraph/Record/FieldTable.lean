/-
  Tables of named entries in the order of their first registration.

  * `FieldTable.insert` appends an entry under a new name and replaces the entry
    of a name that is there, in its place.
  * Look-up goes through an index from names to positions; `FieldTable.Consistent`
    says that the index and the entries agree.
-/
namespace RecordGraph

/-- Entries under names, with an index from names to positions. -/
structure FieldTable (α : Type) where
  entries : List (String × α)
  index : List (String × Nat)

namespace FieldTable

variable {α : Type}

/-- No entries. -/
def empty : FieldTable α := ⟨[], []⟩

/-- Puts an entry under a name: in place if the name is there, else at the end. -/
def insert (t : FieldTable α) (name : String) (entry : α) : FieldTable α :=
  match t.index.lookup name with
  | some i => ⟨t.entries.modify i fun e => (e.1, entry), t.index⟩
  | none => ⟨t.entries ++ [(name, entry)], t.index ++ [(name, t.entries.length)]⟩

/-- The table of a list of registrations, in their order. -/
def ofList (registrations : List (String × α)) : FieldTable α :=
  registrations.foldl (fun t r => t.insert r.1 r.2) empty

/-- The entry under a name. -/
def get? (t : FieldTable α) (name : String) : Option α :=
  (t.index.lookup name).bind fun i => t.entries[i]?.map Prod.snd

def contains (t : FieldTable α) (name : String) : Bool := (t.index.lookup name).isSome

/-- The names in the order of their first registration. -/
def names (t : FieldTable α) : List String := t.entries.map Prod.fst

/-- Index and entries agree: a name has a position in the index exactly if the
    entry there has that name, and no two entries share a name. -/
def Consistent (t : FieldTable α) : Prop :=
  (∀ name i, t.index.lookup name = some i ↔ t.names[i]? = some name) ∧ t.names.Nodup

end FieldTable

end RecordGraph
