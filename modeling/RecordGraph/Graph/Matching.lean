/-
  What has changed between two lists of records, or of keys.

  * `pairUp` pairs every element of one list with the first free element of
    another that is the same; what is left over on either side is kept apart.
  * `Changes.between` compares the stored records of a collection with the ones to
    be saved; `membershipChanges` does so with the keys in a link table.
-/
import RecordGraph.Record.Identity

namespace RecordGraph

/-! ## Pairing -/

/-- Pairs of elements, and elements without a counterpart, all with their places. -/
structure Pairing (α β : Type) where
  pairs : List ((Nat × α) × (Nat × β))
  /-- New elements without an old one. -/
  added : List (Nat × α)
  /-- Old elements without a new one. -/
  removed : List (Nat × β)

/-- Pairs each new element with the first of the free old ones that is the same. -/
def pairUp {α β : Type} (same : α → β → Bool) :
    (new : List (Nat × α)) → (free : List (Nat × β)) → Pairing α β
  | [], free => ⟨[], [], free⟩
  | n :: ns, free =>
    match free.find? fun o => same n.2 o.2 with
    | some o =>
      let rest := pairUp same ns (free.eraseP fun o => same n.2 o.2)
      ⟨(n, o) :: rest.pairs, rest.added, rest.removed⟩
    | none =>
      let rest := pairUp same ns free
      ⟨rest.pairs, n :: rest.added, rest.removed⟩

/-- The elements of a list with their places. -/
def placed {α : Type} (xs : List α) : List (Nat × α) := xs.mapIdx fun i x => (i, x)

/-! ## Records -/

/-- How a collection has changed, by places in the old and in the new list. -/
structure Changes where
  /-- Old records that are not in the new list. -/
  deletions : List Nat
  /-- New records that are not in the old list. -/
  insertions : List Nat
  /-- New and old place of a record whose fields differ. -/
  updates : List (Nat × Nat)
  /-- New and old place of a record whose fields are the same. -/
  unchanged : List (Nat × Nat)
  deriving DecidableEq

namespace Changes

/-- Every one of `n` new records is an insertion. -/
def allInserted (n : Nat) : Changes := ⟨[], List.range n, [], []⟩

variable {τ : Type} [Model τ]

/-- The changes from an old list of records to a new one.  Records are the same if
    their keys are, and a record that is not stored yet is never the same as
    another. -/
def between (t : τ) (keys : List String) (old new : List Record) : Changes :=
  let p := pairUp (fun n o => sameIdentity t keys o n) (placed new) (placed old)
  let ofKind (changed : Bool) : List (Nat × Nat) :=
    (p.pairs.filter fun (n, o) => differs t o.2 n.2 == changed).map fun (n, o) => (n.1, o.1)
  ⟨p.removed.map Prod.fst, p.added.map Prod.fst, ofKind true, ofKind false⟩

end Changes

/-! ## Keys -/

/-- The places of the old keys to unlink and of the new keys to link. -/
def membershipChanges (old new : List Value) : List Nat × List Nat :=
  let p := pairUp (fun n o => o.eqv n) (placed new) (placed old)
  (p.removed.map Prod.fst, p.added.map Prod.fst)

end RecordGraph
