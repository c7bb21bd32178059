/-
  When two records are the same, and when they differ.

  * `sameIdentity`: both have been stored, and their key fields are equal.
  * `differs`: a value, or the key of a nested record, is not the same in both.
    Collections are not compared.
-/
import RecordGraph.Record.Access

namespace RecordGraph

variable {τ : Type} [Model τ]

/-- Two records in different places stand for the same stored record. -/
def sameIdentity (t : τ) (keys : List String) (a b : Record) : Bool :=
  !isNew t a && !isNew t b &&
    keys.all fun k => Value.optionEqv (resolveValue t a k) (resolveValue t b k)

/-- A record in one place is the same as itself, whatever its key is. -/
def sameIdentityAt (t : τ) (keys : List String) (samePlace : Bool) (a b : Record) : Bool :=
  samePlace || sameIdentity t keys a b

/-- The content of one field is not the same in both records. -/
def accessDiffers (access : Access τ) (a b : Record) : Bool :=
  match access with
  | .stored slot _ => !(a.scalar slot).eqv (b.scalar slot)
  | .computed get => !(get a).eqv (get b)
  | .nested slot target =>
    !Value.optionEqv ((a.nested? slot).map (keyOf target)) ((b.nested? slot).map (keyOf target))
  | .many .. => false

/-- Some field of the records is not the same. -/
def differs (t : τ) (a b : Record) : Bool :=
  (fieldsOf t).entries.any fun e => accessDiffers e.2 a b

end RecordGraph
