/-
  The order of the rows of a select: keys, each ascending until it is settled
  otherwise.
-/
import RecordGraph.Error
import RecordGraph.Sql.Fragment

namespace RecordGraph

/-- One column to order by. -/
structure OrderKey where
  field : String
  descending : Bool
  deriving DecidableEq

/-- Keys in the order of their weight; `unsettled` while the direction of the last
    one may still be given. -/
structure OrderBy where
  keys : List OrderKey
  unsettled : Bool
  deriving DecidableEq

namespace OrderBy

/-- No order. -/
def none : OrderBy := ⟨[], false⟩

/-- Appends a key, ascending until it is settled. -/
def push (o : OrderBy) (field : String) : OrderBy := ⟨o.keys ++ [⟨field, false⟩], true⟩

/-- The complaint about a direction that belongs to no key. -/
def strayDirection : Error := .validation "ordering direction given without a pending order key"

/-- Gives the last key the direction `descending`. -/
def settleLast (descending : Bool) : List OrderKey → List OrderKey
  | [] => []
  | [k] => [⟨k.field, descending⟩]
  | k :: ks => k :: settleLast descending ks

/-- Settles the direction of the last key. -/
def settle (o : OrderBy) (descending : Bool) : Result OrderBy :=
  if o.unsettled then .ok ⟨settleLast descending o.keys, false⟩ else .error strayDirection

/-- One key as text. -/
def keyFragment (k : OrderKey) : Fragment :=
  if k.descending then [.name k.field, .text " desc"] else [.name k.field]

/-- The clause, or nothing without keys. -/
def fragment (o : OrderBy) : Fragment :=
  if o.keys.isEmpty then [] else .text "order by " :: Fragment.joined ", " (o.keys.map keyFragment)

end OrderBy

end RecordGraph
