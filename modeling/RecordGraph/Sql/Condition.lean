/-
  Conditions on rows: trees of comparisons.

  * A `Leaf` compares a column with an operand; a `Condition` is a leaf with
    children, each of them joined to what stands before it by `and` or by `or`.
  * `Condition.fragment` writes a tree, one with children in parentheses;
    `Condition.allFragment` writes a list of trees one after the other.
  * The builders (`Condition.isEqualTo`, `Condition.and`, …) change one part of a
    condition and leave the rest.
-/
import RecordGraph.Error
import RecordGraph.Sql.Fragment

namespace RecordGraph

/-! ## Operators -/

/-- The operators of comparisons. -/
inductive Operator where
  | equal
  | like
  | greaterThan
  | greaterOrEqual
  | lessThan
  | lessOrEqual
  | between
  | isIn
  | isNull
  | isTrue
  | isFalse
  deriving DecidableEq

namespace Operator

/-- All operators. -/
def all : List Operator :=
  [equal, like, greaterThan, greaterOrEqual, lessThan, lessOrEqual, between, isIn, isNull,
    isTrue, isFalse]

/-- The text of an operator. -/
def symbol : Operator → String
  | equal => "="
  | like => "like"
  | greaterThan => ">"
  | greaterOrEqual => ">="
  | lessThan => "<"
  | lessOrEqual => "<="
  | between => "between"
  | isIn => "in"
  | isNull => "is null"
  | isTrue => "true"
  | isFalse => "false"

/-- Pairs of texts that negate each other.  The first pair that has a text
    decides. -/
def inversions : List (String × String) :=
  [("=", "!="), (">", "<="), (">=", "<"), ("like", "not like"), ("between", "not between"),
    ("in", "not in"), ("is null", "is not null"), ("true", "false"), ("<", ">="), ("<=", ">")]

/-- The negation of the text of an operator. -/
def invertSymbol? (symbol : String) : Option String :=
  inversions.findSome? fun (a, b) =>
    if a = symbol then some b else if b = symbol then some a else none

/-- The text of an operator, negated or not. -/
def rendered (op : Operator) (inverted : Bool) : String :=
  if inverted then (invertSymbol? op.symbol).getD op.symbol else op.symbol

/-- The operator with the given text. -/
def ofSymbol? (s : String) : Option Operator := all.find? fun op => op.symbol = s

end Operator

/-! ## Trees -/

/-- What a column is compared with. -/
inductive Operand where
  | nothing
  | single (v : Value)
  | range (low high : Value)
  | list (vs : List Value)
  deriving DecidableEq

/-- One comparison. -/
structure Leaf where
  field : String
  op : Operator
  operand : Operand
  inverted : Bool
  deriving DecidableEq

/-- A comparison with more of them below it; `orJoined` tells how it is joined to
    what stands before it. -/
inductive Condition where
  | node (leaf : Leaf) (orJoined : Bool) (children : List Condition)

namespace Condition

def leaf : Condition → Leaf
  | node l _ _ => l

def orJoined : Condition → Bool
  | node _ j _ => j

def children : Condition → List Condition
  | node _ _ cs => cs

/-! ## Faults -/

/-- Why a comparison cannot be written. -/
inductive Fault where
  | noField
  /-- A bound of a range is null. -/
  | nullBound (field : String)
  /-- A range is wanted. -/
  | noBounds (field : String)
  /-- Only the test for null compares with null. -/
  | nullOperand (field : String)
  | noOperand (field : String)
  | rangeOperand (field : String)
  | listOperand (field : String)
  deriving DecidableEq

def Fault.message : Fault → String
  | noField => "condition has no field name"
  | nullBound f => "between on " ++ f ++ " needs two non-null bounds"
  | noBounds f => "between on " ++ f ++ " needs a low and a high bound"
  | nullOperand f => f ++ " compares against null; use is_null"
  | noOperand f => f ++ " has no compare value"
  | rangeOperand f => f ++ " cannot compare with a range"
  | listOperand f => f ++ " cannot compare with a list"

def Fault.toError (f : Fault) : Error := .condition f.message

end Condition

/-! ## Writing -/

/-- A comparison in a dialect.  Membership in an empty list is a constant. -/
def Leaf.fragment (d : Dialect) (l : Leaf) : Except Condition.Fault Fragment :=
  if l.field.isEmpty then .error .noField
  else
    let op := l.op.rendered l.inverted
    let start : Fragment := [.name l.field, .text (" " ++ op)]
    match l.op, l.operand with
    | .isNull, _ => .ok start
    | .isTrue, _ | .isFalse, _ => .ok (d.booleanTest [.name l.field] (op == "true"))
    | .between, .range low high =>
      if low.isNull || high.isNull then .error (.nullBound l.field)
      else .ok (start ++ [.text " ", .bind low, .text " and ", .bind high])
    | .between, _ => .error (.noBounds l.field)
    | .isIn, .list vs =>
      if vs.isEmpty then .ok [.text (if l.inverted then "1=1" else "1=0")]
      else
        .ok (start ++ .text " (" :: Fragment.joined ", " (vs.map fun v => [.bind v]) ++ [.text ")"])
    | .isIn, .single v => .ok (start ++ [.text " (", .bind v, .text ")"])
    | _, .single v =>
      if v.isNull then .error (.nullOperand l.field) else .ok (start ++ [.text " ", .bind v])
    | _, .nothing => .error (.noOperand l.field)
    | _, .range _ _ => .error (.rangeOperand l.field)
    | _, .list _ => .error (.listOperand l.field)

namespace Condition

/-- How a condition is joined to what stands before it. -/
def joiner (c : Condition) : String := if c.orJoined then " or " else " and "

mutual

/-- A tree in a dialect, in parentheses if it has children. -/
def fragment (d : Dialect) : Condition → Except Fault Fragment
  | node l _ children => do
    let own ← l.fragment d
    if children.isEmpty then return own
    let below ← joinedFragment d children
    return .text "(" :: own ++ below ++ [.text ")"]

/-- Trees one after the other, each after its joiner. -/
def joinedFragment (d : Dialect) : List Condition → Except Fault Fragment
  | [] => .ok []
  | c :: cs => do
    let first ← c.fragment d
    let rest ← joinedFragment d cs
    return .text c.joiner :: first ++ rest

end

/-- Trees one after the other; the joiner of the first does not show. -/
def allFragment (d : Dialect) : List Condition → Except Fault Fragment
  | [] => .ok []
  | c :: cs => do
    let first ← c.fragment d
    let rest ← joinedFragment d cs
    return first ++ rest

/-! ## Builders -/

/-- Nothing said yet. -/
def blank : Condition := node ⟨"", .equal, .nothing, false⟩ false []

/-- A comparison of the given parts and nothing else. -/
def ofLeaf (field : String) (op : Operator) (operand : Operand) : Condition :=
  node ⟨field, op, operand, false⟩ false []

def mapLeaf (f : Leaf → Leaf) : Condition → Condition
  | node l j cs => node (f l) j cs

/-- Compares another column. -/
def onField (name : String) : Condition → Condition :=
  mapLeaf fun l => ⟨name, l.op, l.operand, l.inverted⟩

/-- Negates the comparison. -/
def inverted : Condition → Condition := mapLeaf fun l => ⟨l.field, l.op, l.operand, true⟩

/-- Compares in the given way with the given operand. -/
def compare (op : Operator) (operand : Operand) : Condition → Condition :=
  mapLeaf fun l => ⟨l.field, op, operand, l.inverted⟩

def isEqualTo (v : Value) : Condition → Condition := compare .equal (.single v)

def isLike (v : Value) : Condition → Condition := compare .like (.single v)

/-- The column has the text of the value somewhere in it. -/
def contains (v : Value) : Condition → Condition :=
  compare .like (.single (.text ("%" ++ v.display ++ "%")))

def isGreaterThan (v : Value) : Condition → Condition := compare .greaterThan (.single v)

def isGreaterOrEqual (v : Value) : Condition → Condition := compare .greaterOrEqual (.single v)

def isLessThan (v : Value) : Condition → Condition := compare .lessThan (.single v)

def isLessOrEqual (v : Value) : Condition → Condition := compare .lessOrEqual (.single v)

def isIn (vs : List Value) : Condition → Condition := compare .isIn (.list vs)

def isNull : Condition → Condition := compare .isNull .nothing

def isTrue : Condition → Condition := compare .isTrue .nothing

def isFalse : Condition → Condition := compare .isFalse .nothing

def isBetween (low high : Value) : Condition → Condition := compare .between (.range low high)

/-- Attaches a child, joined by `and` unless it says otherwise itself. -/
def and : Condition → (child : Condition) → Condition
  | node l j cs, child => node l j (cs ++ [child])

/-- The same condition joined by `or` to what stands before it. -/
def joinedByOr : Condition → Condition
  | node l _ cs => node l true cs

/-- Attaches a child joined by `or`. -/
def or (c child : Condition) : Condition := c.and child.joinedByOr

end Condition

end RecordGraph
