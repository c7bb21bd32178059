/-
  Conditions as documents: the calls that build one, in their order, and the tree
  that they build.
-/
import RecordGraph.Document.Value
import RecordGraph.Sql.Condition
import RecordGraph.Sql.OrderBy

namespace RecordGraph

/-! ## Writing -/

def Operand.document : Operand → Json
  | nothing => .null
  | single v => .tagged "single" v.document
  | range low high => .tagged "range" (.array [low.document, high.document])
  | list vs => .tagged "list" (.array (vs.map Value.document))

namespace Condition

mutual

/-- The document of a tree. -/
def document : Condition → Json
  | node l orJoined children =>
    .ofMembers [("field", .string l.field), ("op", .string l.op.symbol),
      ("operand", l.operand.document), ("invert", .bool l.inverted), ("or", .bool orJoined),
      ("children", .array (documents children))]

/-- The documents of some trees. -/
def documents : List Condition → List Json
  | [] => []
  | c :: cs => c.document :: documents cs

end

end Condition

def OrderBy.document (o : OrderBy) : Json :=
  .array (o.keys.map fun k => .array [.string k.field, .bool k.descending])

/-! ## Reading -/

namespace Json

def asOperator (j : Json) : Read Operator := do
  match Operator.ofSymbol? (← j.asText) with
  | some op => return op
  | none => misread "operator"

def asOperand : Json → Read Operand
  | .null => .ok .nothing
  | .object [("single", v)] => return .single (← v.asValue)
  | .object [("range", .array [low, high])] => return .range (← low.asValue) (← high.asValue)
  | .object [("list", vs)] => return .list (← vs.asValues)
  | _ => misread "operand"

/-- Reads the keys of records of a type, given by the documents of both. -/
abbrev KeyReader := (type records : Json) → Read (List Value)

/-- The condition after a call that attaches no other condition. -/
def leafCall (keysOf : KeyReader) (c : Condition) : Json → Read Condition
  | .array [.string "field", f] => return c.onField (← f.asText)
  | .array [.string "not"] => .ok c.inverted
  | .array [.string "eq", v] => return c.isEqualTo (← v.asValue)
  | .array [.string "like", v] => return c.isLike (← v.asValue)
  | .array [.string "contains", v] => return c.contains (← v.asValue)
  | .array [.string "gt", v] => return c.isGreaterThan (← v.asValue)
  | .array [.string "ge", v] => return c.isGreaterOrEqual (← v.asValue)
  | .array [.string "lt", v] => return c.isLessThan (← v.asValue)
  | .array [.string "le", v] => return c.isLessOrEqual (← v.asValue)
  | .array [.string "in", vs] => return c.isIn (← vs.asValues)
  | .array [.string "in_records", type, records] => return c.isIn (← keysOf type records)
  | .array [.string "null"] => .ok c.isNull
  | .array [.string "true"] => .ok c.isTrue
  | .array [.string "false"] => .ok c.isFalse
  | .array [.string "between", low, high] =>
    return c.isBetween (← low.asValue) (← high.asValue)
  | .array [.string "leaf", f, op, operand] =>
    return .ofLeaf (← f.asText) (← op.asOperator) (← operand.asOperand)
  | _ => misread "condition call"

/-- The condition after some calls. -/
def conditionCalls (keysOf : KeyReader) (c : Condition) : List Json → Read Condition
  | [] => .ok c
  | .array [.string "and", .array calls] :: rest => do
    let child ← conditionCalls keysOf .blank calls
    conditionCalls keysOf (c.and child) rest
  | .array [.string "or", .array calls] :: rest => do
    let child ← conditionCalls keysOf .blank calls
    conditionCalls keysOf (c.or child) rest
  | call :: rest => do
    conditionCalls keysOf (← leafCall keysOf c call) rest
termination_by calls => sizeOf calls
decreasing_by all_goals (simp; try omega)

def asCondition (keysOf : KeyReader) (j : Json) : Read Condition := do
  conditionCalls keysOf .blank (← j.asList)

/-- Conditions with the word that joins each to what stands before it. -/
def asConditions (keysOf : KeyReader) (j : Json) : Read (List Condition) := do
  (← j.asList).mapM fun entry => do
    match ← entry.asList with
    | [.string "and", calls] => calls.asCondition keysOf
    | [.string "or", calls] => return (← calls.asCondition keysOf).joinedByOr
    | _ => misread "condition"

end Json

end RecordGraph
