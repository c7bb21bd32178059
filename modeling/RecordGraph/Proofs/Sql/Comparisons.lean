/-
  Comparisons in the text of a condition.

  A written comparison shows where it ends: the closing quote of a name is doubled inside of
  it, no operator is the beginning of another, and a parameter mark goes on for as long as
  there are digits.  So neither a name with ` and ` in it nor the `and` of a range takes part in
  the expression around the comparison (`delimited_rendered`).
-/
import Mathlib.Data.List.Infix
import RecordGraph.Proofs.Sql.Grammar
import RecordGraph.Sql.Condition

namespace RecordGraph

variable {d : Dialect} {n m : Nat} {r s : List Char}

/-! ## Names -/

@[simp] theorem Dialect.doubled_self (c : Char) (cs : List Char) :
    doubled c (c :: cs) = c :: c :: doubled c cs := if_pos rfl

@[simp] theorem Dialect.doubled_ne {close c : Char} (h : c ≠ close) (cs : List Char) :
    doubled close (c :: cs) = c :: doubled close cs := if_neg h

/-- The end of a quoted name is where its closing quote is not doubled. -/
theorem Dialect.doubled_cancel {close : Char} {x y r s : List Char}
    (hr : r.head? ≠ some close) (hs : s.head? ≠ some close)
    (h : doubled close x ++ close :: r = doubled close y ++ close :: s) : x = y ∧ r = s := by
  induction x generalizing y with
  | nil =>
    cases y with
    | nil => exact ⟨rfl, (List.cons.inj h).2⟩
    | cons b y =>
      by_cases hb : b = close
      · subst hb
        simp only [doubled_self, List.cons_append] at h
        obtain ⟨-, rfl⟩ := List.cons.inj h
        exact (hr rfl).elim
      · rw [doubled_ne hb] at h
        exact (hb (List.cons.inj h).1.symm).elim
  | cons a x ih =>
    cases y with
    | nil =>
      by_cases ha : a = close
      · subst ha
        simp only [doubled_self, List.cons_append] at h
        obtain ⟨-, rfl⟩ := List.cons.inj h
        exact (hs rfl).elim
      · rw [doubled_ne ha] at h
        exact (ha (List.cons.inj h).1).elim
    | cons b y =>
      by_cases ha : a = close <;> by_cases hb : b = close
      · subst ha hb
        simp only [doubled_self, List.cons_append, List.cons.injEq, true_and] at h
        obtain ⟨rfl, rfl⟩ := ih h
        exact ⟨rfl, rfl⟩
      · subst ha
        rw [doubled_self, doubled_ne hb] at h
        exact (hb (List.cons.inj h).1.symm).elim
      · subst hb
        rw [doubled_self, doubled_ne ha] at h
        exact (ha (List.cons.inj h).1).elim
      · rw [doubled_ne ha, doubled_ne hb] at h
        simp only [List.cons_append, List.cons.injEq] at h
        obtain ⟨rfl, h⟩ := h
        obtain ⟨rfl, rfl⟩ := ih h
        exact ⟨rfl, rfl⟩

theorem Dialect.toList_quote (d : Dialect) (name : String) : (d.quote name).toList =
    d.openQuote :: (doubled d.closeQuote name.toList ++ [d.closeQuote]) := by
  simp [quote]

theorem Dialect.quote_cancel {a b : String} (hr : r.head? ≠ some d.closeQuote)
    (hs : s.head? ≠ some d.closeQuote)
    (h : (d.quote a).toList ++ r = (d.quote b).toList ++ s) : a = b ∧ r = s := by
  simp only [toList_quote, List.cons_append, List.append_assoc, List.nil_append, List.cons.injEq,
    true_and] at h
  obtain ⟨hab, rfl⟩ := doubled_cancel hr hs h
  exact ⟨String.toList_inj.1 hab, rfl⟩

/-! ## Parameter marks -/

/-- The text does not go on with a digit. -/
def NoDigit (r : List Char) : Prop := ∀ c, r.head? = some c → c.isDigit = false

theorem EndsPrimary.noDigit (h : EndsPrimary r) : NoDigit r := by
  intro c hc
  rcases h with ((rfl | ⟨t, rfl⟩) | ⟨t, rfl⟩) | ⟨t, rfl⟩
  · cases hc
  all_goals
    cases hc
    rfl

theorem takeWhile_isDigit {x : List Char} (hx : ∀ c ∈ x, c.isDigit = true) (hr : NoDigit r) :
    (x ++ r).takeWhile Char.isDigit = x := by
  rw [List.takeWhile_append_of_pos hx]
  cases r with
  | nil => simp
  | cons c r => simp [hr c rfl]

theorem isDigit_toString {c : Char} (h : c ∈ (toString n).toList) : c.isDigit = true := by
  rw [Nat.toString_eq_repr, Nat.repr_eq_ofList_toDigits, String.toList_ofList] at h
  exact Nat.isDigit_of_mem_toDigits (by decide) (by decide) h

/-- The mark of a parameter ends where its digits do. -/
theorem Dialect.placeholder_cancel (hr : NoDigit r) (hs : NoDigit s)
    (h : (d.placeholder n).toList ++ r = (d.placeholder m).toList ++ s) :
    d.placeholder n = d.placeholder m ∧ r = s := by
  have hdigits {i j : Nat} (h : (toString i).toList ++ r = (toString j).toList ++ s) :
      toString i = toString j ∧ r = s := by
    have hij := congrArg (List.takeWhile Char.isDigit) h
    rw [takeWhile_isDigit (fun _ => isDigit_toString) hr,
      takeWhile_isDigit (fun _ => isDigit_toString) hs] at hij
    rw [hij] at h
    exact ⟨String.toList_inj.1 hij, List.append_cancel_left h⟩
  cases d with
  | postgres =>
    simp only [placeholder, String.toList_append, List.append_assoc] at h ⊢
    obtain ⟨hij, rfl⟩ := hdigits (List.append_cancel_left h)
    exact ⟨by rw [hij], rfl⟩
  | sqlServer =>
    simp only [placeholder, String.toList_append, List.append_assoc] at h ⊢
    obtain ⟨hij, rfl⟩ := hdigits (List.append_cancel_left h)
    exact ⟨by rw [hij], rfl⟩

/-! ## Operators -/

/-- What stands after an operator. -/
inductive Operands where
  | none
  | one
  /-- The bounds of a range. -/
  | two
  /-- Values in parentheses. -/
  | list
  deriving DecidableEq

/-- What stands after an operator; a test for true or false has no operator. -/
def Operator.operands : Operator → Option Operands
  | isNull => some .none
  | between => some .two
  | isIn => some .list
  | isTrue | isFalse => none
  | _ => some .one

/-- An operator as it stands between a name and its operands. -/
def Operator.word (op : Operator) (inverted : Bool) : List Char :=
  (" " ++ op.rendered inverted).toList ++
    match op.operands with
    | some .none => []
    | some .list => [' ', '(']
    | _ => [' ']

def operatorWords : List (List Char × Operands) :=
  Operator.all.flatMap fun op =>
    op.operands.toList.flatMap fun k => [(op.word false, k), (op.word true, k)]

theorem mem_operatorWords {op : Operator} {k : Operands} (h : op.operands = some k)
    (inverted : Bool) : (op.word inverted, k) ∈ operatorWords := by
  cases op <;> cases h <;> cases inverted <;> decide +kernel

theorem operatorWords_apart : ∀ e ∈ operatorWords, ∀ e' ∈ operatorWords,
    e.1.isPrefixOf e'.1 = true → e = e' := by decide +kernel

theorem operatorWords_head : ∀ e ∈ operatorWords, e.1.head? = some ' ' := by decide +kernel

/-- No operator goes on where another one ends. -/
theorem operatorWords_cancel {e e' : List Char × Operands} (he : e ∈ operatorWords)
    (he' : e' ∈ operatorWords) (h : e.1 ++ r = e'.1 ++ s) : e = e' ∧ r = s := by
  have hee : e = e' := by
    rcases List.append_eq_append_iff.1 h with ⟨t, ht, -⟩ | ⟨t, ht, -⟩
    · exact operatorWords_apart e he e' he' (List.isPrefixOf_iff_prefix.2 ⟨t, ht.symm⟩)
    · exact (operatorWords_apart e' he' e he (List.isPrefixOf_iff_prefix.2 ⟨t, ht.symm⟩)).symm
  subst hee
  exact ⟨rfl, List.append_cancel_left h⟩

/-! ## Operands -/

/-- The text of operands. -/
inductive Tail (d : Dialect) : Operands → List Char → Prop
  | none : Tail d .none []
  | one (n : Nat) : Tail d .one (d.placeholder n).toList
  | two (n m : Nat) : Tail d .two ((d.placeholder n).toList ++ (andWord ++ (d.placeholder m).toList))
  | last (n : Nat) : Tail d .list ((d.placeholder n).toList ++ [')'])
  | more (n : Nat) {t : List Char} : Tail d .list t →
      Tail d .list ((d.placeholder n).toList ++ (',' :: ' ' :: t))

theorem noDigit_cons {c : Char} (h : c.isDigit = false) : NoDigit (c :: r) := by
  rintro _ ⟨⟩
  exact h

theorem noDigit_and : NoDigit (andWord ++ s) := EndsPrimary.noDigit (.inr ⟨s, rfl⟩)

theorem Tail.cancel {k : Operands} {t t' : List Char} (ht : Tail d k t) (ht' : Tail d k t')
    (hr : EndsPrimary r) (hs : EndsPrimary s) (h : t ++ r = t' ++ s) : t = t' := by
  induction ht generalizing t' with
  | none => cases ht'; rfl
  | one n =>
    cases ht' with
    | one m =>
      rw [(Dialect.placeholder_cancel hr.noDigit hs.noDigit h).1]
  | two n m =>
    cases ht' with
    | two n' m' =>
      simp only [List.append_assoc] at h
      obtain ⟨hn, h⟩ := Dialect.placeholder_cancel noDigit_and noDigit_and h
      have hm := Dialect.placeholder_cancel hr.noDigit hs.noDigit (List.append_cancel_left h)
      rw [hn, hm.1]
  | last n =>
    cases ht' with
    | last m =>
      simp only [List.append_assoc, List.cons_append] at h
      rw [(Dialect.placeholder_cancel (noDigit_cons rfl) (noDigit_cons rfl) h).1]
    | more m ht' =>
      simp only [List.append_assoc, List.cons_append] at h
      have hend := (Dialect.placeholder_cancel (noDigit_cons rfl) (noDigit_cons rfl) h).2
      simp at hend
  | more n ht ih =>
    cases ht' with
    | last m =>
      simp only [List.append_assoc, List.cons_append] at h
      have hend := (Dialect.placeholder_cancel (noDigit_cons rfl) (noDigit_cons rfl) h).2
      simp at hend
    | more m ht' =>
      simp only [List.append_assoc, List.cons_append] at h
      obtain ⟨hn, h⟩ := Dialect.placeholder_cancel (noDigit_cons rfl) (noDigit_cons rfl) h
      simp only [List.cons.injEq, true_and] at h
      rw [hn, ih ht' h]

/-! ## Comparisons -/

/-- What follows the column in a test that takes null for false. -/
def testEnd : Dialect → Bool → String
  | .postgres, true => "," ++ "false" ++ ")=" ++ "true"
  | .postgres, false => "," ++ "false" ++ ")=" ++ "false"
  | .sqlServer, true => "," ++ "0" ++ ")=" ++ "1"
  | .sqlServer, false => "," ++ "0" ++ ")=" ++ "0"

theorem booleanTest_eq (column : Fragment) (expected : Bool) :
    d.booleanTest column expected =
      .text "coalesce(" :: column ++ [.text (testEnd d expected)] := by
  cases d <;> cases expected <;> rfl

theorem testEnd_apart : ∀ b b',
    (testEnd d b).toList.isPrefixOf (testEnd d b').toList = true → b = b' := by
  cases d <;> decide +kernel

/-- The text of a comparison. -/
inductive Comparison (d : Dialect) : List Char → Prop
  | operator (name : String) {e : List Char × Operands} {t : List Char} : e ∈ operatorWords →
      Tail d e.2 t → Comparison d ((d.quote name).toList ++ (e.1 ++ t))
  | test (name : String) (expected : Bool) :
      Comparison d ("coalesce(".toList ++ ((d.quote name).toList ++ (testEnd d expected).toList))
  | constant (b : Bool) : Comparison d (if b then "1=1" else "1=0").toList

theorem head_ne_closeQuote {c : Char} (h : r.head? = some c) (hc : c = ' ' ∨ c = ',') :
    r.head? ≠ some d.closeQuote := by
  rw [h]
  rcases hc with rfl | rfl <;> cases d <;> decide

theorem head_append {c : Char} (h : r.head? = some c) (s : List Char) :
    (r ++ s).head? = some c := by
  rw [List.head?_append, h]
  rfl

theorem head_testEnd : ∀ b, (testEnd d b).toList.head? = some ',' := by
  cases d <;> decide +kernel

theorem Dialect.openQuote_ne (d : Dialect) : d.openQuote ≠ 'c' ∧ d.openQuote ≠ '1' := by
  cases d <;> decide

/-- A comparison begins with a quoted name, with the name of a function or with a digit. -/
theorem Comparison.head (h : Comparison d s) :
    (∃ name e t, e ∈ operatorWords ∧ Tail d e.2 t ∧ s = (d.quote name).toList ++ (e.1 ++ t) ∧
      s.head? = some d.openQuote) ∨
    (∃ name b, s = "coalesce(".toList ++ ((d.quote name).toList ++ (testEnd d b).toList) ∧
      s.head? = some 'c') ∨
    (∃ b : Bool, s = (if b then "1=1" else "1=0").toList ∧ s.head? = some '1') := by
  cases h with
  | operator name he ht =>
    exact .inl ⟨name, _, _, he, ht, rfl, by rw [Dialect.toList_quote]; rfl⟩
  | test name b => exact .inr (.inl ⟨name, b, rfl, rfl⟩)
  | constant b => exact .inr (.inr ⟨b, rfl, by cases b <;> rfl⟩)

theorem Comparison.cancel {a b : List Char} (ha : Comparison d a) (hb : Comparison d b)
    (hr : EndsPrimary r) (hs : EndsPrimary s) (h : a ++ r = b ++ s) : a = b := by
  have hhead {c c' : Char} (hc : a.head? = some c) (hc' : b.head? = some c') : c = c' := by
    have hac := head_append hc r
    rw [h, head_append hc' s] at hac
    exact (Option.some.inj hac).symm
  obtain ⟨hc, h1⟩ := d.openQuote_ne
  rcases ha.head with ⟨name, e, t, he, ht, rfl, ha⟩ | ⟨name, x, rfl, ha⟩ | ⟨x, rfl, ha⟩ <;>
    rcases hb.head with ⟨name', e', t', he', ht', rfl, hb⟩ | ⟨name', y, rfl, hb⟩ | ⟨y, rfl, hb⟩
  · simp only [List.append_assoc] at h
    have hq {e : List Char × Operands} (he : e ∈ operatorWords) (t : List Char) :
        (e.1 ++ t).head? ≠ some d.closeQuote :=
      head_ne_closeQuote (head_append (operatorWords_head e he) t) (.inl rfl)
    obtain ⟨rfl, hrest⟩ := Dialect.quote_cancel (hq he _) (hq he' _) h
    obtain ⟨rfl, htail⟩ := operatorWords_cancel he he' hrest
    rw [ht.cancel ht' hr hs htail]
  · exact (hc (hhead ha hb)).elim
  · exact (h1 (hhead ha hb)).elim
  · exact (hc (hhead ha hb).symm).elim
  · simp only [List.append_assoc] at h
    have hq (b : Bool) (t : List Char) : ((testEnd d b).toList ++ t).head? ≠ some d.closeQuote :=
      head_ne_closeQuote (head_append (head_testEnd b) t) (.inr rfl)
    obtain ⟨rfl, hend⟩ := Dialect.quote_cancel (hq x _) (hq y _) (List.append_cancel_left h)
    rcases List.append_eq_append_iff.1 hend with ⟨t, ht, -⟩ | ⟨t, ht, -⟩
    · rw [testEnd_apart x y (List.isPrefixOf_iff_prefix.2 ⟨t, ht.symm⟩)]
    · rw [testEnd_apart y x (List.isPrefixOf_iff_prefix.2 ⟨t, ht.symm⟩)]
  · exact absurd (hhead ha hb) (by decide)
  · exact (h1 (hhead ha hb).symm).elim
  · exact absurd (hhead ha hb) (by decide)
  · cases x <;> cases y
    · rfl
    · simp at h
    · simp at h
    · rfl

/-! ## Written leaves -/

theorem toList_sqlFrom_text (t : String) (f : Fragment) :
    (Fragment.sqlFrom d n (.text t :: f)).toList = t.toList ++ (f.sqlFrom d n).toList := by
  rw [Fragment.sqlFrom, String.toList_append]

theorem toList_sqlFrom_name (name : String) (f : Fragment) :
    (Fragment.sqlFrom d n (.name name :: f)).toList =
      (d.quote name).toList ++ (f.sqlFrom d n).toList := by
  rw [Fragment.sqlFrom, String.toList_append]

theorem toList_sqlFrom_bind (v : Value) (f : Fragment) :
    (Fragment.sqlFrom d n (.bind v :: f)).toList =
      (d.placeholder n).toList ++ (f.sqlFrom d (n + 1)).toList := by
  rw [Fragment.sqlFrom, String.toList_append]

theorem tail_values {vs : List Value} (hne : vs ≠ []) (n : Nat) :
    Tail d .list (Fragment.sqlFrom d n
      (Fragment.joined ", " (vs.map fun v => [.bind v]) ++ [.text ")"])).toList := by
  induction vs generalizing n with
  | nil => exact (hne rfl).elim
  | cons v vs ih =>
    cases vs with
    | nil =>
      simp only [List.map_cons, List.map_nil, Fragment.joined, List.cons_append, List.nil_append,
        toList_sqlFrom_bind, toList_sqlFrom_text]
      exact .last n
    | cons v' vs =>
      simp only [List.map_cons, Fragment.joined, List.cons_append, List.nil_append,
        toList_sqlFrom_bind, toList_sqlFrom_text]
      exact .more n (ih (by simp) (n + 1))

/-- What is written for a comparison with a column. -/
inductive Leaf.Writes (d : Dialect) (field : String) (inverted : Bool) :
    Operator → Operand → Fragment → Prop
  | isNull (operand : Operand) : Writes d field inverted .isNull operand
      [.name field, .text (" " ++ Operator.isNull.rendered inverted)]
  | isTrue (operand : Operand) :
      Writes d field inverted .isTrue operand (d.booleanTest [.name field] !inverted)
  | isFalse (operand : Operand) :
      Writes d field inverted .isFalse operand (d.booleanTest [.name field] inverted)
  | bounds {low high : Value} : low.isNull = false → high.isNull = false →
      Writes d field inverted .between (.range low high)
        [.name field, .text (" " ++ Operator.between.rendered inverted), .text " ", .bind low,
          .text " and ", .bind high]
  | noValues : Writes d field inverted .isIn (.list []) [.text (if inverted then "1=1" else "1=0")]
  | values (v : Value) (vs : List Value) : Writes d field inverted .isIn (.list (v :: vs))
      (.name field :: .text (" " ++ Operator.isIn.rendered inverted) :: .text " (" ::
        (Fragment.joined ", " ((v :: vs).map fun v => [.bind v]) ++ [.text ")"]))
  | member (v : Value) : Writes d field inverted .isIn (.single v)
      [.name field, .text (" " ++ Operator.isIn.rendered inverted), .text " (", .bind v, .text ")"]
  | value {op : Operator} {v : Value} : op.operands = some .one → v.isNull = false →
      Writes d field inverted op (.single v)
        [.name field, .text (" " ++ op.rendered inverted), .text " ", .bind v]

theorem Leaf.writes {l : Leaf} {f : Fragment} (h : l.fragment d = .ok f) :
    l.field ≠ "" ∧ Writes d l.field l.inverted l.op l.operand f := by
  obtain ⟨field, op, operand, inverted⟩ := l
  unfold Leaf.fragment at h
  split at h
  · cases h
  rename_i hfield
  refine ⟨by simpa using hfield, ?_⟩
  cases op
  case isNull => cases h; exact .isNull operand
  case isTrue => cases h; cases inverted <;> exact .isTrue operand
  case isFalse => cases h; cases inverted <;> exact .isFalse operand
  case between =>
    cases operand with
    | range low high =>
      dsimp only at h
      split at h
      · cases h
      · rename_i hnull
        cases h
        rw [Bool.or_eq_true, not_or, Bool.not_eq_true, Bool.not_eq_true] at hnull
        exact .bounds hnull.1 hnull.2
    | _ => cases h
  case isIn =>
    cases operand with
    | list vs =>
      cases vs with
      | nil => cases h; exact .noValues
      | cons v vs => cases h; exact .values v vs
    | single v => cases h; exact .member v
    | _ => cases h
  all_goals
    cases operand with
    | single v =>
      dsimp only at h
      split at h
      · cases h
      · rename_i hnull
        cases h
        exact .value rfl (Bool.not_eq_true _ ▸ hnull)
    | _ => cases h

/-- A leaf is written as a comparison. -/
theorem Leaf.comparison {l : Leaf} {f : Fragment} (h : l.fragment d = .ok f) (n : Nat) :
    Comparison d (f.sqlFrom d n).toList := by
  obtain ⟨field, op, operand, inverted⟩ := l
  have hword {k : Operands} {t : List Char} (hk : op.operands = some k) (ht : Tail d k t) :
      Comparison d ((d.quote field).toList ++ (op.word inverted ++ t)) :=
    .operator field (mem_operatorWords hk inverted) ht
  have htest (expected : Bool) : Comparison d
      (Fragment.sqlFrom d n (d.booleanTest [.name field] expected)).toList := by
    simpa [booleanTest_eq, toList_sqlFrom_name, toList_sqlFrom_text, Fragment.sqlFrom]
      using Comparison.test field expected
  cases (writes h).2 with
  | isNull => simpa [Operator.word, Operator.operands, Fragment.sqlFrom] using hword rfl .none
  | isTrue => exact htest _
  | isFalse => exact htest _
  | bounds =>
    simpa [Operator.word, Operator.operands, Fragment.sqlFrom, andWord]
      using hword rfl (.two n (n + 1))
  | noValues => simpa [Fragment.sqlFrom] using Comparison.constant inverted
  | values v vs =>
    simpa [Operator.word, Operator.operands, toList_sqlFrom_name, toList_sqlFrom_text]
      using hword rfl (tail_values (List.cons_ne_nil v vs) n)
  | member => simpa [Operator.word, Operator.operands, Fragment.sqlFrom] using hword rfl (.last n)
  | value hop => simpa [Operator.word, hop, Fragment.sqlFrom] using hword hop (.one n)

/-- The text is that of a written leaf. -/
def Rendered (d : Dialect) (s : String) : Prop :=
  ∃ (l : Leaf) (f : Fragment) (n : Nat), l.fragment d = .ok f ∧ f.sqlFrom d n = s

theorem delimited_rendered (d : Dialect) : Delimited (Rendered d) where
  cancel := by
    rintro a b r s ⟨l, f, n, hf, rfl⟩ ⟨l', f', n', hf', rfl⟩ hr hs h
    exact String.toList_inj.1 ((Leaf.comparison hf n).cancel (Leaf.comparison hf' n') hr hs h)
  bare := by
    rintro a cs ⟨l, f, n, hf, rfl⟩ h
    rcases (Leaf.comparison hf n).head with ⟨_, _, _, _, _, _, hh⟩ | ⟨_, _, _, hh⟩ | ⟨_, _, hh⟩ <;>
      rw [h] at hh <;> cases d <;> simp [Dialect.openQuote] at hh

end RecordGraph
