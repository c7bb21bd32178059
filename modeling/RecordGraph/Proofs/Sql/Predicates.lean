/-
  What a comparison in the text of a statement means.

  * A `Predicate` is a comparison taken apart: a column, an operator, and the parameters that stand
    after it.  A text is that of one predicate at most (`Predicate.text_injective`).
  * `Predicate.truth` is the value of a predicate on a row.  It is unknown where something that is
    compared is null, but tests for null and those that take null for false have a value always.
  * `Predicate.negated` is another predicate, and negates the value on exactly those rows on which a
    test that takes null for false has two values to choose from (`truth_negated_iff`).
-/
import Mathlib.Order.Lattice
import RecordGraph.Proofs.Sql.Scanning

namespace RecordGraph

variable {d : Dialect}

/-! ## Operators of SQL -/

/-- Comparisons of a value with one other value, by their order. -/
inductive OrderTest where
  | equal
  | notEqual
  | greater
  | greaterOrEqual
  | less
  | lessOrEqual
  deriving DecidableEq

namespace OrderTest

def symbol : OrderTest → String
  | equal => "="
  | notEqual => "!="
  | greater => ">"
  | greaterOrEqual => ">="
  | less => "<"
  | lessOrEqual => "<="

def negated : OrderTest → OrderTest
  | equal => notEqual
  | notEqual => equal
  | greater => lessOrEqual
  | greaterOrEqual => less
  | less => greaterOrEqual
  | lessOrEqual => greater

def holds {α : Type} [LinearOrder α] : OrderTest → α → α → Bool
  | equal, x, y => x = y
  | notEqual, x, y => x ≠ y
  | greater, x, y => x > y
  | greaterOrEqual, x, y => x ≥ y
  | less, x, y => x < y
  | lessOrEqual, x, y => x ≤ y

theorem holds_negated {α : Type} [LinearOrder α] (t : OrderTest) (x y : α) :
    t.negated.holds x y = !t.holds x y := by
  cases t with
  | equal | notEqual => simp [negated, holds]
  | greater | less => simp only [negated, holds, gt_iff_lt, ge_iff_le, ← decide_not, not_lt]
  | greaterOrEqual | lessOrEqual =>
    simp only [negated, holds, gt_iff_lt, ge_iff_le, ← decide_not, not_le]

theorem negated_ne (t : OrderTest) : t.negated ≠ t := by cases t <;> decide

end OrderTest

/-- What stands between a column and its operands. -/
inductive Comparator where
  | order (t : OrderTest)
  | like (negated : Bool)
  | between (negated : Bool)
  | among (negated : Bool)
  | isNull (negated : Bool)
  deriving DecidableEq

namespace Comparator

def all : List Comparator :=
  [.order .equal, .order .notEqual, .order .greater, .order .greaterOrEqual, .order .less,
    .order .lessOrEqual, .like false, .like true, .between false, .between true, .among false,
    .among true, .isNull false, .isNull true]

theorem mem_all (c : Comparator) : c ∈ all := by
  cases c with
  | order t => cases t <;> decide
  | _ b => cases b <;> decide

def operands : Comparator → Operands
  | order _ => .one
  | like _ => .one
  | between _ => .two
  | among _ => .list
  | isNull _ => .none

/-- The text between the column and the first operand. -/
def word : Comparator → List Char
  | order t => (" " ++ t.symbol ++ " ").toList
  | like false => " like ".toList
  | like true => " not like ".toList
  | between false => " between ".toList
  | between true => " not between ".toList
  | among false => " in (".toList
  | among true => " not in (".toList
  | isNull false => " is null".toList
  | isNull true => " is not null".toList

theorem mem_operatorWords : ∀ c ∈ all, (c.word, c.operands) ∈ operatorWords := by decide +kernel

theorem word_injective : ∀ c ∈ all, ∀ c' ∈ all, c.word = c'.word → c = c' := by decide +kernel

theorem word_head (c : Comparator) : c.word.head? = some ' ' :=
  operatorWords_head _ (mem_operatorWords c c.mem_all)

/-- No operator goes on where another one ends. -/
theorem word_cancel {c c' : Comparator} {r s : List Char} (h : c.word ++ r = c'.word ++ s) :
    c = c' ∧ r = s := by
  obtain ⟨hwords, hrs⟩ :=
    operatorWords_cancel (mem_operatorWords c c.mem_all) (mem_operatorWords c' c'.mem_all) h
  exact ⟨word_injective c c.mem_all c' c'.mem_all (Prod.mk.inj hwords).1, hrs⟩

end Comparator

/-! ## Parameters -/

/-- The parameters after an operator, counted from zero. -/
inductive Marks : Operands → Type where
  | none : Marks .none
  | one (k : Nat) : Marks .one
  | two (low high : Nat) : Marks .two
  | last (k : Nat) : Marks .list
  | more (k : Nat) (rest : Marks .list) : Marks .list

namespace Marks

def text (d : Dialect) {o : Operands} : Marks o → List Char
  | none => []
  | one k => (d.placeholder (k + 1)).toList
  | two low high =>
    (d.placeholder (low + 1)).toList ++ (andWord ++ (d.placeholder (high + 1)).toList)
  | last k => (d.placeholder (k + 1)).toList ++ [')']
  | more k rest => (d.placeholder (k + 1)).toList ++ (',' :: ' ' :: rest.text d)

/-- The parameters in the order of the text. -/
def places {o : Operands} : Marks o → List Nat
  | none => []
  | one k => [k]
  | two low high => [low, high]
  | last k => [k]
  | more k rest => k :: rest.places

end Marks

theorem toString_injective {n m : Nat} (h : toString n = toString m) : n = m := by
  have hn := Dialect.numberOf_toString n
  rw [h, Dialect.numberOf_toString m] at hn
  exact (Option.some.inj hn).symm

theorem Dialect.placeholder_injective {j k : Nat}
    (h : d.placeholder (j + 1) = d.placeholder (k + 1)) : j = k := by
  have hlist := congrArg String.toList h
  cases d with
  | postgres =>
    simp only [placeholder, String.toList_append] at hlist
    have hjk := toString_injective (String.toList_inj.1 (List.append_cancel_left hlist))
    omega
  | sqlServer =>
    simp only [placeholder, String.toList_append] at hlist
    have hjk := toString_injective (String.toList_inj.1 (List.append_cancel_left hlist))
    omega

/-- Two marks before texts that do not go on with a digit are the same. -/
theorem Dialect.mark_cancel {j k : Nat} {r s : List Char} (hr : NoDigit r) (hs : NoDigit s)
    (h : (d.placeholder (j + 1)).toList ++ r = (d.placeholder (k + 1)).toList ++ s) :
    j = k ∧ r = s := by
  obtain ⟨hjk, hrs⟩ := placeholder_cancel hr hs h
  exact ⟨placeholder_injective hjk, hrs⟩

theorem Marks.text_injective {o : Operands} {ms ms' : Marks o} (h : ms.text d = ms'.text d) :
    ms = ms' := by
  have hend : NoDigit ([] : List Char) := nofun
  induction ms with
  | none => cases ms'; rfl
  | one k =>
    cases ms' with
    | one k' => rw [Dialect.placeholder_injective (String.toList_inj.1 h)]
  | two low high =>
    cases ms' with
    | two low' high' =>
      obtain ⟨rfl, hrest⟩ := Dialect.mark_cancel noDigit_and noDigit_and h
      have hhigh := List.append_cancel_left hrest
      rw [Dialect.placeholder_injective (String.toList_inj.1 hhigh)]
  | last k =>
    cases ms' with
    | last k' => rw [(Dialect.mark_cancel (noDigit_cons rfl) (noDigit_cons rfl) h).1]
    | more k' rest => cases (Dialect.mark_cancel (noDigit_cons rfl) (noDigit_cons rfl) h).2
  | more k rest ih =>
    cases ms' with
    | last k' => cases (Dialect.mark_cancel (noDigit_cons rfl) (noDigit_cons rfl) h).2
    | more k' rest' =>
      obtain ⟨rfl, hrest⟩ := Dialect.mark_cancel (noDigit_cons rfl) (noDigit_cons rfl) h
      simp only [List.cons.injEq, true_and] at hrest
      rw [ih hrest]

theorem Marks.tail {o : Operands} (ms : Marks o) : Tail d o (ms.text d) := by
  induction ms with
  | none => exact .none
  | one k => exact .one _
  | two low high => exact .two _ _
  | last k => exact .last _
  | more k rest ih => exact .more _ ih

/-! ## Predicates -/

/-- A comparison in SQL. -/
inductive Predicate where
  | compares (column : String) (c : Comparator) (ms : Marks c.operands)
  /-- Whether a column, or one truth value if it is null, equals another. -/
  | test (column : String) (otherwise expected : Bool)
  /-- Whether one is one, or whether one is zero. -/
  | constant (value : Bool)

/-- A truth value in a dialect. -/
def Dialect.truthLiteral : Dialect → Bool → List Char
  | .postgres, true => "true".toList
  | .postgres, false => "false".toList
  | .sqlServer, true => "1".toList
  | .sqlServer, false => "0".toList

theorem Dialect.truthLiteral_cancel {b b' : Bool} {r s : List Char}
    (h : d.truthLiteral b ++ r = d.truthLiteral b' ++ s) : b = b' ∧ r = s := by
  cases d <;> cases b <;> cases b' <;> simp_all [truthLiteral]

def coalesceWord : List Char := "coalesce(".toList

def equalsWord : List Char := ")=".toList

def constantText (value : Bool) : List Char := (if value then "1=1" else "1=0").toList

namespace Predicate

def text (d : Dialect) : Predicate → List Char
  | compares column c ms => (d.quote column).toList ++ (c.word ++ ms.text d)
  | test column otherwise expected =>
    coalesceWord ++ ((d.quote column).toList ++
      (',' :: (d.truthLiteral otherwise ++ (equalsWord ++ d.truthLiteral expected))))
  | constant value => constantText value

/-- A predicate begins with a quoted name, with the name of a function or with a digit. -/
theorem head_text (p : Predicate) : (p.text d).head? = match p with
    | compares .. => some d.openQuote
    | test .. => some 'c'
    | constant _ => some '1' := by
  cases p with
  | compares column c ms => rw [text, Dialect.toList_quote]; rfl
  | test column otherwise expected =>
    rw [text]
    exact head_append (by decide +kernel) _
  | constant value => cases value <;> rfl

/-- Where one predicate ends, no other one goes on. -/
theorem cancel {p q : Predicate} {r s : List Char} (hr : EndsPrimary r) (hs : EndsPrimary s)
    (h : p.text d ++ r = q.text d ++ s) : p = q := by
  have hhead := congrArg List.head? h
  rw [List.head?_append, List.head?_append, head_text, head_text] at hhead
  obtain ⟨hc, h1⟩ := d.openQuote_ne
  cases p with
  | compares column c ms =>
    cases q with
    | compares column' c' ms' =>
      have hword (c : Comparator) (ms : List Char) : (c.word ++ ms).head? ≠ some d.closeQuote :=
        head_ne_closeQuote (head_append c.word_head ms) (.inl rfl)
      simp only [text, List.append_assoc] at h
      obtain ⟨rfl, hrest⟩ := Dialect.quote_cancel (hword c _) (hword c' _) h
      obtain ⟨rfl, hmarks⟩ := Comparator.word_cancel hrest
      rw [Marks.text_injective (ms.tail.cancel ms'.tail hr hs hmarks)]
    | test => exact (hc (Option.some.inj hhead)).elim
    | constant => exact (h1 (Option.some.inj hhead)).elim
  | test column otherwise expected =>
    cases q with
    | compares => exact (hc (Option.some.inj hhead).symm).elim
    | test column' otherwise' expected' =>
      have hcomma (t : List Char) : (',' :: t).head? ≠ some d.closeQuote :=
        head_ne_closeQuote rfl (.inr rfl)
      simp only [text, List.append_assoc, List.cons_append] at h
      obtain ⟨rfl, hrest⟩ :=
        Dialect.quote_cancel (hcomma _) (hcomma _) (List.append_cancel_left h)
      obtain ⟨rfl, hlast⟩ := Dialect.truthLiteral_cancel (List.cons.inj hrest).2
      obtain ⟨rfl, -⟩ := Dialect.truthLiteral_cancel (List.append_cancel_left hlast)
      rfl
    | constant => cases hhead
  | constant value =>
    cases q with
    | compares => exact (h1 (Option.some.inj hhead).symm).elim
    | test => cases hhead
    | constant value' =>
      cases value <;> cases value' <;> first | rfl | simp [text, constantText] at h

theorem text_injective {p q : Predicate} (h : p.text d = q.text d) : p = q :=
  cancel (r := []) (s := []) endsPrimary_nil endsPrimary_nil (congrArg (· ++ []) h)

/-- The text is that of the predicate and of no other. -/
def Reads (d : Dialect) (p : Predicate) (s : String) : Prop :=
  p.text d = s.toList ∧ ∀ q : Predicate, q.text d = s.toList → q = p

theorem reads_iff {p : Predicate} {s : String} : p.Reads d s ↔ p.text d = s.toList :=
  ⟨And.left, fun h => ⟨h, fun _ hq => text_injective (hq.trans h.symm)⟩⟩

end Predicate

/-! ## Values on rows -/

namespace Truth

def of (b : Bool) : Truth := if b then holds else fails

def not : Truth → Truth
  | holds => fails
  | fails => holds
  | unknown => unknown

/-- A value, or its negation. -/
def negatedIf (negated : Bool) (t : Truth) : Truth := if negated then t.not else t

@[simp] theorem not_not (t : Truth) : t.not.not = t := by cases t <;> rfl

@[simp] theorem not_of (b : Bool) : (of b).not = of !b := by cases b <;> rfl

theorem of_inj {a b : Bool} : of a = of b ↔ a = b := by
  cases a <;> cases b <;> simp [of]

theorem negatedIf_not (negated : Bool) (t : Truth) :
    t.negatedIf (!negated) = (t.negatedIf negated).not := by
  cases negated <;> simp [negatedIf]

end Truth

/-- How a database compares the values that it stores, other than null. -/
structure Database (α : Type) where
  like : α → α → Bool
  /-- What a truth value is written as. -/
  truthValue : Bool → α
  truthValue_ne : truthValue true ≠ truthValue false

section Values

variable {α : Type}

/-- A comparison of two values, unknown if one of them is null. -/
def compared (holds : α → α → Bool) : Option α → Option α → Truth
  | some x, some y => .of (holds x y)
  | _, _ => .unknown

theorem compared_not (holds : α → α → Bool) (x y : Option α) :
    compared (fun x y => !holds x y) x y = (compared holds x y).not := by
  cases x with
  | none => rfl
  | some x =>
    cases y with
    | none => rfl
    | some y => exact (Truth.not_of _).symm

variable [LinearOrder α] (db : Database α) (row : String → Option α) (param : Nat → Option α)

/-- The value of a comparison of `x` with parameters. -/
def Comparator.truth (x : Option α) : (c : Comparator) → Marks c.operands → Truth
  | .order t, .one k => compared t.holds x (param k)
  | .like negated, .one k => (compared db.like x (param k)).negatedIf negated
  | .between negated, .two low high =>
    ((compared (· ≥ ·) x (param low)).and (compared (· ≤ ·) x (param high))).negatedIf negated
  | .among negated, ms =>
    (Truth.any (ms.places.map fun k => compared (· = ·) x (param k))).negatedIf negated
  | .isNull negated, .none => (Truth.of x.isNone).negatedIf negated

/-- The value of a predicate on a row. -/
def Predicate.truth : Predicate → Truth
  | compares column c ms => c.truth db param (row column) ms
  | test column otherwise expected =>
    .of ((row column).getD (db.truthValue otherwise) = db.truthValue expected)
  | constant value => .of value

end Values

/-! ## Negation -/

namespace Predicate

/-- The predicate with the opposite operator. -/
def negated : Predicate → Predicate
  | compares column (.order t) ms => compares column (.order t.negated) ms
  | compares column (.like negated) ms => compares column (.like !negated) ms
  | compares column (.between negated) ms => compares column (.between !negated) ms
  | compares column (.among negated) ms => compares column (.among !negated) ms
  | compares column (.isNull negated) ms => compares column (.isNull !negated) ms
  | test column otherwise expected => test column otherwise !expected
  | constant value => constant !value

theorem negated_ne (p : Predicate) : p.negated ≠ p := by
  intro h
  cases p with
  | compares column c ms =>
    cases c with
    | order t =>
      have ht : t.negated = t := by injection h with _ hc; injection hc
      exact t.negated_ne ht
    | _ negated => cases negated <;> cases h
  | test column otherwise expected => cases expected <;> cases h
  | constant value => cases value <;> cases h

variable {α : Type}

/-- A test that takes null for false finds a truth value where it does not find null. -/
def TwoValued (db : Database α) (row : String → Option α) : Predicate → Prop
  | test column _ _ => ∀ x, row column = some x → ∃ b, x = db.truthValue b
  | _ => True

variable [LinearOrder α] (db : Database α) (row : String → Option α) (param : Nat → Option α)

/-- A value is one of the two truth values if it is not the one exactly when it is the other. -/
theorem opposite_iff (x : α) (expected : Bool) :
    decide (x = db.truthValue !expected) = !decide (x = db.truthValue expected) ↔
      ∃ b, x = db.truthValue b := by
  have hne := db.truthValue_ne
  have hne' := hne.symm
  cases expected <;> simp only [Bool.exists_bool, Bool.not_true, Bool.not_false] <;>
    by_cases ht : x = db.truthValue true <;> by_cases hf : x = db.truthValue false <;>
    simp_all

theorem truth_negated_iff (p : Predicate) :
    p.negated.truth db row param = (p.truth db row param).not ↔ p.TwoValued db row := by
  cases p with
  | compares column c ms =>
    refine iff_of_true ?_ trivial
    cases c with
    | order t =>
      cases ms with
      | one k =>
        have hholds : t.negated.holds = fun x y : α => !t.holds x y :=
          funext fun x => funext fun y => t.holds_negated x y
        simp only [negated, truth, Comparator.truth, hholds, compared_not]
    | like negated => cases ms; exact Truth.negatedIf_not _ _
    | between negated => cases ms; exact Truth.negatedIf_not _ _
    | among negated => exact Truth.negatedIf_not _ _
    | isNull negated => cases ms; exact Truth.negatedIf_not _ _
  | test column otherwise expected =>
    rw [negated, truth, truth, Truth.not_of, Truth.of_inj, opposite_iff, TwoValued]
    cases hrow : row column with
    | none => exact iff_of_true ⟨otherwise, rfl⟩ nofun
    | some x => simp
  | constant value =>
    exact iff_of_true (Truth.not_of value).symm trivial

end Predicate

end RecordGraph
