/-
  Boolean expressions in SQL text.

  * A `Disjunction` is what the grammar reads: conjunctions with ` or ` between them, each of
    them comparisons, or expressions in parentheses, with ` and ` between them.  `and` binds
    tighter because there is no `or` in a conjunction outside of parentheses.
  * A comparison is one piece of the text.  `Delimited` says what a set of comparisons must be
    like, and `Disjunction.unique` that a text then has no second expression over them.
  * `Disjunction.truth` is the value of an expression, given one for each comparison in the
    order of the text.
-/
import Mathlib.Data.List.Basic

namespace RecordGraph

/-! ## Truth values -/

/-- The truth values of SQL. -/
inductive Truth where
  | holds
  | fails
  /-- Something that is compared is null. -/
  | unknown
  deriving DecidableEq

namespace Truth

def and : Truth → Truth → Truth
  | holds, y => y
  | fails, _ => fails
  | unknown, fails => fails
  | unknown, _ => unknown

def or : Truth → Truth → Truth
  | fails, y => y
  | holds, _ => holds
  | unknown, holds => holds
  | unknown, _ => unknown

def all (ts : List Truth) : Truth := ts.foldr and holds

def any (ts : List Truth) : Truth := ts.foldr or fails

@[simp] theorem and_holds (x : Truth) : x.and holds = x := by cases x <;> rfl

@[simp] theorem or_fails (x : Truth) : x.or fails = x := by cases x <;> rfl

end Truth

/-! ## Expressions -/

mutual

/-- Conjunctions joined by `or`. -/
inductive Disjunction where
  | one (c : Conjunction)
  | or (c : Conjunction) (rest : Disjunction)

/-- Primaries joined by `and`. -/
inductive Conjunction where
  | one (p : Primary)
  | and (p : Primary) (rest : Conjunction)

/-- A comparison, or an expression in parentheses. -/
inductive Primary where
  | atom (text : String)
  | group (e : Disjunction)

end

def orWord : List Char := " or ".toList

def andWord : List Char := " and ".toList

mutual

def Disjunction.text : Disjunction → List Char
  | .one c => c.text
  | .or c rest => c.text ++ (orWord ++ rest.text)

def Conjunction.text : Conjunction → List Char
  | .one p => p.text
  | .and p rest => p.text ++ (andWord ++ rest.text)

def Primary.text : Primary → List Char
  | .atom s => s.toList
  | .group e => '(' :: (e.text ++ [')'])

end

mutual

/-- The comparisons of an expression, in the order of the text. -/
def Disjunction.atoms : Disjunction → List String
  | .one c => c.atoms
  | .or c rest => c.atoms ++ rest.atoms

def Conjunction.atoms : Conjunction → List String
  | .one p => p.atoms
  | .and p rest => p.atoms ++ rest.atoms

def Primary.atoms : Primary → List String
  | .atom s => [s]
  | .group e => e.atoms

end

mutual

/-- The value of an expression whose first comparison is the `i`-th of the text. -/
def Disjunction.truth (σ : Nat → Truth) (i : Nat) : Disjunction → Truth
  | .one c => c.truth σ i
  | .or c rest => (c.truth σ i).or (rest.truth σ (i + c.atoms.length))

def Conjunction.truth (σ : Nat → Truth) (i : Nat) : Conjunction → Truth
  | .one p => p.truth σ i
  | .and p rest => (p.truth σ i).and (rest.truth σ (i + p.atoms.length))

def Primary.truth (σ : Nat → Truth) (i : Nat) : Primary → Truth
  | .atom _ => σ i
  | .group e => e.truth σ i

end

/-- The expression is one over the given comparisons, with the given text. -/
structure Disjunction.Parses (A : String → Prop) (s : String) (e : Disjunction) : Prop where
  atoms : ∀ a ∈ e.atoms, A a
  text : e.text = s.toList

/-! ## What may follow -/

/-- The text ends, or a parenthesis is closed. -/
def EndsExpression (r : List Char) : Prop := r = [] ∨ ∃ s, r = ')' :: s

/-- What may stand after a conjunction. -/
def EndsConjunction (r : List Char) : Prop := EndsExpression r ∨ ∃ s, r = orWord ++ s

/-- What may stand after a comparison. -/
def EndsPrimary (r : List Char) : Prop := EndsConjunction r ∨ ∃ s, r = andWord ++ s

theorem endsPrimary_nil : EndsPrimary [] := .inl (.inl (.inl rfl))

theorem EndsExpression.not_or {s : List Char} (h : EndsExpression (orWord ++ s)) : False := by
  rcases h with h | ⟨t, h⟩ <;> simp [orWord] at h

theorem EndsConjunction.not_and {s : List Char} (h : EndsConjunction (andWord ++ s)) : False := by
  rcases h with (h | ⟨t, h⟩) | ⟨t, h⟩ <;> simp [andWord, orWord] at h

theorem EndsPrimary.not_open {s : List Char} (h : EndsPrimary ('(' :: s)) : False := by
  rcases h with ((h | ⟨t, h⟩) | ⟨t, h⟩) | ⟨t, h⟩ <;> simp [andWord, orWord] at h

/-! ## No second expression -/

/-- Comparisons that can be told apart in a text, and from an expression in parentheses. -/
structure Delimited (A : String → Prop) : Prop where
  /-- Where one comparison ends, no other one goes on. -/
  cancel : ∀ {a b r s}, A a → A b → EndsPrimary r → EndsPrimary s →
    a.toList ++ r = b.toList ++ s → a = b
  bare : ∀ {a cs}, A a → a.toList ≠ '(' :: cs

section Unique

variable {A : String → Prop}

theorem Delimited.not_group (hA : Delimited A) {a : String} {r s : List Char} (ha : A a)
    (hr : EndsPrimary r) (h : a.toList ++ r = '(' :: s) : False := by
  rcases hs : a.toList with _ | ⟨c, cs⟩
  · rw [hs, List.nil_append] at h
    subst h
    exact hr.not_open
  · rw [hs, List.cons_append, List.cons.injEq] at h
    rw [h.1] at hs
    exact hA.bare ha hs

mutual

/-- Two expressions before the rest of a text are the same.  The induction is on the first, and
    goes through by what may follow at each level. -/
theorem Disjunction.cancel (hA : Delimited A) : ∀ {e e' : Disjunction} {r s : List Char},
    (∀ a ∈ e.atoms, A a) → (∀ a ∈ e'.atoms, A a) → EndsExpression r → EndsExpression s →
      e.text ++ r = e'.text ++ s → e = e'
  | .one c, .one c', r, s, he, he', hr, hs, h => by
    rw [Conjunction.cancel hA he he' (.inl hr) (.inl hs) h]
  | .one c, .or c' rest', r, s, he, he', hr, hs, h => by
    simp only [Disjunction.text, List.append_assoc] at h
    simp only [Disjunction.atoms, List.mem_append] at he'
    obtain rfl := Conjunction.cancel hA he (fun a ha => he' a (.inl ha)) (.inl hr)
      (.inr ⟨_, rfl⟩) h
    rw [List.append_cancel_left h] at hr
    exact hr.not_or.elim
  | .or c rest, .one c', r, s, he, he', hr, hs, h => by
    simp only [Disjunction.text, List.append_assoc] at h
    simp only [Disjunction.atoms, List.mem_append] at he
    obtain rfl := Conjunction.cancel hA (fun a ha => he a (.inl ha)) he' (.inr ⟨_, rfl⟩)
      (.inl hs) h
    rw [← List.append_cancel_left h] at hs
    exact hs.not_or.elim
  | .or c rest, .or c' rest', r, s, he, he', hr, hs, h => by
    simp only [Disjunction.text, List.append_assoc] at h
    simp only [Disjunction.atoms, List.mem_append] at he he'
    obtain rfl := Conjunction.cancel hA (fun a ha => he a (.inl ha)) (fun a ha => he' a (.inl ha))
      (.inr ⟨_, rfl⟩) (.inr ⟨_, rfl⟩) h
    have hrest := List.append_cancel_left (List.append_cancel_left h)
    rw [Disjunction.cancel hA (fun a ha => he a (.inr ha)) (fun a ha => he' a (.inr ha)) hr hs hrest]

theorem Conjunction.cancel (hA : Delimited A) : ∀ {e e' : Conjunction} {r s : List Char},
    (∀ a ∈ e.atoms, A a) → (∀ a ∈ e'.atoms, A a) → EndsConjunction r → EndsConjunction s →
      e.text ++ r = e'.text ++ s → e = e'
  | .one p, .one p', r, s, he, he', hr, hs, h => by
    rw [Primary.cancel hA he he' (.inl hr) (.inl hs) h]
  | .one p, .and p' rest', r, s, he, he', hr, hs, h => by
    simp only [Conjunction.text, List.append_assoc] at h
    simp only [Conjunction.atoms, List.mem_append] at he'
    obtain rfl := Primary.cancel hA he (fun a ha => he' a (.inl ha)) (.inl hr) (.inr ⟨_, rfl⟩) h
    rw [List.append_cancel_left h] at hr
    exact hr.not_and.elim
  | .and p rest, .one p', r, s, he, he', hr, hs, h => by
    simp only [Conjunction.text, List.append_assoc] at h
    simp only [Conjunction.atoms, List.mem_append] at he
    obtain rfl := Primary.cancel hA (fun a ha => he a (.inl ha)) he' (.inr ⟨_, rfl⟩) (.inl hs) h
    rw [← List.append_cancel_left h] at hs
    exact hs.not_and.elim
  | .and p rest, .and p' rest', r, s, he, he', hr, hs, h => by
    simp only [Conjunction.text, List.append_assoc] at h
    simp only [Conjunction.atoms, List.mem_append] at he he'
    obtain rfl := Primary.cancel hA (fun a ha => he a (.inl ha)) (fun a ha => he' a (.inl ha))
      (.inr ⟨_, rfl⟩) (.inr ⟨_, rfl⟩) h
    have hrest := List.append_cancel_left (List.append_cancel_left h)
    rw [Conjunction.cancel hA (fun a ha => he a (.inr ha)) (fun a ha => he' a (.inr ha)) hr hs hrest]

theorem Primary.cancel (hA : Delimited A) : ∀ {e e' : Primary} {r s : List Char},
    (∀ a ∈ e.atoms, A a) → (∀ a ∈ e'.atoms, A a) → EndsPrimary r → EndsPrimary s →
      e.text ++ r = e'.text ++ s → e = e'
  | .atom a, .atom b, r, s, he, he', hr, hs, h => by
    rw [hA.cancel (he a (List.mem_singleton.2 rfl)) (he' b (List.mem_singleton.2 rfl)) hr hs h]
  | .atom a, .group e', r, s, he, he', hr, hs, h =>
    (hA.not_group (he a (List.mem_singleton.2 rfl)) hr h).elim
  | .group e, .atom b, r, s, he, he', hr, hs, h =>
    (hA.not_group (he' b (List.mem_singleton.2 rfl)) hs h.symm).elim
  | .group e, .group e', r, s, he, he', hr, hs, h => by
    simp only [Primary.text, List.cons_append, List.cons.injEq, true_and, List.append_assoc] at h
    rw [Disjunction.cancel hA he he' (.inr ⟨_, rfl⟩) (.inr ⟨_, rfl⟩) h]

end

/-- A text is read in one way at most. -/
theorem Disjunction.unique (hA : Delimited A) {s : String} {e e' : Disjunction}
    (h : e.Parses A s) (h' : e'.Parses A s) : e = e' :=
  Disjunction.cancel hA h.atoms h'.atoms (.inl rfl) (.inl rfl) (by rw [h.text, h'.text])

end Unique

/-! ## Values by groups -/

def Conjunction.truths (σ : Nat → Truth) (i : Nat) : Conjunction → List Truth
  | .one p => [p.truth σ i]
  | .and p rest => p.truth σ i :: rest.truths σ (i + p.atoms.length)

/-- The values of the primaries of an expression, those of each conjunction in a list. -/
def Disjunction.truths (σ : Nat → Truth) (i : Nat) : Disjunction → List (List Truth)
  | .one c => [c.truths σ i]
  | .or c rest => c.truths σ i :: rest.truths σ (i + c.atoms.length)

theorem Conjunction.truth_eq (σ : Nat → Truth) : ∀ (i : Nat) (e : Conjunction),
    e.truth σ i = Truth.all (e.truths σ i)
  | i, .one p => by simp [truth, truths, Truth.all]
  | i, .and p rest => by rw [truth, truth_eq σ _ rest]; rfl

theorem Disjunction.truth_eq (σ : Nat → Truth) : ∀ (i : Nat) (e : Disjunction),
    e.truth σ i = Truth.any ((e.truths σ i).map Truth.all)
  | i, .one c => by simp [truth, truths, Truth.any, c.truth_eq]
  | i, .or c rest => by rw [truth, truth_eq σ _ rest, c.truth_eq]; rfl

end RecordGraph
