/-
  Words and patterns as parts of texts.

  A word or a pattern that is found in a text is a piece of it (`isInfix_of_mem_words`,
  `isSome_cutAtFirst`), and a space keeps the words on its two sides apart (`words_space`).
-/
import Mathlib.Data.List.Infix
import RecordGraph.Text.Words

namespace RecordGraph

variable {pattern before after cs xs ys w : List Char} {c : Char} {p : Char → Bool}

/-! ## Patterns -/

theorem cutAtFirst_eq_some (h : cutAtFirst pattern cs = some (before, after)) :
    cs = before ++ (pattern ++ after) := by
  induction cs generalizing before with
  | nil =>
    rw [cutAtFirst] at h
    split at h
    · rename_i hempty
      cases h
      rw [List.isEmpty_iff.1 hempty]
      rfl
    · cases h
  | cons c cs ih =>
    rw [cutAtFirst] at h
    split at h
    · rename_i hstarts
      obtain ⟨rest, hrest⟩ := List.isPrefixOf_iff_prefix.1 hstarts
      cases h
      rw [← hrest, List.drop_left, List.nil_append]
    · obtain ⟨⟨b, a⟩, hcut, h⟩ := Option.map_eq_some_iff.1 h
      cases h
      rw [ih hcut, List.cons_append]

theorem isSome_cutAtFirst : (cutAtFirst pattern cs).isSome = true ↔ pattern <:+: cs := by
  induction cs with
  | nil =>
    rw [cutAtFirst, List.infix_nil]
    cases pattern <;> simp
  | cons c cs ih =>
    rw [cutAtFirst, List.infix_cons_iff, ← ih, ← List.isPrefixOf_iff_prefix]
    split
    · rename_i hstarts
      simp [hstarts]
    · rename_i hstarts
      simp [hstarts]

/-! ## Words -/

theorem splitAround_ne_nil (p : Char → Bool) (cs : List Char) : splitAround p cs ≠ [] := by
  cases cs with
  | nil => simp [splitAround]
  | cons c cs =>
    unfold splitAround
    split
    · simp
    · split <;> simp

theorem splitAround_separator (hc : p c = true) (xs ys : List Char) :
    splitAround p (xs ++ c :: ys) = splitAround p xs ++ splitAround p ys := by
  induction xs with
  | nil => simp [splitAround, hc]
  | cons x xs ih =>
    rw [List.cons_append, splitAround, splitAround, ih]
    obtain ⟨word, rest, hsplit⟩ := List.exists_cons_of_ne_nil (splitAround_ne_nil p xs)
    rw [hsplit]
    split <;> rfl

theorem words_space (hc : isSpace c = true) (xs ys : List Char) :
    words (xs ++ c :: ys) = words xs ++ words ys := by
  rw [words, splitAround_separator hc, List.filter_append]
  rfl

/-- The first piece begins the text, and every piece is in it. -/
theorem splitAround_infix {pieces : List (List Char)} (h : splitAround p cs = w :: pieces) :
    w <+: cs ∧ ∀ x ∈ pieces, x <:+: cs := by
  induction cs generalizing w pieces with
  | nil =>
    cases h
    simp
  | cons c cs ih =>
    obtain ⟨word, rest, hsplit⟩ := List.exists_cons_of_ne_nil (splitAround_ne_nil p cs)
    obtain ⟨hword, hrest⟩ := ih hsplit
    rw [splitAround, hsplit] at h
    split at h
    · cases h
      refine ⟨List.nil_prefix, List.forall_mem_cons.2 ⟨?_, fun x hx => ?_⟩⟩
      · exact List.infix_cons hword.isInfix
      · exact List.infix_cons (hrest x hx)
    · cases h
      exact ⟨(List.prefix_cons_inj c).2 hword, fun x hx => List.infix_cons (hrest x hx)⟩

theorem isInfix_of_mem_words (h : w ∈ words cs) : w <:+: cs := by
  obtain ⟨word, rest, hsplit⟩ := List.exists_cons_of_ne_nil (splitAround_ne_nil isSpace cs)
  obtain ⟨hword, hrest⟩ := splitAround_infix hsplit
  rw [words, hsplit] at h
  rcases List.mem_cons.1 (List.mem_of_mem_filter h) with rfl | hw
  · exact hword.isInfix
  · exact hrest w hw

end RecordGraph
