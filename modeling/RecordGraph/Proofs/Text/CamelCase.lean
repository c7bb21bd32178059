/-
  The characters of names in camel case.

  The words of a name have its letters and digits (`CamelCase.isAlphanumeric_of_mem_words`), and
  no capital or small form of a letter has a point, so that a name in camel case is never a path
  of several parts (`camelCase_plain`).
-/
import Mathlib.Data.List.Basic
import RecordGraph.Text.CamelCase

namespace RecordGraph

/-! ## Letters -/

namespace Letter

variable {rows : List CaseRow} {n m : Nat} {c : Char}

theorem ofNat_ne_point (h : '.'.toNat < n) : Char.ofNat n ≠ '.' := by
  intro hpoint
  by_cases hn : n.isValidChar
  · have htoNat : (Char.ofNat n).toNat = n := by
      rw [Char.ofNat, dif_pos hn]
      rfl
    rw [hpoint] at htoNat
    omega
  · rw [Char.ofNat, dif_neg hn] at hpoint
    exact absurd hpoint (by decide)

/-- Counterparts are at least the first one of their row. -/
theorem counterpart_lt (hrows : ∀ r ∈ rows, '.'.toNat < r.counterpart)
    (h : rows.findSome? (·.counterpart? n) = some m) : '.'.toNat < m := by
  obtain ⟨r, hr, hm⟩ := List.exists_of_findSome?_eq_some h
  unfold CaseRow.counterpart? at hm
  split at hm
  · cases hm
    exact Nat.lt_add_right _ (hrows r hr)
  · cases hm

theorem counterpart_ne_point (hrows : ∀ r ∈ rows, '.'.toNat < r.counterpart) (hc : c ≠ '.') :
    (rows.findSome? (·.counterpart? n)).elim c Char.ofNat ≠ '.' := by
  cases h : rows.findSome? (·.counterpart? n) with
  | none => exact hc
  | some m => exact ofNat_ne_point (counterpart_lt hrows h)

theorem toUpper_plain (hc : c ≠ '.') : '.' ∉ toUpper c := by
  unfold toUpper
  dsimp only
  split
  · rename_i form hform
    have hforms : ∀ e ∈ capitalForms, ∀ m ∈ e.2, '.'.toNat < m := by decide
    intro hmem
    obtain ⟨m, hm, hpoint⟩ := List.mem_map.1 hmem
    obtain ⟨before, after, hsplit, -⟩ := List.lookup_eq_some_iff.1 hform
    exact ofNat_ne_point (hforms (c.toNat, form) (by simp [hsplit]) m hm) hpoint
  · split
    · rename_i m hm
      have hne : '.' ≠ Char.ofNat m := (ofNat_ne_point (counterpart_lt (by decide) hm)).symm
      simpa using hne
    · have hrows : ∀ r ∈ pairs.map CaseRow.reverse ++ capitalOnly, '.'.toNat < r.counterpart := by
        decide +kernel
      simpa using (counterpart_ne_point hrows hc).symm

theorem toLower_plain (hc : c ≠ '.') : '.' ∉ toLower c := by
  unfold toLower
  split
  · decide
  · have hrows : ∀ r ∈ pairs ++ smallOnly, '.'.toNat < r.counterpart := by
      decide +kernel
    simpa using (counterpart_ne_point hrows hc).symm

end Letter

/-! ## Words -/

namespace CamelCase

variable {cs word w : List Char} {c : Char}

theorem isAlphanumeric_of_mem_runs (hw : w ∈ runs cs) (hc : c ∈ w) : Letter.isAlphanumeric c := by
  induction cs generalizing w with
  | nil =>
    rw [runs, List.mem_singleton] at hw
    rw [hw] at hc
    cases hc
  | cons d ds ih =>
    unfold runs at hw
    split at hw
    · rename_i hd
      split at hw
      · rename_i r rest hruns
        rcases List.mem_cons.1 hw with rfl | hw
        · rcases List.mem_cons.1 hc with rfl | hc
          · exact hd
          · exact ih (hruns ▸ List.mem_cons_self) hc
        · exact ih (hruns ▸ List.mem_cons_of_mem _ hw) hc
      · rw [List.mem_singleton.1 hw, List.mem_singleton] at hc
        rwa [hc]
    · rcases List.mem_cons.1 hw with rfl | hw
      · cases hc
      · exact ih hw hc

/-- Cutting a run makes no characters. -/
theorem mem_of_mem_cutRun {m : Mode} (hw : w ∈ cutRun m word cs) (hc : c ∈ w) :
    c ∈ word ∨ c ∈ cs := by
  induction m, word, cs using cutRun.induct generalizing w with
  | case1 => cases hw
  | case2 m word d =>
    rw [cutRun, List.mem_singleton] at hw
    rw [hw] at hc
    exact List.mem_append.1 hc
  | case3 m word d next rest h ih =>
    rw [cutRun, if_pos h, List.mem_cons] at hw
    rcases hw with rfl | hw
    · rcases List.mem_append.1 hc with hc | hc
      · exact .inl hc
      · exact .inr (List.mem_singleton.1 hc ▸ List.mem_cons_self)
    · exact .inr (List.mem_cons_of_mem _ ((ih hw hc).resolve_left List.not_mem_nil))
  | case4 m word d next rest h h' ih =>
    rw [cutRun, if_neg h, if_pos h', List.mem_cons] at hw
    rcases hw with rfl | hw
    · exact .inl hc
    · rcases ih hw hc with hc | hc
      · exact .inr (List.mem_singleton.1 hc ▸ List.mem_cons_self)
      · exact .inr (List.mem_cons_of_mem _ hc)
  | case5 m word d next rest h h' ih =>
    rw [cutRun, if_neg h, if_neg h'] at hw
    rcases ih hw hc with hc | hc
    · rcases List.mem_append.1 hc with hc | hc
      · exact .inl hc
      · exact .inr (List.mem_singleton.1 hc ▸ List.mem_cons_self)
    · exact .inr (List.mem_cons_of_mem _ hc)

theorem isAlphanumeric_of_mem_words (hw : w ∈ words cs) (hc : c ∈ w) :
    Letter.isAlphanumeric c := by
  obtain ⟨run, hrun, hw⟩ := List.mem_flatMap.1 hw
  rcases mem_of_mem_cutRun hw hc with hc | hc
  · cases hc
  · exact isAlphanumeric_of_mem_runs hrun hc

/-! ## Points -/

theorem small_plain (h : '.' ∉ w) : '.' ∉ small w := by
  induction w with
  | nil => exact List.not_mem_nil
  | cons c cs ih =>
    rw [List.mem_cons, not_or] at h
    cases cs with
    | nil =>
      unfold small
      split
      · decide
      · exact Letter.toLower_plain (Ne.symm h.1)
    | cons d ds =>
      change '.' ∉ Letter.toLower c ++ small (d :: ds)
      rw [List.mem_append, not_or]
      exact ⟨Letter.toLower_plain (Ne.symm h.1), ih h.2⟩

theorem capitalized_plain (h : '.' ∉ w) : '.' ∉ capitalized w := by
  cases w with
  | nil => exact List.not_mem_nil
  | cons c cs =>
    rw [List.mem_cons, not_or] at h
    rw [capitalized, List.mem_append, not_or]
    exact ⟨Letter.toUpper_plain (Ne.symm h.1), small_plain h.2⟩

end CamelCase

/-- A name in camel case has no point. -/
theorem camelCase_plain (name : String) : '.' ∉ (camelCase name).toList := by
  rw [camelCase, String.toList_ofList]
  intro hpoint
  obtain ⟨w, hw, hpoint⟩ := List.mem_flatMap.1 hpoint
  refine CamelCase.capitalized_plain (fun hmem => ?_) hpoint
  exact absurd (CamelCase.isAlphanumeric_of_mem_words hw hmem) (by decide)

end RecordGraph
