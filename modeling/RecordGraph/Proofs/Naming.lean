/-
  The parts of dotted paths.

  A path is made up of its parts (`FieldName.segments_injective`), none of them has a point, and
  the path to the key of a nested record has one part more than the name of the nested record
  (`FieldName.segments_keyPath`).
-/
import Mathlib.Data.List.Basic
import RecordGraph.Naming

namespace RecordGraph.FieldName

/-! ## Texts of characters -/

theorem length_segmentsOf (cs : List Char) : (segmentsOf cs).length = cs.count '.' + 1 := by
  induction cs with
  | nil => rfl
  | cons c cs ih =>
    unfold segmentsOf
    by_cases hc : c = '.'
    · rw [if_pos hc, List.length_cons, ih, hc, List.count_cons_self]
    · rw [if_neg hc, List.count_cons_of_ne hc]
      cases hs : segmentsOf cs with
      | nil => rw [hs] at ih; cases ih
      | cons s rest => rw [hs] at ih; exact ih

theorem segmentsOf_ne_nil (cs : List Char) : segmentsOf cs ≠ [] := by
  intro h
  have hlen := length_segmentsOf cs
  rw [h, List.length_nil] at hlen
  omega

theorem segmentsOf_cons_point (cs : List Char) : segmentsOf ('.' :: cs) = [] :: segmentsOf cs := rfl

theorem segmentsOf_cons {c : Char} (hc : c ≠ '.') (cs : List Char) :
    ∃ s rest, segmentsOf cs = s :: rest ∧ segmentsOf (c :: cs) = (c :: s) :: rest := by
  obtain ⟨s, rest, hs⟩ := List.exists_cons_of_ne_nil (segmentsOf_ne_nil cs)
  refine ⟨s, rest, hs, ?_⟩
  rw [segmentsOf, if_neg hc, hs]

theorem segmentsOf_append (cs ds : List Char) :
    segmentsOf (cs ++ '.' :: ds) = segmentsOf cs ++ segmentsOf ds := by
  induction cs with
  | nil => rfl
  | cons c cs ih =>
    by_cases hc : c = '.'
    · subst hc
      rw [List.cons_append, segmentsOf_cons_point, segmentsOf_cons_point, ih, List.cons_append]
    · obtain ⟨s, rest, hs, hcs⟩ := segmentsOf_cons hc cs
      obtain ⟨s', rest', hs', hcs'⟩ := segmentsOf_cons hc (cs ++ '.' :: ds)
      rw [ih, hs, List.cons_append, List.cons.injEq] at hs'
      rw [List.cons_append, hcs, hcs', List.cons_append, hs'.1, hs'.2]

theorem segmentsOf_plain {cs : List Char} (h : '.' ∉ cs) : segmentsOf cs = [cs] := by
  induction cs with
  | nil => rfl
  | cons c cs ih =>
    rw [List.mem_cons, not_or] at h
    unfold segmentsOf
    rw [if_neg (Ne.symm h.1), ih h.2]

theorem not_mem_segmentsOf {cs s : List Char} (h : s ∈ segmentsOf cs) : '.' ∉ s := by
  induction cs generalizing s with
  | nil =>
    rw [segmentsOf, List.mem_singleton] at h
    rw [h]
    exact List.not_mem_nil
  | cons c cs ih =>
    by_cases hc : c = '.'
    · subst hc
      rw [segmentsOf_cons_point, List.mem_cons] at h
      rcases h with rfl | h
      · exact List.not_mem_nil
      · exact ih h
    · obtain ⟨s₀, rest, hs, hcs⟩ := segmentsOf_cons hc cs
      rw [hs] at ih
      rw [hcs, List.mem_cons] at h
      rcases h with rfl | h
      · rw [List.mem_cons, not_or]
        exact ⟨Ne.symm hc, ih List.mem_cons_self⟩
      · exact ih (List.mem_cons_of_mem _ h)

/-- The parts of a path with points between them are the path. -/
theorem intercalate_segmentsOf (cs : List Char) : ['.'].intercalate (segmentsOf cs) = cs := by
  induction cs with
  | nil => rfl
  | cons c cs ih =>
    by_cases hc : c = '.'
    · subst hc
      rw [segmentsOf_cons_point, List.intercalate_cons_of_ne_nil (segmentsOf_ne_nil cs), ih]
      rfl
    · obtain ⟨s, rest, hs, hcs⟩ := segmentsOf_cons hc cs
      rw [hs] at ih
      rw [hcs, ← ih]
      cases rest <;> simp [List.intercalate]

/-! ## Paths -/

theorem segments_injective {p q : String} (h : segments p = segments q) : p = q := by
  have hchars : segmentsOf p.toList = segmentsOf q.toList :=
    List.map_injective_iff.2 (fun _ _ h => String.ofList_injective h) h
  rw [← String.toList_inj, ← intercalate_segmentsOf p.toList, hchars, intercalate_segmentsOf]

theorem segments_ne_nil (path : String) : segments path ≠ [] := by
  rw [segments, ne_eq, List.map_eq_nil_iff]
  exact segmentsOf_ne_nil _

theorem segments_keyPath (x : String) : segments (keyPath x) = segments x ++ ["Id"] := by
  have hchars : (keyPath x).toList = x.toList ++ '.' :: "Id".toList := by
    simp [keyPath]
  rw [segments, hchars, segmentsOf_append, List.map_append]
  rfl

theorem not_isDotted_of_mem {path s : String} (h : s ∈ segments path) : isDotted s = false := by
  obtain ⟨cs, hcs, rfl⟩ := List.mem_map.1 h
  simpa [isDotted] using not_mem_segmentsOf hcs

theorem segments_dotted {path : String} (h : isDotted path) (name : String) :
    segments path ≠ [name] := by
  intro hs
  have hlen := congrArg List.length hs
  rw [segments, List.length_map, length_segmentsOf, List.length_singleton] at hlen
  have hpos : 0 < path.toList.count '.' := List.count_pos_iff.2 (by simpa [isDotted] using h)
  omega

theorem segments_plain {name : String} (h : isDotted name = false) : segments name = [name] := by
  have hn : '.' ∉ name.toList := by simpa [isDotted] using h
  rw [segments, segmentsOf_plain hn, List.map_singleton, String.ofList_toList]

theorem segments_below {name : String} (h : isDotted name = false) (path : String) :
    segments (name ++ "." ++ path) = name :: segments path := by
  have hchars : (name ++ "." ++ path).toList = name.toList ++ '.' :: path.toList := by simp
  have hname : (segmentsOf name.toList).map String.ofList = [name] := segments_plain h
  rw [segments, hchars, segmentsOf_append, List.map_append, hname]
  rfl

theorem isDotted_keyPath (nested : String) : isDotted (keyPath nested) := by
  simp [isDotted, keyPath]

end RecordGraph.FieldName
