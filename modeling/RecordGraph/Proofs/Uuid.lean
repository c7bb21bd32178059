/-
  Identifiers are read back from their text.

  The hyphenated form of 32 digits is taken apart again into the same digits, and none of the
  wrappings that a form may have starts with a digit (`parse_text`).
-/
import RecordGraph.Proofs.Number.Places
import RecordGraph.Uuid

namespace RecordGraph.Uuid

variable {ns : List Nat} {ds : List Char}

/-! ## Hyphens -/

theorem unhyphenate_hyphenate (h : ds.length = ns.sum) :
    unhyphenate? ns (hyphenate ns ds) = some ds := by
  induction ns generalizing ds with
  | nil =>
    obtain rfl : ds = [] := List.length_eq_zero_iff.1 h
    rfl
  | cons n ns ih =>
    rw [List.sum_cons] at h
    cases ns with
    | nil =>
      have hn : ds.length = n := h
      rw [hyphenate, List.take_of_length_le hn.le, unhyphenate?, if_pos hn]
    | cons m ns =>
      have hfirst : (ds.take n).length = n := by rw [List.length_take]; omega
      have hrest : (ds.drop n).length = (m :: ns).sum := by rw [List.length_drop]; omega
      rw [hyphenate, unhyphenate?]
      · rw [List.drop_left' hfirst, List.take_left' hfirst]
        simp only [ih hrest, Option.map_some, List.take_append_drop]
      · exact nofun
      · exact nofun

theorem length_hyphenate {n : Nat} (h : ds.length = (n :: ns).sum) :
    (hyphenate (n :: ns) ds).length = ds.length + ns.length := by
  induction ns generalizing n ds with
  | nil =>
    have hn : ds.length = n := h
    rw [hyphenate, List.take_of_length_le hn.le]
    rfl
  | cons m ns ih =>
    rw [List.sum_cons] at h
    have hrest : (ds.drop n).length = (m :: ns).sum := by rw [List.length_drop]; omega
    rw [hyphenate, List.length_append, List.length_cons, ih hrest, List.length_take,
      List.length_drop, List.length_cons]
    · omega
    · exact nofun

/-! ## Wrappings -/

/-- A hexadecimal digit begins none of the wrappings, neither a brace nor the mark of a name. -/
theorem unwrap_cons {d : Nat} (hd : d < 16) (cs : List Char) :
    unwrap (hexDigit d :: cs) = hexDigit d :: cs := by
  have hplain : ∀ d < 16, (hexDigit d).toLower ≠ 'u' ∧ hexDigit d ≠ '\x7b' := by decide
  obtain ⟨hmark, hbrace⟩ := hplain d hd
  have hurn : ((hexDigit d :: cs).take urnMark.length).map Char.toLower ≠ urnMark :=
    fun h => hmark (List.cons.inj h).1
  unfold unwrap
  rw [if_neg hurn]
  split
  · rename_i heq
    exact absurd (List.cons.inj heq).1 hbrace
  · rfl

theorem unwrap_hyphenate (n : Nat) :
    unwrap (hyphenate groups (toHex 32 n)) = hyphenate groups (toHex 32 n) := by
  obtain ⟨d, ds, hds⟩ : ∃ d ds, places 16 32 n = d :: ds :=
    List.exists_cons_of_ne_nil (List.ne_nil_of_length_pos (by rw [length_places]; decide))
  have hd : d < 16 := lt_of_mem_places (by decide) (by rw [hds]; exact List.mem_cons_self)
  obtain ⟨rest, hrest⟩ : ∃ rest, hyphenate groups (hexDigit d :: ds.map hexDigit) =
      hexDigit d :: rest := ⟨_, rfl⟩
  rw [toHex, hds, List.map_cons, hrest, unwrap_cons hd]

theorem parse_text (u : Uuid) : parse? u.text = some u := by
  have hlength : (toHex 32 u.value.toNat).length = groups.sum := length_toHex ..
  have htext : (hyphenate groups (toHex 32 u.value.toNat)).length = 36 := by
    rw [groups, length_hyphenate hlength, length_toHex]
    rfl
  have hvalue : u.value.toNat % Nat.pow 16 32 = u.value.toNat :=
    Nat.mod_eq_of_lt u.value.isLt
  have hdigits : ofDigits? (toHex 32 u.value.toNat) = some u := by
    rw [ofDigits?, if_pos (length_toHex ..), ofHex_toHex, hvalue, Option.map_some,
      BitVec.ofNat_toNat, BitVec.setWidth_eq]
  simp only [parse?, text, String.toList_ofList, htext, unwrap_hyphenate,
    unhyphenate_hyphenate hlength, Option.bind_some, hdigits]
  rfl

end RecordGraph.Uuid
