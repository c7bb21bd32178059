/-
  Numbers and their bytes determine one another.

  * `places_ofPlaces` and `getElem_places` say what the places of a number are.
  * `ofHex_toHex`: a number below the power of 16 is read back from its hexadecimal digits.
  * `ofBigEndian_toBigEndian` and `toBigEndian_ofBigEndian`: a number below the power of 256 is
    read back from its bytes, and bytes are those of the number that is read from them.
  * `intOfBigEndian_intToBigEndian` and `intToBigEndian_intOfBigEndian` say the same of the two's
    complement form of an integer.
-/
import Mathlib.Algebra.Order.Ring.Int
import Mathlib.Data.List.Induction
import Mathlib.Tactic.Ring
import RecordGraph.Number.Places

namespace RecordGraph

/-! ## Places -/

theorem ofPlaces_concat (base : Nat) (ds : List Nat) (d : Nat) :
    ofPlaces base (ds ++ [d]) = ofPlaces base ds * base + d := by
  simp [ofPlaces]

theorem lt_of_mem_places {base width n d : Nat} (hbase : 0 < base)
    (h : d ∈ places base width n) : d < base := by
  induction width generalizing n with
  | zero => cases h
  | succ width ih =>
    rcases List.mem_append.1 h with h | h
    · exact ih h
    · rw [List.mem_singleton.1 h]
      exact Nat.mod_lt n hbase

theorem places_ofPlaces {base : Nat} {ds : List Nat} (h : ∀ d ∈ ds, d < base) :
    places base ds.length (ofPlaces base ds) = ds := by
  induction ds using List.reverseRecOn with
  | nil => rfl
  | append_singleton ds d ih =>
    have hd : d < base := h d (by simp)
    have hdiv : (ofPlaces base ds * base + d) / base = ofPlaces base ds := by
      rw [Nat.mul_comm, Nat.mul_add_div (by omega), Nat.div_eq_of_lt hd, Nat.add_zero]
    have hmod : (ofPlaces base ds * base + d) % base = d := by
      rw [Nat.mul_comm, Nat.mul_add_mod, Nat.mod_eq_of_lt hd]
    rw [ofPlaces_concat, List.length_append, List.length_singleton, places, hdiv, hmod,
      ih fun d' hd' => h d' (List.mem_append_left _ hd')]

/-- The place `k` from the left counts a power of the base. -/
theorem getElem_places (base width n k : Nat) (h : k < (places base width n).length) :
    (places base width n)[k] = n / Nat.pow base (width - 1 - k) % base := by
  induction width generalizing n k with
  | zero => cases h
  | succ width ih =>
    rw [length_places] at h
    simp only [places, List.getElem_append, length_places]
    split
    · rename_i hk
      have hpow : width + 1 - 1 - k = width - 1 - k + 1 := by omega
      rw [ih, hpow, Nat.div_div_eq_div_mul]
      simp only [Nat.pow_eq, Nat.pow_succ']
    · have hlast : width + 1 - 1 - k = 0 := by omega
      rw [hlast]
      simp

/-! ## Hexadecimal text -/

theorem hexValue_hexDigit : ∀ d < 16, hexValue? (hexDigit d) = some d := by decide

theorem length_toHex (width n : Nat) : (toHex width n).length = width := by
  rw [toHex, List.length_map, length_places]

theorem ofHex_toHex (width n : Nat) : ofHex? (toHex width n) = some (n % Nat.pow 16 width) := by
  have hdigits {ds : List Nat} (h : ∀ d ∈ ds, d < 16) :
      (ds.map hexDigit).mapM hexValue? = some ds := by
    induction ds with
    | nil => rfl
    | cons d ds ih =>
      rw [List.forall_mem_cons] at h
      rw [List.map_cons, List.mapM_cons, hexValue_hexDigit d h.1, ih h.2]
      rfl
  rw [ofHex?, toHex, hdigits fun d hd => lt_of_mem_places (by decide) hd, Option.map_some,
    ofPlaces_places]

/-! ## Bytes -/

theorem toNat_toBigEndian (width n : Nat) :
    (toBigEndian width n).map UInt8.toNat = places 256 width n := by
  rw [toBigEndian, List.map_map]
  refine (List.map_congr_left fun d hd => ?_).trans (List.map_id _)
  exact UInt8.toNat_ofNat_of_lt' (lt_of_mem_places (by decide) hd)

theorem ofBigEndian_toBigEndian (width n : Nat) :
    ofBigEndian (toBigEndian width n) = n % Nat.pow 256 width := by
  rw [ofBigEndian, toNat_toBigEndian, ofPlaces_places]

theorem toBigEndian_ofBigEndian (bs : List UInt8) :
    toBigEndian bs.length (ofBigEndian bs) = bs := by
  have hbytes : ∀ d ∈ bs.map UInt8.toNat, d < 256 := by
    intro d hd
    obtain ⟨b, -, rfl⟩ := List.mem_map.1 hd
    exact b.toNat_lt
  have hplaces := places_ofPlaces hbytes
  rw [List.length_map] at hplaces
  rw [toBigEndian, ofBigEndian, hplaces, List.map_map]
  exact (List.map_congr_left fun b _ => UInt8.ofNat_toNat).trans (List.map_id _)

theorem ofBigEndian_lt (bs : List UInt8) : ofBigEndian bs < Nat.pow 256 bs.length := by
  have hpos : 0 < Nat.pow 256 bs.length := Nat.pow_pos (by decide)
  have hmod := ofBigEndian_toBigEndian bs.length (ofBigEndian bs)
  rw [toBigEndian_ofBigEndian] at hmod
  rw [hmod]
  exact Nat.mod_lt _ hpos

/-! ## Two's complement -/

theorem length_intToBigEndian (width : Nat) (i : Int) :
    (intToBigEndian width i).length = width :=
  length_toBigEndian ..

theorem intOfBigEndian_intToBigEndian (width : Nat) (i : Int) :
    intOfBigEndian (intToBigEndian width i) = i.bmod (Nat.pow 256 width) := by
  have hpos : (0 : Int) < (Nat.pow 256 width : Nat) := by
    exact_mod_cast Nat.pow_pos (show 0 < 256 by decide)
  have hnonneg := Int.emod_nonneg i hpos.ne'
  have hlt : (i % (Nat.pow 256 width : Nat)).toNat < Nat.pow 256 width := by
    have := Int.emod_lt_of_pos i hpos
    omega
  rw [intOfBigEndian, length_intToBigEndian, intToBigEndian, ofBigEndian_toBigEndian,
    Nat.mod_eq_of_lt hlt, Int.toNat_of_nonneg hnonneg, Int.emod_bmod]

theorem intToBigEndian_intOfBigEndian (bs : List UInt8) :
    intToBigEndian bs.length (intOfBigEndian bs) = bs := by
  have hlt := ofBigEndian_lt bs
  have hmod : intOfBigEndian bs % (Nat.pow 256 bs.length : Nat) = (ofBigEndian bs : Int) := by
    rw [intOfBigEndian, Int.bmod_emod]
    exact_mod_cast Nat.mod_eq_of_lt hlt
  rw [intToBigEndian, hmod, Int.toNat_natCast, toBigEndian_ofBigEndian]

/-- Every byte is eight bits of the integer, the sign repeated as far as it has to be. -/
theorem getElem_intToBigEndian (width : Nat) (i : Int) (k : Nat)
    (h : k < (intToBigEndian width i).length) :
    ((intToBigEndian width i)[k].toNat : Int) = (i >>> (8 * (width - 1 - k))) % 256 := by
  rw [length_intToBigEndian] at h
  obtain ⟨m, rfl⟩ : ∃ m, width = k + (m + 1) := ⟨width - k - 1, by omega⟩
  have hm : k + (m + 1) - 1 - k = m := by omega
  have hpos : (0 : Int) < (Nat.pow 256 (k + (m + 1)) : Nat) := by
    exact_mod_cast Nat.pow_pos (show 0 < 256 by decide)
  have hnonneg := Int.emod_nonneg i hpos.ne'
  -- What is cut off is a multiple of the next higher byte.
  have hcut : i % (Nat.pow 256 (k + (m + 1)) : Nat) / (256 ^ m : Nat) % 256 =
      i / (256 ^ m : Nat) % 256 := by
    have hrest : ((Nat.pow 256 (k + (m + 1)) : Nat) : Int) =
        (256 ^ m : Nat) * (256 * 256 ^ k) := by
      simp only [Nat.pow_eq, pow_add, pow_one]
      push_cast
      ring
    have hne : ((256 ^ m : Nat) : Int) ≠ 0 := by simp
    conv_rhs => rw [← Int.emod_add_mul_ediv i (Nat.pow 256 (k + (m + 1)) : Nat), hrest, mul_assoc,
      Int.add_mul_ediv_left _ _ hne, mul_assoc, Int.add_mul_emod_self_left, ← hrest]
  have hbyte : (intToBigEndian (k + (m + 1)) i)[k].toNat =
      (i % (Nat.pow 256 (k + (m + 1)) : Nat)).toNat / 256 ^ m % 256 := by
    simp only [intToBigEndian, toBigEndian, List.getElem_map, getElem_places, hm]
    exact UInt8.toNat_ofNat_of_lt' (Nat.mod_lt _ (by decide))
  have hpow : 2 ^ (8 * m) = 256 ^ m := by
    rw [pow_mul]
    rfl
  rw [hbyte, hm, Int.shiftRight_eq_div_pow, hpow, ← hcut]
  push_cast
  rw [Int.toNat_of_nonneg hnonneg]

end RecordGraph
