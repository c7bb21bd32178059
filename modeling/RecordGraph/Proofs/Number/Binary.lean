/-
  Numbers that a binary format can hold.

  `Layout.nearestMagnitude_eq`: the pattern nearest to a number that the format holds is the one
  of that number.  As every number of 32 bits is one of 64 bits (`Layout.holds_wide`), a finite
  number that has been widened comes back when it is narrowed; of what is not a number the
  quiet form comes back, and that widens to the same pattern again.
-/
import Mathlib.Algebra.Order.Field.Power
import Mathlib.Data.Nat.Log
import Mathlib.Data.Rat.Floor
import Mathlib.Tactic.Linarith
import RecordGraph.Number.Binary

namespace RecordGraph

/-! ## Powers of two -/

theorem twoPow_eq (e : Int) : twoPow e = (2 : ℚ) ^ e := by
  cases e with
  | ofNat n => simp [twoPow]
  | negSucc n => simp [twoPow, zpow_negSucc, Rat.mkRat_eq_div]

theorem twoPow_pos (e : Int) : 0 < twoPow e := by
  rw [twoPow_eq]
  positivity

theorem twoPow_add (e e' : Int) : twoPow (e + e') = twoPow e * twoPow e' := by
  rw [twoPow_eq, twoPow_eq, twoPow_eq]
  exact zpow_add₀ (by norm_num) e e'

theorem twoPow_natCast (n : Nat) : twoPow n = ((2 ^ n : Nat) : ℚ) := by
  rw [twoPow_eq]
  simp

theorem twoPow_lt_iff {e e' : Int} : twoPow e < twoPow e' ↔ e < e' := by
  rw [twoPow_eq, twoPow_eq]
  exact zpow_lt_zpow_iff_right₀ (by norm_num)

/-! ## Binary logarithms -/

theorem log2_bounds {n : Nat} (h : n ≠ 0) :
    twoPow n.log2 ≤ (n : ℚ) ∧ (n : ℚ) < twoPow (n.log2 + 1) := by
  have hsucc : ((n.log2 : Int) + 1) = ((n.log2 + 1 : Nat) : Int) := by push_cast; rfl
  rw [hsucc, twoPow_natCast, twoPow_natCast]
  exact ⟨by exact_mod_cast Nat.log2_self_le h, by exact_mod_cast Nat.lt_log2_self⟩

/-- The logarithms of numerator and denominator are off by one at most. -/
theorem quotient_bounds {q : ℚ} (hq : 0 < q) :
    twoPow ((q.num.natAbs.log2 : Int) - q.den.log2 - 1) < q ∧
      q < twoPow ((q.num.natAbs.log2 : Int) - q.den.log2 + 1) := by
  have hden : (0 : ℚ) < q.den := by exact_mod_cast q.den_pos
  have hnum : ((q.num.natAbs : Nat) : ℚ) = q * q.den := by
    rw [Rat.mul_den_eq_num, ← Int.cast_natCast, Int.natAbs_of_nonneg (Rat.num_nonneg.2 hq.le)]
  have hn : q.num.natAbs ≠ 0 := by
    rw [Int.natAbs_ne_zero]
    exact (Rat.num_pos.2 hq).ne'
  obtain ⟨hn₁, hn₂⟩ := log2_bounds hn
  obtain ⟨hd₁, hd₂⟩ := log2_bounds q.den_ne_zero
  rw [hnum] at hn₁ hn₂
  generalize (q.num.natAbs.log2 : Int) = a at *
  generalize (q.den.log2 : Int) = b at *
  constructor
  · have hsplit : twoPow a = twoPow (a - b - 1) * twoPow (b + 1) := by
      rw [← twoPow_add]
      congr 1
      omega
    have hlt : twoPow (a - b - 1) * q.den < twoPow (a - b - 1) * twoPow (b + 1) :=
      mul_lt_mul_of_pos_left hd₂ (twoPow_pos _)
    rw [← hsplit] at hlt
    exact lt_of_mul_lt_mul_right (hlt.trans_le hn₁) hden.le
  · have hsplit : twoPow (a + 1) = twoPow (a - b + 1) * twoPow b := by
      rw [← twoPow_add]
      congr 1
      omega
    have hle : twoPow (a - b + 1) * twoPow b ≤ twoPow (a - b + 1) * q.den :=
      mul_le_mul_of_nonneg_left hd₁ (twoPow_pos _).le
    rw [← hsplit] at hle
    exact lt_of_mul_lt_mul_right (hn₂.trans_le hle) hden.le

theorem floorLog2_eq {q : ℚ} {k : Int} (h : twoPow k ≤ q) (h' : q < twoPow (k + 1)) :
    floorLog2 q = k := by
  obtain ⟨hlow, hhigh⟩ := quotient_bounds ((twoPow_pos k).trans_le h)
  have h₁ := twoPow_lt_iff.1 (h.trans_lt hhigh)
  have h₂ := twoPow_lt_iff.1 (hlow.trans h')
  unfold floorLog2
  dsimp only
  split
  · rename_i hle
    have h₃ := twoPow_lt_iff.1 (hle.trans_lt h')
    omega
  · rename_i hlt
    have h₃ := twoPow_lt_iff.1 (h.trans_lt (not_le.1 hlt))
    omega

theorem floorLog2_mul {m : Nat} (hm : m ≠ 0) (e : Int) :
    floorLog2 (m * twoPow e) = m.log2 + e := by
  obtain ⟨h, h'⟩ := log2_bounds hm
  refine floorLog2_eq ?_ ?_
  · rw [twoPow_add]
    exact mul_le_mul_of_nonneg_right h (twoPow_pos e).le
  · rw [show (m.log2 : Int) + e + 1 = m.log2 + 1 + e by omega, twoPow_add]
    exact mul_lt_mul_of_pos_right h' (twoPow_pos e)

theorem roundHalfEven_natCast (n : Nat) : roundHalfEven (n : ℚ) = n := by
  have hfloor : (n : ℚ).floor = n := Rat.floor_intCast n
  unfold roundHalfEven
  simp [hfloor]

/-! ## Patterns -/

namespace Layout

variable {L : Layout} {negative : Bool} {s n : Nat}

/-- The weight of the sign, if there is one. -/
def sign (L : Layout) (negative : Bool) : Nat := if negative then L.signWeight else 0

/-- The format holds the number `s` in units of `n` places above the lowest one. -/
structure Holds (L : Layout) (s n : Nat) : Prop where
  small : s < 2 ^ (L.fraction + 1)
  /-- Above the lowest place all bits of the significand are used. -/
  normal : n = 0 ∨ 2 ^ L.fraction ≤ s
  finite : n * 2 ^ L.fraction + s < L.infinity

/-- The pattern of such a number. -/
def pattern (L : Layout) (negative : Bool) (s n : Nat) : Nat :=
  L.sign negative + (n * 2 ^ L.fraction + s)

theorem infinity_add : L.infinity + 2 ^ L.fraction = L.signWeight := by
  have hpos : 0 < 2 ^ L.exponent := by positivity
  simp only [infinity, signWeight, Nat.pow_eq]
  rw [← Nat.succ_mul, Nat.pow_add, Nat.mul_comm, Nat.succ_eq_add_one, Nat.sub_add_cancel hpos]

theorem sign_le (negative : Bool) : L.sign negative ≤ L.signWeight := by
  cases negative <;> simp [sign]

/-- The nearest pattern to a number that the format holds is its own. -/
theorem nearestMagnitude_eq (h : L.Holds s n) :
    L.nearestMagnitude (s * twoPow (L.lowest + n)) = n * 2 ^ L.fraction + s := by
  by_cases hs : s = 0
  · have hn : n = 0 := by
      refine h.normal.resolve_right fun hle => ?_
      have hpos : 0 < 2 ^ L.fraction := by positivity
      omega
    simp [hs, hn, nearestMagnitude]
  have hpos : 0 < (s : ℚ) * twoPow (L.lowest + n) :=
    mul_pos (by exact_mod_cast Nat.pos_of_ne_zero hs) (twoPow_pos _)
  have hlog : s.log2 ≤ L.fraction := Nat.lt_succ_iff.1 ((Nat.log2_lt hs).2 h.small)
  have hplace : max L.lowest (floorLog2 (s * twoPow (L.lowest + n)) - L.fraction) =
      L.lowest + n := by
    rw [floorLog2_mul hs]
    rcases h.normal with hn | hn
    · omega
    · have hfull : L.fraction ≤ s.log2 := (Nat.le_log2 hs).2 hn
      omega
  unfold nearestMagnitude
  rw [if_neg (not_le.2 hpos)]
  simp only [hplace]
  rw [mul_div_cancel_right₀ _ (twoPow_pos _).ne', roundHalfEven_natCast]
  have hfinite := h.finite
  simp only [Nat.pow_eq, add_sub_cancel_left, Int.toNat_natCast]
  omega

theorem nearest_eq (h : L.Holds s n) (negative : Bool) :
    L.nearest negative (s * twoPow (L.lowest + n)) = L.pattern negative s n := by
  rw [nearest, nearestMagnitude_eq h]
  rfl

theorem mod_signWeight {m : Nat} (hm : m < L.signWeight) :
    (L.sign negative + m) % L.signWeight = m := by
  cases negative
  · simp [sign, Nat.mod_eq_of_lt hm]
  · simp [sign, Nat.mod_eq_of_lt hm]

theorem signWeight_le_iff {m : Nat} (hm : m < L.signWeight) :
    L.signWeight ≤ L.sign negative + m ↔ negative = true := by
  cases negative
  · simp [sign, hm]
  · simp [sign]

theorem read_pattern (h : L.Holds s n) :
    L.read (L.pattern negative s n) = .finite negative s (L.lowest + n) := by
  have hpos : 0 < 2 ^ L.fraction := by positivity
  have hinf := L.infinity_add
  have hfinite := h.finite
  have hsmall := h.small
  rw [Nat.pow_succ] at hsmall
  have hlt : n * 2 ^ L.fraction + s < L.signWeight := by omega
  have hneg : decide (L.signWeight ≤ L.pattern negative s n) = negative := by
    rw [Bool.eq_iff_iff, decide_eq_true_iff]
    exact signWeight_le_iff hlt
  unfold read
  simp only [hneg]
  simp only [pattern, mod_signWeight hlt, Nat.pow_eq]
  rw [if_neg (by omega), if_neg (by omega)]
  by_cases hsub : n * 2 ^ L.fraction + s < 2 ^ L.fraction
  · rw [if_pos hsub]
    have hn : n = 0 := by
      by_contra hn
      have hle : 1 * 2 ^ L.fraction ≤ n * 2 ^ L.fraction :=
        Nat.mul_le_mul_right _ (Nat.pos_of_ne_zero hn)
      omega
    simp [hn]
  · rw [if_neg hsub]
    have hs : 2 ^ L.fraction ≤ s := by
      rcases h.normal with rfl | hs
      · omega
      · exact hs
    -- The leading bit of the significand goes into the exponent.
    have hsplit : n * 2 ^ L.fraction + s = (s - 2 ^ L.fraction) + (n + 1) * 2 ^ L.fraction := by
      rw [Nat.succ_mul]
      omega
    have hrest : s - 2 ^ L.fraction < 2 ^ L.fraction := by omega
    rw [hsplit, Nat.add_mul_mod_self_right, Nat.mod_eq_of_lt hrest,
      Nat.add_mul_div_right _ _ hpos, Nat.div_eq_of_lt hrest]
    simp only [Reading.finite.injEq, true_and]
    constructor
    · omega
    · congr 1
      omega

theorem eq_sign_add {bits : Nat} (hb : bits < 2 * L.signWeight) :
    bits = L.sign (decide (L.signWeight ≤ bits)) + bits % L.signWeight := by
  by_cases hs : L.signWeight ≤ bits
  · have hmod : bits % L.signWeight = bits - L.signWeight := by
      rw [Nat.mod_eq_sub_mod hs, Nat.mod_eq_of_lt (by omega)]
    simp only [sign, hs, decide_true, if_true, hmod]
    omega
  · simp [sign, hs, Nat.mod_eq_of_lt (not_le.1 hs)]

/-- Every pattern that stands for a finite number is the one of that number. -/
theorem pattern_of_read {bits m : Nat} {e : Int} (hb : bits < 2 * L.signWeight)
    (h : L.read bits = .finite negative m e) :
    ∃ n : Nat, L.Holds m n ∧ e = L.lowest + n ∧ bits = L.pattern negative m n := by
  have hinf := L.infinity_add
  have hpos : 0 < 2 ^ L.fraction := by positivity
  have hbits := eq_sign_add hb
  unfold read at h
  dsimp only at h
  rw [Nat.pow_eq] at h
  split at h
  · cases h
  split at h
  · cases h
  have hlt : bits % L.signWeight < L.infinity := by omega
  split at h
  · rename_i hsub
    cases h
    refine ⟨0, ⟨?_, .inl rfl, by simpa using hlt⟩, by simp, ?_⟩
    · rw [Nat.pow_succ]
      omega
    · simpa [pattern] using hbits
  · rename_i hsub
    cases h
    have hdiv : 1 ≤ bits % L.signWeight / 2 ^ L.fraction :=
      (Nat.one_le_div_iff hpos).2 (not_lt.1 hsub)
    have hmod := Nat.div_add_mod (bits % L.signWeight) (2 ^ L.fraction)
    have hrest := Nat.mod_lt (bits % L.signWeight) hpos
    obtain ⟨k, hk⟩ := Nat.exists_eq_add_of_le hdiv
    have hsum : k * 2 ^ L.fraction +
        (2 ^ L.fraction + bits % L.signWeight % 2 ^ L.fraction) = bits % L.signWeight := by
      rw [hk, Nat.mul_add, Nat.mul_one, Nat.mul_comm _ k] at hmod
      omega
    refine ⟨k, ⟨?_, .inr (by omega), by omega⟩, by rw [hk]; simp, ?_⟩
    · rw [Nat.pow_succ]
      omega
    · rw [pattern, hsum]
      exact hbits

/-- A pattern above infinity is not a number, and has no sign to speak of. -/
theorem read_nan {x : Nat} (hx : 0 < x) (hlt : x < 2 ^ L.fraction) (negative : Bool) :
    L.read (L.sign negative + L.infinity + x) = .nan := by
  have hinf := L.infinity_add
  unfold read
  simp only [Nat.add_assoc, mod_signWeight (show L.infinity + x < L.signWeight by omega)]
  rw [if_pos (by omega)]

theorem nan_of_read {bits : Nat} (hb : bits < 2 * L.signWeight) (h : L.read bits = .nan) :
    ∃ (negative : Bool) (x : Nat), 0 < x ∧ x < 2 ^ L.fraction ∧
      bits = L.sign negative + L.infinity + x := by
  have hinf := L.infinity_add
  have hbits := eq_sign_add hb
  have habove : L.infinity < bits % L.signWeight := by
    unfold read at h
    dsimp only at h
    split at h
    · assumption
    split at h
    · cases h
    split at h <;> cases h
  have hlt : bits % L.signWeight < L.signWeight := Nat.mod_lt _ (by omega)
  exact ⟨decide (L.signWeight ≤ bits), bits % L.signWeight - L.infinity,
    by omega, by omega, by omega⟩

theorem read_infinity (L : Layout) (negative : Bool) :
    L.read (L.sign negative + L.infinity) = .infinite negative := by
  have hpos : 0 < 2 ^ L.fraction := by positivity
  have hinf := L.infinity_add
  have hlt : L.infinity < L.signWeight := by omega
  have hneg : decide (L.signWeight ≤ L.sign negative + L.infinity) = negative := by
    rw [Bool.eq_iff_iff, decide_eq_true_iff]
    exact signWeight_le_iff hlt
  unfold read
  simp only [hneg, mod_signWeight hlt]
  rw [if_neg (Nat.lt_irrefl _), if_pos True.intro]

/-! ## From 32 bits to 64 and back -/

/-- A number of 32 bits is one of 64 bits. -/
theorem holds_wide (h : binary32.Holds s n) : ∃ s' n', binary64.Holds s' n' ∧
    (s' : ℚ) * twoPow (binary64.lowest + n') = s * twoPow (binary32.lowest + n) := by
  have hsmall : s < 2 ^ 24 := h.small
  have hfinite : n * 2 ^ 23 + s < 255 * 2 ^ 23 := h.finite
  by_cases hs : s = 0
  · exact ⟨0, 0, ⟨by decide, .inl rfl, by decide⟩, by simp [hs]⟩
  have hlog : s.log2 < 24 := (Nat.log2_lt hs).2 hsmall
  have hle := Nat.log2_self_le hs
  have hlt := @Nat.lt_log2_self s
  -- The significand is moved up until it has all bits.
  obtain ⟨j, hj⟩ : ∃ j, s.log2 + j = 52 := ⟨52 - s.log2, by omega⟩
  have hfull : 2 ^ 52 ≤ s * 2 ^ j := by
    rw [← hj, Nat.pow_add]
    exact Nat.mul_le_mul_right _ hle
  have hbits : s * 2 ^ j < 2 ^ 53 := by
    rw [show 53 = s.log2 + 1 + j by omega, Nat.pow_add]
    exact Nat.mul_lt_mul_of_pos_right hlt (by positivity)
  refine ⟨s * 2 ^ j, 925 + n - j, ⟨hbits, .inr hfull, ?_⟩, ?_⟩
  · have hplace : (925 + n - j) * 2 ^ 52 ≤ 2045 * 2 ^ 52 := Nat.mul_le_mul_right _ (by omega)
    calc (925 + n - j) * 2 ^ 52 + s * 2 ^ j
        < 2045 * 2 ^ 52 + 2 ^ 53 := Nat.add_lt_add_of_le_of_lt hplace hbits
      _ = binary64.infinity := by decide +kernel
  · have hexp : binary32.lowest + (n : Int) = j + (binary64.lowest + ((925 + n - j : Nat) : Int)) := by
      have h64 : binary64.lowest = -1074 := by decide
      have h32 : binary32.lowest = -149 := by decide
      rw [h64, h32]
      omega
    rw [hexp, twoPow_add (j : Int), twoPow_natCast j]
    push_cast
    ring

theorem recode_finite (K : Layout) {s' n' : Nat} (h : L.Holds s n) (h' : K.Holds s' n')
    (heq : (s' : ℚ) * twoPow (K.lowest + n') = s * twoPow (L.lowest + n)) :
    L.recode K (L.pattern negative s n) = K.pattern negative s' n' := by
  unfold recode
  rw [read_pattern h]
  dsimp only
  rw [← heq, nearest_eq h']

theorem recode_infinite (L K : Layout) (negative : Bool) :
    L.recode K (L.sign negative + L.infinity) = K.sign negative + K.infinity := by
  unfold recode
  rw [read_infinity]
  rfl

theorem sign_infinity_add_mod (L : Layout) (negative : Bool) {x : Nat}
    (hx : x < 2 ^ L.fraction) : (L.sign negative + L.infinity + x) % 2 ^ L.fraction = x := by
  have hsign : L.sign negative = (if negative then 2 ^ L.exponent else 0) * 2 ^ L.fraction := by
    cases negative
    · simp [sign]
    · simp [sign, signWeight, Nat.pow_add, Nat.mul_comm]
  rw [hsign, infinity, Nat.pow_eq, Nat.pow_eq, ← Nat.add_mul, Nat.add_comm,
    Nat.add_mul_mod_self_right, Nat.mod_eq_of_lt hx]

/-- Of what is not a number the leading fraction bits are kept, and it is made quiet. -/
theorem recode_nan (L K : Layout) (negative : Bool) {x : Nat} (hpos : 0 < x)
    (hx : x < 2 ^ L.fraction) :
    L.recode K (L.sign negative + L.infinity + x) = K.sign negative + K.infinity +
      (x * 2 ^ K.fraction / 2 ^ L.fraction ||| 2 ^ (K.fraction - 1)) := by
  have hlt : L.infinity + x < L.signWeight := by
    rw [← infinity_add]
    exact Nat.add_lt_add_left hx _
  unfold recode
  rw [read_nan hpos hx]
  simp only [Nat.pow_eq, sign_infinity_add_mod L negative hx]
  simp only [Nat.add_assoc, signWeight_le_iff hlt]
  rfl

theorem recode_nan_wide (negative : Bool) {x : Nat} (hpos : 0 < x) (hx : x < 2 ^ 23) :
    binary32.recode binary64 (binary32.sign negative + binary32.infinity + x) =
      binary64.sign negative + binary64.infinity + (x ||| 2 ^ 22) * 2 ^ 29 := by
  have hshift : x * 2 ^ 52 / 2 ^ 23 ||| 2 ^ 51 = (x ||| 2 ^ 22) * 2 ^ 29 := by
    have h : (x ||| 2 ^ 22) <<< 29 = x <<< 29 ||| 2 ^ 22 <<< 29 := Nat.shiftLeft_or_distrib
    simp only [Nat.shiftLeft_eq] at h
    rw [h, show x * 2 ^ 52 / 2 ^ 23 = x * 2 ^ 29 by omega]
    rfl
  rw [recode_nan binary32 binary64 negative hpos hx]
  exact congrArg _ hshift

theorem recode_nan_narrow (negative : Bool) {x : Nat} (hpos : 0 < x) (hx : x < 2 ^ 23) :
    binary64.recode binary32 (binary64.sign negative + binary64.infinity + x * 2 ^ 29) =
      binary32.sign negative + binary32.infinity + (x ||| 2 ^ 22) := by
  have hfraction : x * 2 ^ 29 < 2 ^ 52 := by omega
  have hkept : x * 2 ^ 29 * 2 ^ 23 / 2 ^ 52 = x := by omega
  rw [recode_nan binary64 binary32 negative (by omega) hfraction]
  exact congrArg (fun y => binary32.sign negative + binary32.infinity + (y ||| 2 ^ 22)) hkept

/-- Widening, narrowing and widening again is widening. -/
theorem recode_recode {bits : Nat} (hb : bits < 2 * binary32.signWeight) :
    binary32.recode binary64 (binary64.recode binary32 (binary32.recode binary64 bits)) =
      binary32.recode binary64 bits := by
  cases hr : binary32.read bits with
  | infinite negative =>
    have hw : binary32.recode binary64 bits = binary64.sign negative + binary64.infinity := by
      unfold recode
      rw [hr]
      rfl
    rw [hw, recode_infinite, recode_infinite]
  | finite negative m e =>
    obtain ⟨n, hn, rfl, rfl⟩ := pattern_of_read hb hr
    obtain ⟨s', n', hn', heq⟩ := holds_wide hn
    rw [recode_finite binary64 hn hn' heq, recode_finite binary32 hn' hn heq.symm,
      recode_finite binary64 hn hn' heq]
  | nan =>
    obtain ⟨negative, x, hpos, hx, rfl⟩ := nan_of_read hb hr
    have hquiet : x ||| 2 ^ 22 < 2 ^ 23 := Nat.or_lt_two_pow hx (by norm_num)
    have hquiet_pos : 0 < x ||| 2 ^ 22 := Nat.lt_of_lt_of_le hpos Nat.left_le_or
    rw [recode_nan_wide negative hpos hx, recode_nan_narrow negative hquiet_pos hquiet,
      recode_nan_wide negative (Nat.lt_of_lt_of_le hquiet_pos Nat.left_le_or)
        (Nat.or_lt_two_pow hquiet (by norm_num)),
      Nat.or_assoc, Nat.or_assoc, Nat.or_self, Nat.or_self]

theorem nearest_le (L : Layout) (negative : Bool) (q : ℚ) :
    L.nearest negative q ≤ L.sign negative + L.infinity := by
  refine Nat.add_le_add_left ?_ _
  unfold nearestMagnitude
  split
  · exact Nat.zero_le _
  · exact Nat.min_le_left _ _

theorem recode_lt (L : Layout) {K : Layout} (hK : 0 < K.fraction) (bits : Nat) :
    L.recode K bits < 2 * K.signWeight := by
  have hinf := K.infinity_add
  have hpos : 0 < 2 ^ K.fraction := by positivity
  unfold recode
  cases L.read bits with
  | finite negative m e =>
    have hle := K.nearest_le negative (m * twoPow e)
    have hsign := K.sign_le negative
    dsimp only
    omega
  | infinite negative =>
    have hsign := K.sign_le negative
    simp only [sign] at hsign
    dsimp only
    omega
  | nan =>
    have hkept : bits % 2 ^ L.fraction * 2 ^ K.fraction / 2 ^ L.fraction < 2 ^ K.fraction := by
      rw [Nat.div_lt_iff_lt_mul (by positivity), Nat.mul_comm (2 ^ K.fraction)]
      exact Nat.mul_lt_mul_of_pos_right (Nat.mod_lt _ (by positivity)) hpos
    have hquiet : 2 ^ (K.fraction - 1) < 2 ^ K.fraction :=
      Nat.pow_lt_pow_right (by norm_num) (by omega)
    have hor := Nat.or_lt_two_pow hkept hquiet
    have hsign := K.sign_le (decide (L.signWeight ≤ bits))
    simp only [sign, decide_eq_true_eq] at hsign
    simp only [Nat.pow_eq]
    omega

end Layout

theorem Single.widen_bits (x : Single) :
    x.widen.bits.toNat = Layout.binary32.recode .binary64 x.bits.toNat :=
  UInt64.toNat_ofNat_of_lt (Layout.recode_lt .binary32 (by decide) _)

theorem Double.narrow_bits (x : Double) :
    x.narrow.bits.toNat = Layout.binary64.recode .binary32 x.bits.toNat :=
  UInt32.toNat_ofNat_of_lt (Layout.recode_lt .binary64 (by decide) _)

theorem Single.widen_narrow_widen (x : Single) : x.widen.narrow.widen = x.widen := by
  have h := Layout.recode_recode x.bits.toNat_lt
  rw [← widen_bits, ← Double.narrow_bits, ← widen_bits] at h
  exact congrArg Double.mk (UInt64.toNat_inj.1 h)

end RecordGraph
