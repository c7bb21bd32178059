/-
  Parameters in the buffer of a client.

  `write_run` says what `write` does to a buffer: a parameter that can be sent is appended to it,
  and one that cannot leaves it as it was, since the width and the type of a value are checked
  before its first byte.  An integer can be sent just if it fits the width of the type, and then
  as its two's complement form (`write_exact_or_untouched`).
-/
import RecordGraph.Postgres.Wire
import RecordGraph.Proofs.Number.Places
import RecordGraph.Proofs.Value.Conversion

namespace RecordGraph.Postgres

/-! ## Buffers -/

/-- Some work does not fail, and appends the same bytes to every buffer. -/
def Appends {α : Type} (w : Writer α) (a : α) (bs : List UInt8) : Prop :=
  ∀ out, w.run out = .ok a (out ++ bs)

theorem appends_put (bs : List UInt8) : Appends (put bs) () bs := fun _ => rfl

theorem appends_pure {α : Type} (a : α) : Appends (pure a) a [] := by
  intro out
  rw [List.append_nil]
  rfl

theorem Appends.bind {α β : Type} {w : Writer α} {f : α → Writer β} {a : α} {b : β}
    {bs cs : List UInt8} (hw : Appends w a bs) (hf : Appends (f a) b cs) :
    Appends (w >>= f) b (bs ++ cs) := by
  intro out
  rw [EStateM.run_bind, hw out, ← List.append_assoc]
  exact hf _

/-- The bytes of a form with its version, if the type has one. -/
def versioned (t : SqlType) (bs : List UInt8) : List UInt8 :=
  if Native.hasVersion t then formVersion :: bs else bs

theorem appends_versioned (t : SqlType) (bs : List UInt8) :
    Appends (do
      if Native.hasVersion t then put [formVersion]
      put bs) () (versioned t bs) := by
  unfold versioned
  split
  · exact (appends_put [formVersion]).bind (appends_put bs)
  · exact appends_put bs

/-- A value in its width is always written. -/
theorem Native.write_appends (t : SqlType) (n : Native) : ∃ bs, Appends (n.write t) () bs := by
  cases n with
  | text s => exact ⟨_, appends_versioned t _⟩
  | json j => exact ⟨_, appends_versioned t _⟩
  | _ => exact ⟨_, appends_put _⟩

/-! ## Parameters -/

variable {t : SqlType} {v : Value}

theorem write_of_accepted {n : Native} {bs : List UInt8}
    (hn : Native.ofValue? t v = .ok (some n)) (ha : n.accepts t)
    (hw : Appends (n.write t) () bs) : Appends (write t v) true bs := by
  have hwritten := hw.bind (f := fun _ => pure true) (appends_pure true)
  rw [List.append_nil] at hwritten
  intro out
  rw [← hwritten out, write, hn]
  simp only [ha, if_true]

theorem write_of_refused {n : Native} (hn : Native.ofValue? t v = .ok (some n))
    (ha : ¬ n.accepts t) (out : List UInt8) : (write t v).run out = .error .wrongType out := by
  rw [write, hn]
  simp only [ha]
  rfl

theorem write_of_error {e : EncodeFault} (hn : Native.ofValue? t v = .error e)
    (out : List UInt8) : (write t v).run out = .error e out := by
  rw [write, hn]
  rfl

/-- A parameter that can be sent is appended to the buffer, and one that cannot leaves it as it
    was. -/
theorem write_run (t : SqlType) (v : Value) (out : List UInt8) :
    (write t v).run out =
      match encode t v with
      | .ok (some bs) => .ok true (out ++ bs)
      | .ok none => .ok false out
      | .error e => .error e out := by
  unfold encode
  cases hn : Native.ofValue? t v with
  | error e => rw [write_of_error hn, write_of_error hn]
  | ok n =>
    cases n with
    | none =>
      rw [write, hn]
      rfl
    | some n =>
      by_cases ha : n.accepts t
      · obtain ⟨bs, hbs⟩ := n.write_appends t
        have hw := write_of_accepted hn ha hbs
        rw [hw [], hw out]
        rfl
      · rw [write_of_refused hn ha, write_of_refused hn ha]

theorem encode_of_appends {bs : List UInt8} (h : Appends (write t v) true bs) :
    encode t v = .ok (some bs) := by
  rw [encode, h []]
  rfl

/-! ## Integers -/

/-- The width in bytes of the integers of a type. -/
def SqlType.intWidth? : SqlType → Option Nat
  | int2 => some 2
  | int4 => some 4
  | int8 => some 8
  | _ => none

/-- A number has room in some bytes, the first bit of which is its sign. -/
def Fits (width : Nat) (i : Int) : Prop := -2 ^ (8 * width - 1) ≤ i ∧ i < 2 ^ (8 * width - 1)

/-- Some bytes are the two's complement form of a number, the highest byte first: each has the next
    eight bits of the number, which has its sign in all bits from the highest on. -/
structure TwosComplement (width : Nat) (i : Int) (bs : List UInt8) : Prop where
  length : bs.length = width
  byte (k : Nat) (h : k < bs.length) : (bs[k].toNat : Int) = (i >>> (8 * (width - 1 - k))) % 256

theorem twosComplement_intToBigEndian (width : Nat) (i : Int) :
    TwosComplement width i (intToBigEndian width i) :=
  ⟨length_intToBigEndian width i, getElem_intToBigEndian width i⟩

/-- The numbers of some bytes are as many on each side of zero. -/
theorem pow_width {width : Nat} (hwidth : 0 < width) :
    ((Nat.pow 256 width : Nat) : Int) = 2 * 2 ^ (8 * width - 1) := by
  obtain ⟨k, rfl⟩ : ∃ k, width = k + 1 := ⟨width - 1, by omega⟩
  have hlast : 8 * (k + 1) - 1 = 8 * k + 7 := by omega
  rw [hlast, Nat.pow_eq, pow_succ, pow_add, pow_mul]
  push_cast
  ring

/-- A number that fits is not changed where all others are brought into the range. -/
theorem bmod_of_fits {width : Nat} {i : Int} (hwidth : 0 < width) (h : Fits width i) :
    i.bmod (Nat.pow 256 width) = i := by
  have hsize := pow_width hwidth
  obtain ⟨hlow, hhigh⟩ := h
  exact Int.bmod_eq_of_le (by omega) (by omega)

theorem holds_iff_fits {range : IntType} {width : Nat} (i : Int)
    (h : (range, width) ∈ [(IntType.i16, 2), (.i32, 4), (.i64, 8)]) :
    range.Holds i ↔ Fits width i := by
  simp only [List.mem_cons, List.not_mem_nil, or_false, Prod.mk.injEq] at h
  obtain ⟨rfl, rfl⟩ | ⟨rfl, rfl⟩ | ⟨rfl, rfl⟩ := h <;>
  · simp only [IntType.Holds, IntType.least, IntType.greatest, Fits, Nat.pow_eq]
    omega

theorem fits_int64 (i : Int64) : Fits 8 i.toInt := ⟨i.le_toInt, i.toInt_lt⟩

/-- What is written of an integer that is brought into a range first. -/
theorem write_narrowed {range : IntType} {width : Nat} {f : Int64 → Native} {i : Int64}
    (hn : Native.ofValue? t (.int i) = (Native.narrowed range f i).map some)
    (hrange : range.Holds i.toInt ↔ Fits width i.toInt) (ha : (f i).accepts t)
    (hf : Fits width i.toInt → Appends ((f i).write t) () (intToBigEndian width i.toInt)) :
    (Fits width i.toInt → Appends (write t (.int i)) true (intToBigEndian width i.toInt)) ∧
    (¬ Fits width i.toInt → ∀ out, (write t (.int i)).run out = .error .outOfRange out) := by
  refine ⟨fun h => ?_, fun h => ?_⟩
  · rw [Native.narrowed, if_pos (hrange.2 h)] at hn
    exact write_of_accepted hn ha (hf h)
  · rw [Native.narrowed, if_neg fun hr => h (hrange.1 hr)] at hn
    exact write_of_error hn

/-- What is written of an integer as a type of integers. -/
theorem write_int {width : Nat} (ht : t.intWidth? = some width) (i : Int64) :
    (Fits width i.toInt → Appends (write t (.int i)) true (intToBigEndian width i.toInt)) ∧
    (¬ Fits width i.toInt → ∀ out, (write t (.int i)).run out = .error .outOfRange out) := by
  cases t with
  | int2 =>
    cases ht
    refine write_narrowed rfl (holds_iff_fits _ (by simp)) rfl fun h => ?_
    rw [← bmod_of_fits (by decide) h]
    exact i.toInt_toInt16 ▸ appends_put _
  | int4 =>
    cases ht
    refine write_narrowed rfl (holds_iff_fits _ (by simp)) rfl fun h => ?_
    rw [← bmod_of_fits (by decide) h]
    exact i.toInt_toInt32 ▸ appends_put _
  | int8 =>
    cases ht
    exact ⟨fun _ => write_of_accepted rfl rfl (appends_put _), fun h => absurd (fits_int64 i) h⟩
  | _ => cases ht

theorem readIntValue_intToBigEndian {width : Nat} {i : Int64} (hwidth : 0 < width)
    (h : Fits width i.toInt) :
    readIntValue width (intToBigEndian width i.toInt) = some (.int i) := by
  rw [readIntValue, readInt, if_pos (length_intToBigEndian ..), intOfBigEndian_intToBigEndian,
    bmod_of_fits hwidth h, Option.map_some, Int64.ofInt_toInt]

/-- An integer that fits a type of integers is read back from its form. -/
theorem decode_int {width : Nat} (ht : t.intWidth? = some width) {i : Int64}
    (h : Fits width i.toInt) : decode t (some (intToBigEndian width i.toInt)) = .ok (.int i) := by
  cases t with
  | int2 | int4 | int8 =>
    cases ht
    simp [decode, SqlType.isSupported, decodeBytes, readIntValue_intToBigEndian _ h]
  | _ => cases ht

/-- An integer is written as a type of integers just if it fits its width; then its two's
    complement form is appended, and that is read back as the integer.  Whatever cannot be
    written as a type leaves the buffer as it was. -/
theorem write_exact_or_untouched :
    (∀ (t : SqlType) (width : Nat), t.intWidth? = some width →
      ∀ (i : Int64) (out : List UInt8),
        (Fits width i.toInt → ∃ bs, TwosComplement width i.toInt bs ∧
          (write t (.int i)).run out = .ok true (out ++ bs) ∧
          decode t (some bs) = .ok (.int i)) ∧
        (¬ Fits width i.toInt → (write t (.int i)).run out = .error .outOfRange out)) ∧
    ∀ (t : SqlType) (v : Value) (out : List UInt8) (e : EncodeFault) (kept : List UInt8),
      (write t v).run out = .error e kept → kept = out := by
  refine ⟨fun t width ht i out => ⟨fun hfits => ?_, fun hfits => (write_int ht i).2 hfits out⟩,
    fun t v out e kept h => ?_⟩
  · exact ⟨_, twosComplement_intToBigEndian width _, (write_int ht i).1 hfits out,
      decode_int ht hfits⟩
  · rw [write_run] at h
    split at h
    · cases h
    · cases h
    · cases h
      rfl

/-- The least number of two bytes, the one below it, and a text instead of an identifier. -/
theorem write_least :
    (Fits 2 (-32768 : Int64).toInt ∧ ∃ bs, TwosComplement 2 (-32768) bs ∧
      (write .int2 (.int (-32768))).run [7] = .ok true (7 :: bs) ∧
      decode .int2 (some bs) = .ok (.int (-32768))) ∧
    (¬ Fits 2 (-32769 : Int64).toInt ∧
      (write .int2 (.int (-32769))).run [7] = .error .outOfRange [7]) ∧
    ∃ kept, (write .uuid (.text "7")).run [7] = .error .wrongType kept ∧ kept = [7] := by
  have hleast : Fits 2 (-32768 : Int64).toInt := ⟨by decide, by decide⟩
  have hbelow : ¬ Fits 2 (-32769 : Int64).toInt := fun h => absurd h.1 (by decide)
  have hwidth : SqlType.int2.intWidth? = some 2 := rfl
  obtain ⟨hint, hkept⟩ := write_exact_or_untouched
  exact ⟨⟨hleast, (hint .int2 2 hwidth (-32768) [7]).1 hleast⟩,
    ⟨hbelow, (hint .int2 2 hwidth (-32769) [7]).2 hbelow⟩,
    ⟨_, rfl, hkept .uuid (.text "7") [7] .wrongType _ rfl⟩⟩

example : (write .int2 (.int (-32768))).run [7] = .ok true [7, 0x80, 0] := rfl

end RecordGraph.Postgres
