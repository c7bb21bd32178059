/-
  Values of columns that are written back.

  Every value that is read from a column can be sent as the type of the column, but for numbers of
  arbitrary precision: these are read as fractions of 64 bits, and such a fraction is not sent as
  their type.  What is sent is read as the value again, but for documents that have a fraction
  which is not read back from its text (`encode_of_decode`).
-/
import RecordGraph.Proofs.Json.Rereading
import RecordGraph.Proofs.Number.Binary
import RecordGraph.Proofs.Postgres.Writing

namespace RecordGraph.Postgres

variable {t : SqlType} {bs : List UInt8} {v : Value}

/-! ## Forms -/

/-- A column of a type that is read has the value of its bytes. -/
theorem decode_iff : decode t (some bs) = .ok v ↔ decodeBytes t bs = some v := by
  unfold decode
  constructor
  · intro h
    split at h
    · dsimp only at h
      split at h
      · cases h
        assumption
      · cases h
    · cases h
  · intro h
    have hsupported : t.isSupported := by
      cases t with
      | other => cases h
      | _ => rfl
    simp only [hsupported, if_true, h]

/-- A value is sent as what is written of it in its width. -/
theorem encode_of_accepted {n : Native} {sent : List UInt8}
    (hn : Native.ofValue? t v = .ok (some n)) (ha : n.accepts t)
    (hw : Appends (n.write t) () sent) (h : sent = bs) : encode t v = .ok (some bs) :=
  h ▸ encode_of_appends (write_of_accepted hn ha hw)

theorem textBytes_of_readText {s : String} (h : readText bs = some s) : textBytes s = bs := by
  unfold readText String.fromUTF8? at h
  split at h
  · cases h
    rfl
  · cases h

theorem readText_textBytes (s : String) : readText (textBytes s) = some s :=
  dif_pos s.isValidUTF8

theorem afterVersion_eq {form : List UInt8} (h : afterVersion bs = some form) :
    bs = formVersion :: form := by
  cases bs with
  | nil => cases h
  | cons b bs =>
    rw [afterVersion] at h
    split at h
    · rename_i hb
      cases h
      rw [hb]
    · cases h

/-! ## Integers -/

theorem fits_intOfBigEndian (bs : List UInt8) (h : 0 < bs.length) :
    Fits bs.length (intOfBigEndian bs) := by
  have hsize := pow_width h
  have hpos : (0 : Nat) < Nat.pow 256 bs.length := Nat.pow_pos (by decide)
  have hlow := Int.le_bmod (x := (ofBigEndian bs : Int)) hpos
  have hhigh := Int.bmod_lt (x := (ofBigEndian bs : Int)) hpos
  unfold Fits intOfBigEndian
  constructor <;> omega

theorem intToBigEndian_of_readInt {width : Nat} {i : Int} (h : readInt width bs = some i) :
    bs.length = width ∧ intToBigEndian width i = bs := by
  unfold readInt at h
  split at h
  · rename_i hlength
    cases h
    exact ⟨hlength, hlength ▸ intToBigEndian_intOfBigEndian bs⟩
  · cases h

theorem intWidth_pos {width : Nat} (ht : t.intWidth? = some width) : 0 < width ∧ width ≤ 8 := by
  cases t with
  | int2 | int4 | int8 =>
    cases ht
    decide
  | _ => cases ht

theorem Fits.mono {width width' : Nat} {i : Int} (h : Fits width i) (hle : width ≤ width') :
    Fits width' i := by
  have hpow : (2 : Int) ^ (8 * width - 1) ≤ 2 ^ (8 * width' - 1) :=
    pow_le_pow_right₀ (by decide) (by omega)
  obtain ⟨hlow, hhigh⟩ := h
  exact ⟨by omega, by omega⟩

/-- An integer that is read is sent in the bytes it is read from. -/
theorem encode_int {width : Nat} (ht : t.intWidth? = some width)
    (h : readIntValue width bs = some v) : encode t v = .ok (some bs) := by
  obtain ⟨i, hi, rfl⟩ := Option.map_eq_some_iff.1 h
  obtain ⟨hlength, hbytes⟩ := intToBigEndian_of_readInt hi
  obtain ⟨hpos, hle⟩ := intWidth_pos ht
  have hfits : Fits width i := by
    rw [readInt, if_pos hlength] at hi
    cases hi
    rw [← hlength] at hpos ⊢
    exact fits_intOfBigEndian bs hpos
  have hvalue : (Int64.ofInt i).toInt = i := by
    obtain ⟨hlow, hhigh⟩ := hfits.mono hle
    exact Int64.toInt_ofInt_of_le hlow hhigh
  have hwrite := (write_int ht (Int64.ofInt i)).1
  rw [hvalue, hbytes] at hwrite
  exact encode_of_appends (hwrite hfits)

/-! ## Dates and moments -/

theorem microsOf_momentOf (micros : Int) : microsOf (momentOf micros) = micros := by
  have hsum : (firstSecond + micros.fdiv 1000000 - firstSecond) * 1000000000 +
      ((micros.fmod 1000000).toNat * 1000 : Nat) = micros * 1000 := by
    rw [Int.fdiv_eq_ediv_of_nonneg micros (by decide),
      Int.fmod_eq_emod_of_nonneg micros (by decide)]
    omega
  rw [microsOf, momentOf, hsum]
  exact Int.mul_tdiv_cancel micros (by decide)

/-- A moment that is read is sent in the bytes it is read from. -/
theorem intToBigEndian_of_readMoment {m : Moment} (h : readMoment bs = some m) :
    intToBigEndian 8 (microsOf m) = bs := by
  obtain ⟨hmoment, -⟩ := Option.filter_eq_some_iff.1 h
  obtain ⟨micros, hmicros, rfl⟩ := Option.map_eq_some_iff.1 hmoment
  rw [microsOf_momentOf]
  exact (intToBigEndian_of_readInt hmicros).2

/-- A day that is read is sent in the bytes it is read from. -/
theorem intToBigEndian_of_readDate {d : Date} (h : readDate bs = some d) :
    intToBigEndian 4 (d.days - firstDay.days) = bs := by
  obtain ⟨hday, -⟩ := Option.filter_eq_some_iff.1 h
  obtain ⟨days, hdays, rfl⟩ := Option.map_eq_some_iff.1 hday
  have hdiff : firstDay.days + days - firstDay.days = days := by omega
  change intToBigEndian 4 (firstDay.days + days - firstDay.days) = bs
  rw [hdiff]
  exact (intToBigEndian_of_readInt hdays).2

/-! ## Columns -/

/-- Bits are sent in the bytes they are read from. -/
theorem toBigEndian_bits {width : Nat} (bits : Nat) (h : bs.length = width)
    (hbits : Nat.pow 256 width = 2 ^ bits) :
    toBigEndian width (ofBigEndian bs % 2 ^ bits) = bs := by
  subst h
  rw [← hbits, Nat.mod_eq_of_lt (ofBigEndian_lt bs), toBigEndian_ofBigEndian]

/-- Values of other types than these are sent in the bytes they are read from. -/
theorem encode_same (ht : t ∉ [.bool, .float4, .numeric, .json, .jsonb])
    (h : decodeBytes t bs = some v) : encode t v = .ok (some bs) := by
  cases t with
  | bool | float4 | numeric | json | jsonb => simp at ht
  | int2 | int4 | int8 => exact encode_int rfl h
  | float8 =>
    rw [decodeBytes] at h
    split at h
    · rename_i hlength
      cases h
      exact encode_of_accepted rfl rfl (appends_put _) (toBigEndian_bits 64 hlength rfl)
    · cases h
  | text kind =>
    obtain ⟨s, hs, rfl⟩ := Option.map_eq_some_iff.1 h
    exact encode_of_accepted rfl rfl (appends_versioned (.text kind) (textBytes s))
      (textBytes_of_readText hs)
  | path kind =>
    obtain ⟨s, hform, rfl⟩ := Option.map_eq_some_iff.1 h
    obtain ⟨form, hversion, hs⟩ := Option.bind_eq_some_iff.1 hform
    rw [afterVersion_eq hversion, ← textBytes_of_readText hs]
    exact encode_of_accepted rfl rfl (appends_versioned (.path kind) (textBytes s)) rfl
  | uuid =>
    rw [decodeBytes] at h
    split at h
    · rename_i hlength
      cases h
      exact encode_of_accepted rfl rfl (appends_put _) (toBigEndian_bits 128 hlength rfl)
    · cases h
  | timestamptz | timestamp =>
    obtain ⟨m, hm, rfl⟩ := Option.map_eq_some_iff.1 h
    exact encode_of_accepted rfl rfl (appends_put _) (intToBigEndian_of_readMoment hm)
  | date =>
    obtain ⟨d, hd, rfl⟩ := Option.map_eq_some_iff.1 h
    exact encode_of_accepted rfl rfl (appends_put _) (intToBigEndian_of_readDate hd)
  | bytea =>
    cases h
    exact encode_of_accepted rfl rfl (appends_put bs) rfl
  | other => cases h

theorem bool_of_decodeBytes (h : decodeBytes .bool bs = some v) : ∃ b, v = .bool b := by
  obtain _ | ⟨b, _ | ⟨_, _⟩⟩ := bs
  · cases h
  · cases h
    exact ⟨_, rfl⟩
  · cases h

/-- A truth value is sent as one or zero, whatever byte it is read from. -/
theorem encode_bool (h : decodeBytes .bool bs = some v) :
    ∃ sent, encode .bool v = .ok (some sent) ∧ decode .bool (some sent) = .ok v := by
  obtain ⟨b, rfl⟩ := bool_of_decodeBytes h
  cases b with
  | false => exact ⟨[0], rfl, rfl⟩
  | true => exact ⟨[1], rfl, rfl⟩

/-- A fraction of 32 bits is read as one of 64 bits, and narrowed to its own bits again, but for
    those of what is not a number, which is made quiet. -/
theorem encode_float4 (h : decodeBytes .float4 bs = some v) :
    ∃ sent, encode .float4 v = .ok (some sent) ∧ decode .float4 (some sent) = .ok v := by
  rw [decodeBytes] at h
  split at h
  · cases h
    refine ⟨_, encode_of_accepted rfl rfl (appends_put _) rfl, decode_iff.2 ?_⟩
    rw [decodeBytes, if_pos (length_toBigEndian ..), ofBigEndian_toBigEndian,
      Nat.mod_eq_of_lt (UInt32.toNat_lt _), UInt32.ofNat_toNat, Single.widen_narrow_widen]
  · cases h

/-! ## Documents -/

/-- A document that is read of a text is tidy, and its own text is read as what is read of its
    parts. -/
theorem readJson_text {j : Json} (h : readJson bs = some j) :
    readJson (textBytes j.text) = j.reread := by
  obtain ⟨s, -, hs⟩ := Option.bind_eq_some_iff.1 h
  rw [readJson, readText_textBytes, Option.bind_some, (Json.read?_tidy hs).read_text]

/-- A document is sent as its text, and what is read of that is read of its parts. -/
theorem encode_json {j : Json} (ht : t = .json ∨ t = .jsonb)
    (h : decodeBytes t bs = some (.json j)) :
    encode t (.json j) = .ok (some (versioned t (textBytes j.text))) ∧
    decodeBytes t (versioned t (textBytes j.text)) = j.reread.map .json := by
  rcases ht with rfl | rfl
  · obtain ⟨_, hj, ⟨⟩⟩ := Option.map_eq_some_iff.1 h
    refine ⟨encode_of_accepted rfl rfl (appends_versioned .json _) rfl, ?_⟩
    exact congrArg (Option.map Value.json) (readJson_text hj)
  · obtain ⟨_, hform, ⟨⟩⟩ := Option.map_eq_some_iff.1 h
    obtain ⟨form, -, hj⟩ := Option.bind_eq_some_iff.1 hform
    refine ⟨encode_of_accepted rfl rfl (appends_versioned .jsonb _) rfl, ?_⟩
    exact congrArg (Option.map Value.json) (readJson_text hj)

/-- Documents are read of the two types of documents, and nothing else is. -/
theorem json_iff (h : decodeBytes t bs = some v) : (t = .json ∨ t = .jsonb) ↔ ∃ j, v = .json j := by
  cases t with
  | json | jsonb =>
    obtain ⟨j, -, rfl⟩ := Option.map_eq_some_iff.1 h
    simp
  | bool =>
    obtain ⟨b, rfl⟩ := bool_of_decodeBytes h
    simp
  | float4 | float8 | uuid =>
    rw [decodeBytes] at h
    split at h <;> cases h
    simp
  | bytea =>
    cases h
    simp
  | other => cases h
  | _ =>
    obtain ⟨_, -, rfl⟩ := Option.map_eq_some_iff.1 h
    simp

/-! ## Values written back -/

/-- Every fraction in a value is read back from the text of documents. -/
def Exact : Value → Prop
  | .json j => ∀ x ∈ j.fractions, Json.ReadBack x
  | _ => True

theorem encode_numeric (h : decodeBytes .numeric bs = some v) :
    encode .numeric v = .error .wrongType := by
  obtain ⟨d, -, rfl⟩ := Option.map_eq_some_iff.1 h
  rfl

/-- A value that was read from a column can be sent as the type of the column, unless that is the
    type of numbers of arbitrary precision, and is then read again as it was just if all fractions
    in it are read back from the text of documents. -/
theorem encode_of_decode (h : decode t (some bs) = .ok v) :
    (t = .numeric → encode t v = .error .wrongType) ∧
    (t ≠ .numeric → ∃ sent, encode t v = .ok (some sent) ∧
      (decode t (some sent) = .ok v ↔ Exact v)) := by
  have hbytes := decode_iff.1 h
  refine ⟨fun ht => ?_, fun ht => ?_⟩
  · subst ht
    exact encode_numeric hbytes
  by_cases hjson : t = .json ∨ t = .jsonb
  · obtain ⟨j, rfl⟩ := (json_iff hbytes).1 hjson
    obtain ⟨hsent, hread⟩ := encode_json hjson hbytes
    refine ⟨_, hsent, ?_⟩
    rw [decode_iff, hread, Exact, ← Json.reread_iff]
    simp
  · have hexact : Exact v := by
      cases v with
      | json j => exact absurd ((json_iff hbytes).2 ⟨j, rfl⟩) hjson
      | _ => trivial
    suffices hsent : ∃ sent, encode t v = .ok (some sent) ∧ decode t (some sent) = .ok v by
      obtain ⟨sent, hencode, hdecode⟩ := hsent
      exact ⟨sent, hencode, iff_of_true hdecode hexact⟩
    by_cases hbool : t = .bool
    · subst hbool
      exact encode_bool hbytes
    by_cases hfloat4 : t = .float4
    · subst hfloat4
      exact encode_float4 hbytes
    exact ⟨bs, encode_same (by simp_all) hbytes, h⟩

/-- One and a half, as a number of arbitrary precision and in a document. -/
theorem half_written_back :
    (decode .numeric (some [0, 2, 0, 0, 0, 0, 0, 1, 0, 1, 0x13, 0x88]) =
        .ok (.float ⟨0x3FF8000000000000⟩) ∧
      encode .numeric (.float ⟨0x3FF8000000000000⟩) = .error .wrongType) ∧
    decode .json (some (textBytes "[1.5]")) =
        .ok (.json (.array [.number (.fraction ⟨0x3FF8000000000000⟩)])) ∧
      ∃ sent, encode .json (.json (.array [.number (.fraction ⟨0x3FF8000000000000⟩)])) =
          .ok (some sent) ∧
        decode .json (some sent) =
          .ok (.json (.array [.number (.fraction ⟨0x3FF8000000000000⟩)])) := by
  have hnumeric : decode .numeric (some [0, 2, 0, 0, 0, 0, 0, 1, 0, 1, 0x13, 0x88]) =
      .ok (.float ⟨0x3FF8000000000000⟩) := by decide +kernel
  have hjson : decode .json (some (textBytes "[1.5]")) =
      .ok (.json (.array [.number (.fraction ⟨0x3FF8000000000000⟩)])) := by decide +kernel
  have hexact : Exact (.json (.array [.number (.fraction ⟨0x3FF8000000000000⟩)])) := by
    intro x hx
    rw [List.mem_singleton.1 hx]
    unfold Json.ReadBack
    decide +kernel
  obtain ⟨sent, hsent, hread⟩ := (encode_of_decode hjson).2 (by decide)
  exact ⟨⟨hnumeric, (encode_of_decode hnumeric).1 rfl⟩, hjson, sent, hsent, hread.2 hexact⟩

/-- The same number cannot be sent to the column it was read from; and a large whole number in a
    document is read as a fraction whose shorter text is read as its neighbour. -/
theorem numeric_refused_fraction_changed :
    (decode .numeric (some [0, 2, 0, 0, 0, 0, 0, 1, 0, 1, 0x13, 0x88]) =
        .ok (.float ⟨0x3FF8000000000000⟩) ∧
      encode .numeric (.float ⟨0x3FF8000000000000⟩) = .error .wrongType) ∧
    decode .json (some (textBytes "300000000000000000000000")) =
        .ok (.json (.number (.fraction ⟨0x44CFC3842BD1F072⟩))) ∧
      encode .json (.json (.number (.fraction ⟨0x44CFC3842BD1F072⟩))) =
        .ok (some (textBytes "3e+23")) ∧
      decode .json (some (textBytes "3e+23")) =
        .ok (.json (.number (.fraction ⟨0x44CFC3842BD1F071⟩))) := by
  refine ⟨⟨?_, rfl⟩, ?_, ?_, ?_⟩
  all_goals decide +kernel

end RecordGraph.Postgres
