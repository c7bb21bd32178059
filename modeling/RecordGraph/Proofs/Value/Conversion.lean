/-
  What a field stores is stored again as it is (`FieldType.normalize_write`).

  Of the types of fields only the numbers of 32 bits are not read back to the very content
  that was written: they are widened to 64 bits, and what is not a number becomes quiet.
-/
import RecordGraph.Proofs.Number.Binary
import RecordGraph.Value.Conversion

namespace RecordGraph

/-- Every integer type is within the range of 64 bits. -/
theorem IntType.Holds.toInt_ofInt {t : IntType} {i : Int} (h : t.Holds i) :
    (Int64.ofInt i).toInt = i := by
  refine Int64.toInt_ofInt_of_le ?_ ?_ <;>
  · cases t <;> simp only [Holds, least, greatest, Nat.pow_eq] at h <;> omega

theorem Value.eq_null_of_isNull {v : Value} (h : v.isNull = true) : v = .null := by
  cases v <;> first | rfl | cases h

theorem ScalarType.write_isNull (t : ScalarType) (x : t.Carrier) : (t.write x).isNull = false := by
  cases t <;> rfl

theorem ScalarType.readInt_ofInt {t : IntType} (x : (int t).Carrier) :
    readInt t (.ofInt x.val) = .ok x := by
  obtain ⟨i, hi⟩ := x
  unfold readInt
  simp only [hi.toInt_ofInt, hi, dif_pos]

theorem ScalarType.read_write (t : ScalarType) (x : t.Carrier) :
    (t.read (t.write x)).map t.write = .ok (t.write x) := by
  cases t with
  | int t =>
    change (readInt t (.ofInt x.val)).map (int t).write = .ok ((int t).write x)
    rw [readInt_ofInt]
    rfl
  | single => exact congrArg (fun y => Except.ok (Value.float y)) (Single.widen_narrow_widen x)
  | _ => rfl

/-- What is written is not null, so a field that may be empty reads it as another one does. -/
theorem FieldType.read_optional (t : ScalarType) (x : t.Carrier) :
    (optional t).read (t.write x) = (t.read (t.write x)).map some := by
  have hnull := t.write_isNull x
  cases hv : t.write x <;> first | rfl | (rw [hv] at hnull; cases hnull)

theorem FieldType.normalize_write (t : FieldType) (x : t.Carrier) :
    t.normalize (t.write x) = .ok (t.write x) := by
  cases t with
  | plain t => exact t.read_write x
  | optional t =>
    cases x with
    | none => rfl
    | some x =>
      have hwritten := t.read_write x
      simp only [normalize, write, read_optional]
      cases hr : t.read (t.write x) with
      | error e => rw [hr] at hwritten; cases hwritten
      | ok y => rw [hr] at hwritten; exact hwritten

/-- Null is only the value of an empty field, and then a fresh field is empty too. -/
theorem FieldType.write_fresh_of_isNull (t : FieldType) {x : t.Carrier}
    (h : (t.write x).isNull = true) : t.write t.fresh = .null := by
  cases t with
  | plain t =>
    have hnull : ((plain t).write x).isNull = false := t.write_isNull x
    rw [hnull] at h
    cases h
  | optional t =>
    cases x with
    | none => rfl
    | some x =>
      have hnull : ((optional t).write (some x)).isNull = false := t.write_isNull x
      rw [hnull] at h
      cases h

end RecordGraph
