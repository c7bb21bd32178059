/-
  What is put into a field comes back.

  * A value that a field gives is read back to the content of the field (`FieldType.read_write_eq`),
    except for fractions of 32 bits, which are widened, and it is the value that stands for the
    content elsewhere (`FieldType.lift_eq_write`).
  * An integer is taken exactly within the range of the type (`ScalarType.read_int_iff`).
  * Content that goes through a field of another type is the same after it: identifiers as text,
    moments with and without a zone (`FieldType.conversions_lossless`).
-/
import RecordGraph.Proofs.Uuid
import RecordGraph.Proofs.Value.Conversion

namespace RecordGraph

/-! ## Fields and values -/

/-- The type of what the field holds if it is not empty. -/
def FieldType.scalar : FieldType → ScalarType
  | plain t => t
  | optional t => t

theorem ScalarType.read_write_eq {t : ScalarType} (h : t ≠ .single) (x : t.Carrier) :
    t.read (t.write x) = .ok x := by
  cases t with
  | int t => exact readInt_ofInt x
  | single => exact absurd rfl h
  | _ => rfl

theorem FieldType.read_write_eq {t : FieldType} (h : t.scalar ≠ .single) (x : t.Carrier) :
    t.read (t.write x) = .ok x := by
  cases t with
  | plain t => exact t.read_write_eq h x
  | optional t =>
    cases x with
    | none => rfl
    | some x =>
      have hx : t.read (t.write x) = .ok x := t.read_write_eq h x
      simp only [write, read_optional, hx]
      rfl

theorem ScalarType.lift_eq_write (t : ScalarType) (x : t.Carrier) : t.lift x = t.write x := by
  cases t <;> rfl

theorem FieldType.lift_eq_write (t : FieldType) (x : t.Carrier) : t.lift x = t.write x := by
  cases t with
  | plain t => exact t.lift_eq_write x
  | optional t =>
    cases x with
    | none => rfl
    | some x => exact t.lift_eq_write x

/-! ## Integers -/

theorem ScalarType.write_of_read_int {t : IntType} {v : Int64} {x : (int t).Carrier}
    (h : (int t).read (.int v) = .ok x) : (int t).write x = .int v := by
  change readInt t v = .ok x at h
  unfold readInt at h
  split at h
  · cases h
    exact congrArg Value.int (Int64.ofInt_toInt v)
  · cases h

theorem ScalarType.read_int_iff (t : IntType) (v : Int64) :
    (∃ x, (int t).read (.int v) = .ok x) ↔ t.Holds v.toInt := by
  change (∃ x, readInt t v = .ok x) ↔ t.Holds v.toInt
  unfold readInt
  split
  · rename_i h
    exact iff_of_true ⟨_, rfl⟩ h
  · rename_i h
    exact iff_of_false nofun h

/-! ## Identifiers as text -/

theorem ScalarType.read_uuid_text (s : String) : uuid.read (.text s) =
    match Uuid.parse? s with
    | some u => .ok u
    | none => .error .badUuid := rfl

theorem ScalarType.read_uuid_of_uuidText (u : Uuid) : uuid.read (.text u.text) = .ok u := by
  rw [read_uuid_text, Uuid.parse_text]

/-! ## Nothing is lost -/

open ScalarType in
/-- What a field gives is read back, and is the value that stands for the content of the field;
    the integers that a type takes are those of its range, and they stay the same; identifiers
    come back from a field of text, and moments from one of the other kind. -/
theorem FieldType.conversions_lossless :
    (∀ t : FieldType, t.scalar ≠ .single → ∀ x : t.Carrier,
      t.read (t.write x) = .ok x ∧ t.lift x = t.write x) ∧
    (∀ (t : IntType) (v : Int64),
      ((∃ x, (int t).read (.int v) = .ok x) ↔ t.Holds v.toInt) ∧
      ∀ x, (int t).read (.int v) = .ok x → (int t).write x = .int v) ∧
    (∀ u : Uuid, ∃ s : String,
      text.read (uuid.write u) = .ok s ∧ uuid.read (text.write s) = .ok u) ∧
    (∀ m : Moment, ∃ n : Moment,
      naive.read (zoned.write m) = .ok n ∧ zoned.read (naive.write n) = .ok m) ∧
    (∀ m : Moment, ∃ n : Moment,
      zoned.read (naive.write m) = .ok n ∧ naive.read (zoned.write n) = .ok m) := by
  refine ⟨fun t h x => ⟨read_write_eq h x, t.lift_eq_write x⟩, fun t v => ?_,
    fun u => ⟨u.text, rfl, read_uuid_of_uuidText u⟩, fun m => ⟨m, rfl, rfl⟩, fun m => ⟨m, rfl, rfl⟩⟩
  exact ⟨read_int_iff t v, fun x h => write_of_read_int h⟩

/-- A field for a byte that may be empty. -/
def byteField : FieldType := .optional (.int .u8)

/-- The largest byte. -/
def fullByte : byteField.Carrier := some ⟨255, by decide⟩

theorem fullByte_kept : byteField.scalar ≠ .single ∧ byteField.write fullByte = .int 255 ∧
    byteField.read (byteField.write fullByte) = .ok fullByte ∧
    byteField.lift fullByte = .int 255 := by
  have hscalar : byteField.scalar ≠ .single := by decide
  obtain ⟨hread, hlift⟩ := FieldType.conversions_lossless.1 byteField hscalar fullByte
  exact ⟨hscalar, rfl, hread, hlift⟩

end RecordGraph
