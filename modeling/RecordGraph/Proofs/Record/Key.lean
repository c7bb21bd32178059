/-
  Keys that records store in a field of their own.

  A write to another field, or along a path through nested records, leaves the key alone.
-/
import RecordGraph.Proofs.Naming
import RecordGraph.Proofs.Record.Writing

namespace RecordGraph

variable {τ : Type} [Model τ] {t : τ} {key name : String} {ft : FieldType} {r r' : Record}
  {v : Value}

/-- A write along another path leaves the value of a field alone. -/
theorem scalar_setAt_ne (hτ : Model.Sound τ) {slot : Nat}
    (hs : (fieldsOf t).get? key = some (.stored slot ft)) {path : List String}
    (hp : path ≠ [key]) (hw : setAt t r v path = .ok (.set r')) :
    r'.scalar slot = r.scalar slot := by
  cases path with
  | nil => cases hw
  | cons name rest =>
    by_cases hrest : rest = []
    · subst hrest
      obtain ⟨slot', ft', w, hs', -, rfl⟩ := setField_eq_some.1 (setAt_single.1 hw)
      have hn : name ≠ key := fun hn => hp (by rw [hn])
      have hne : slot' ≠ slot := fun heq =>
        (hτ t).apart_get hs' hs hn slot' rfl (congrArg some heq.symm)
      exact Record.scalar_setSlot_ne hne
    · obtain ⟨slot', target, n', hs', -, rfl⟩ := (setAt_cons hrest).1 hw
      have hn : name ≠ key := by rintro rfl; rw [hs] at hs'; cases hs'
      have hne : slot' ≠ slot := fun heq =>
        (hτ t).apart_get hs' hs hn slot' rfl (congrArg some heq.symm)
      exact Record.scalar_setSlot_ne hne

/-! ## Keys -/

/-- The key of a record under a name; null if there is none. -/
def keyIn (t : τ) (key : String) (r : Record) : Value := (resolveValue t r key).getD .null

/-- The type stores its key in a field of the given name and type, and a record is new as
    long as the field holds no key. -/
structure KeyField (t : τ) (key : String) (ft : FieldType) : Prop where
  stored : ∃ slot, (fieldsOf t).get? key = some (.stored slot ft)
  plain : FieldName.isDotted key = false
  isNew : ∀ r, isNew t r = (keyIn t key r).isUnsetKey

namespace KeyField

/-- The key is the value in a slot. -/
theorem slot (h : KeyField t key ft) : ∃ slot, (fieldsOf t).get? key = some (.stored slot ft) ∧
    ∀ r, resolveValue t r key = some (r.scalar slot) := by
  obtain ⟨slot, hs⟩ := h.stored
  refine ⟨slot, hs, fun r => ?_⟩
  simp only [resolveValue, fieldValue, FieldName.segments_plain h.plain, valueAt, flatValue, hs]

theorem resolve (h : KeyField t key ft) (r : Record) :
    resolveValue t r key = some (keyIn t key r) := by
  obtain ⟨slot, -, hr⟩ := h.slot
  rw [keyIn, hr, Option.getD_some]

theorem setAt_ne (hτ : Model.Sound τ) (h : KeyField t key ft) {path : List String}
    (hp : path ≠ [key]) (hw : setAt t r v path = .ok (.set r')) :
    keyIn t key r' = keyIn t key r := by
  obtain ⟨slot, hs, hr⟩ := h.slot
  rw [keyIn, keyIn, hr, hr, scalar_setAt_ne hτ hs hp hw]

theorem setField_ne (hτ : Model.Sound τ) (h : KeyField t key ft) (hn : name ≠ key)
    (hw : setField t r name v = .ok (some r')) : keyIn t key r' = keyIn t key r :=
  h.setAt_ne hτ (by simpa using hn) (setAt_single.2 hw)

theorem setField_self (hτ : Model.Sound τ) (h : KeyField t key ft) (ht : Typed t r)
    (hw : setField t r key v = .ok (some r')) : ft.normalize v = .ok (keyIn t key r') := by
  obtain ⟨slot, hs, hr⟩ := h.slot
  obtain ⟨slot', ft', w, hs', hnorm, rfl⟩ := setField_eq_some.1 hw
  rw [hs] at hs'; cases hs'
  have hlt : slot < r.slots.length := ht.lt ((hτ t).fits_get hs)
  rw [keyIn, hr, Option.getD_some, Record.scalar_setSlot hlt, hnorm]

theorem setField_of_normalize (h : KeyField t key ft) {w : Value} (hw : ft.normalize v = .ok w)
    (r : Record) : ∃ r', setField t r key v = .ok (some r') := by
  obtain ⟨slot, hs⟩ := h.stored
  exact ⟨_, setField_eq_some.2 ⟨slot, ft, w, hs, hw, rfl⟩⟩

theorem setPath_dotted (hτ : Model.Sound τ) (h : KeyField t key ft) {path : String}
    (hp : FieldName.isDotted path) (hw : setPath t r path v = .ok (.set r')) :
    keyIn t key r' = keyIn t key r :=
  h.setAt_ne hτ (FieldName.segments_dotted hp key) hw

theorem setPath_self (hτ : Model.Sound τ) (h : KeyField t key ft) (ht : Typed t r)
    (hw : setPath t r key v = .ok (.set r')) : ft.normalize v = .ok (keyIn t key r') := by
  rw [setPath, FieldName.segments_plain h.plain] at hw
  exact h.setField_self hτ ht (setAt_single.1 hw)

end KeyField

end RecordGraph
