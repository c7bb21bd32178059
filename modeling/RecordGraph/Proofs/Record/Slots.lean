/-
  What a slot holds after another one, or itself, was given new content.
-/
import Mathlib.Data.List.Basic
import RecordGraph.Record

namespace RecordGraph.Record

variable {r : Record} {i j : Nat} {s s' : Slot} {rs rs' : List Record}

@[simp] theorem slots_setSlot : (r.setSlot i s).slots = r.slots.set i s := rfl

theorem setSlot_setSlot : (r.setSlot i s).setSlot i s' = r.setSlot i s' := by
  simp [setSlot, slots]

theorem slot_setSlot_ne (h : i ≠ j) : (r.setSlot i s).slots[j]? = r.slots[j]? := by
  simp [h]

theorem slot_setSlot (h : i < r.slots.length) : (r.setSlot i s).slots[i]? = some s := by
  simp [h]

theorem setSlot_self (h : r.slots[i]? = some s) : r.setSlot i s = r := by
  obtain ⟨hi, hs⟩ := List.getElem?_eq_some_iff.1 h
  cases r
  simp only [setSlot, slots] at hi hs ⊢
  rw [← hs, List.set_getElem_self]

theorem setSlot_comm (h : i ≠ j) :
    (r.setSlot i s).setSlot j s' = (r.setSlot j s').setSlot i s := by
  simp only [setSlot, slots, List.set_comm s s' h]

/-- There is nothing to change beyond the last slot. -/
theorem setSlot_of_le (h : r.slots.length ≤ i) : r.setSlot i s = r := by
  cases r
  simp only [setSlot, slots] at h ⊢
  rw [List.set_eq_of_length_le h]

/-! ## Collections -/

theorem slot_of_many (h : r.many? i = some rs) : r.slots[i]? = some (.many (some rs)) := by
  unfold many? at h
  split at h
  · rw [‹r.slots[i]? = _›, h]
  · cases h

theorem many_of_slot (h : r.slots[i]? = some (.many (some rs))) : r.many? i = some rs := by
  simp [many?, h]

theorem lt_of_many (h : r.many? i = some rs) : i < r.slots.length :=
  (List.getElem?_eq_some_iff.1 (slot_of_many h)).1

theorem many_setSlot_ne (h : i ≠ j) : (r.setSlot i s).many? j = r.many? j := by
  simp only [many?, slot_setSlot_ne h]

theorem many_setSlot (h : r.many? i = some rs) :
    (r.setSlot i (.many (some rs'))).many? i = some rs' :=
  many_of_slot (slot_setSlot (lt_of_many h))

theorem setSlot_many (h : r.many? i = some rs) : r.setSlot i (.many (some rs)) = r :=
  setSlot_self (slot_of_many h)

theorem child_of_many (h : r.many? i = some rs) : r.child? i j = rs[j]? := by simp [child?, h]

theorem setChild_of_many (h : r.many? i = some rs) (c : Record) :
    r.setChild i j c = r.setSlot i (.many (some (rs.set j c))) := by simp [setChild, h]

/-! ## Values and nested records -/

theorem scalar_setSlot_ne (h : i ≠ j) : (r.setSlot i s).scalar j = r.scalar j := by
  simp only [scalar, slot_setSlot_ne h]

theorem scalar_setSlot (h : i < r.slots.length) (v : Value) :
    (r.setSlot i (.scalar v)).scalar i = v := by
  simp only [scalar, slot_setSlot h]

theorem nested_setSlot_ne (h : i ≠ j) : (r.setSlot i s).nested? j = r.nested? j := by
  simp only [nested?, slot_setSlot_ne h]

theorem nested_setSlot (h : i < r.slots.length) (n : Option Record) :
    (r.setSlot i (.nested n)).nested? i = n := by
  simp only [nested?, slot_setSlot h]

/-! ## Depth -/

theorem slotsDepth_set (ss : List Slot) (i : Nat) (s : Slot) :
    slotsDepth (ss.set i s) ≤ max (slotsDepth ss) (slotDepth s) := by
  induction ss generalizing i with
  | nil => simp [slotsDepth]
  | cons s₀ ss ih =>
    cases i with
    | zero => simp only [List.set_cons_zero, slotsDepth]; omega
    | succ i =>
      have hi := ih i
      simp only [List.set_cons_succ, slotsDepth]
      omega

theorem depth_setSlot : (r.setSlot i s).depth ≤ max r.depth (slotDepth s) := by
  cases r with
  | mk ss => simpa only [setSlot, slots, depth] using slotsDepth_set ss i s

theorem slotDepth_le (h : r.slots[i]? = some s) : slotDepth s ≤ r.depth := by
  cases r with
  | mk ss =>
    simp only [slots, depth] at h ⊢
    induction ss generalizing i with
    | nil => simp at h
    | cons s₀ ss ih =>
      simp only [slotsDepth]
      cases i with
      | zero =>
        rw [List.getElem?_cons_zero, Option.some.injEq] at h
        subst h; omega
      | succ i => have hi := ih h; omega

theorem depth_le_recordsDepth {c : Record} (h : c ∈ rs) : c.depth ≤ recordsDepth rs := by
  induction rs with
  | nil => cases h
  | cons r rs ih =>
    simp only [recordsDepth]
    rcases List.mem_cons.1 h with rfl | h
    · omega
    · have hc := ih h; omega

theorem recordsDepth_le {n : Nat} (h : ∀ c ∈ rs, c.depth ≤ n) : recordsDepth rs ≤ n := by
  induction rs with
  | nil => simp [recordsDepth]
  | cons r rs ih =>
    have hr := h r (by simp)
    have hrs := ih fun c hc => h c (by simp [hc])
    simp only [recordsDepth]
    omega

/-- Records of a collection are less deep than the record that carries it. -/
theorem depth_lt_of_many (h : r.many? i = some rs) {c : Record} (hc : c ∈ rs) :
    c.depth < r.depth := by
  have hs := slotDepth_le (slot_of_many h)
  have hd := depth_le_recordsDepth hc
  simp only [slotDepth] at hs
  omega

theorem depth_setMany {n : Nat} (hr : r.depth ≤ n + 1) (h : ∀ c ∈ rs, c.depth ≤ n) :
    (r.setSlot i (.many (some rs))).depth ≤ n + 1 := by
  have hs := depth_setSlot (r := r) (i := i) (s := .many (some rs))
  have hd := recordsDepth_le h
  simp only [slotDepth] at hs
  omega

end RecordGraph.Record
