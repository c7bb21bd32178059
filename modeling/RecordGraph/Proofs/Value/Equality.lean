/-
  The equality of values is a partial equivalence.

  It is symmetric and transitive, but a fraction that is not a number, or a document
  with one in it, does not equal itself.
-/
import RecordGraph.Value

namespace RecordGraph

/-! ## Numbers -/

theorem Double.eqv_comm (x y : Double) : x.eqv y = y.eqv x := by
  simp only [Double.eqv, Bool.and_comm (!x.isNaN), Bool.and_comm x.isZero, BEq.comm (a := x.bits)]

theorem Double.eqv_trans {x y z : Double} (h : x.eqv y) (h' : y.eqv z) : x.eqv z := by
  simp only [Double.eqv, Bool.and_eq_true, Bool.or_eq_true, beq_iff_eq] at h h' ⊢
  obtain ⟨⟨hx, -⟩, hxy⟩ := h
  obtain ⟨⟨-, hz⟩, hyz⟩ := h'
  refine ⟨⟨hx, hz⟩, ?_⟩
  rcases hxy with hxy | ⟨hx0, hy0⟩
  · rcases hyz with hyz | ⟨hy0, hz0⟩
    · exact Or.inl (hxy.trans hyz)
    · have : x = y := by cases x; cases y; simp_all
      exact Or.inr ⟨this ▸ hy0, hz0⟩
  · rcases hyz with hyz | ⟨-, hz0⟩
    · have : y = z := by cases y; cases z; simp_all
      exact Or.inr ⟨hx0, this ▸ hy0⟩
    · exact Or.inr ⟨hx0, hz0⟩

theorem JsonNumber.eqv_comm (x y : JsonNumber) : x.eqv y = y.eqv x := by
  cases x <;> cases y <;> simp [JsonNumber.eqv, Double.eqv_comm, BEq.comm]

theorem JsonNumber.eqv_trans {x y z : JsonNumber} (h : x.eqv y) (h' : y.eqv z) : x.eqv z := by
  cases x <;> cases y <;> simp only [JsonNumber.eqv, Bool.false_eq_true] at h
  · cases z <;> simp only [JsonNumber.eqv, Bool.false_eq_true, beq_iff_eq] at h h' ⊢
    exact h.trans h'
  · cases z <;> simp only [JsonNumber.eqv, Bool.false_eq_true] at h' ⊢
    exact Double.eqv_trans h h'

/-! ## Documents -/

namespace Json

mutual

theorem eqv_comm : ∀ x y : Json, x.eqv y = y.eqv x
  | .null, y => by cases y <;> simp [eqv]
  | .bool _, y => by cases y <;> simp [eqv, BEq.comm]
  | .number _, y => by cases y <;> simp [eqv, JsonNumber.eqv_comm]
  | .string _, y => by cases y <;> simp [eqv, BEq.comm]
  | .array xs, y => by
    cases y with
    | array ys => simp only [eqv]; exact itemsEqv_comm xs ys
    | _ => simp [eqv]
  | .object xs, y => by
    cases y with
    | object ys => simp only [eqv]; exact membersEqv_comm xs ys
    | _ => simp [eqv]

theorem itemsEqv_comm : ∀ xs ys : List Json, itemsEqv xs ys = itemsEqv ys xs
  | [], ys => by cases ys <;> simp [itemsEqv]
  | x :: xs, [] => by simp [itemsEqv]
  | x :: xs, y :: ys => by simp only [itemsEqv]; rw [eqv_comm x y, itemsEqv_comm xs ys]

theorem membersEqv_comm : ∀ xs ys : List (String × Json), membersEqv xs ys = membersEqv ys xs
  | [], ys => by cases ys <;> simp [membersEqv]
  | (_, _) :: _, [] => by simp [membersEqv]
  | (m, x) :: xs, (n, y) :: ys => by
    simp only [membersEqv]
    rw [eqv_comm x y, membersEqv_comm xs ys, BEq.comm (a := m)]

end

mutual

theorem eqv_trans : ∀ {x y z : Json}, x.eqv y → y.eqv z → x.eqv z
  | .null, y, z, h, h' => by cases y <;> simp only [eqv, Bool.false_eq_true] at h; exact h'
  | .bool _, y, z, h, h' => by
    cases y <;> simp only [eqv, Bool.false_eq_true, beq_iff_eq] at h
    subst h; exact h'
  | .number _, y, z, h, h' => by
    cases y <;> simp only [eqv, Bool.false_eq_true] at h
    cases z <;> simp only [eqv, Bool.false_eq_true] at h' ⊢
    exact JsonNumber.eqv_trans h h'
  | .string _, y, z, h, h' => by
    cases y <;> simp only [eqv, Bool.false_eq_true, beq_iff_eq] at h
    subst h; exact h'
  | .array xs, y, z, h, h' => by
    cases y <;> simp only [eqv, Bool.false_eq_true] at h
    cases z <;> simp only [eqv, Bool.false_eq_true] at h' ⊢
    exact itemsEqv_trans h h'
  | .object xs, y, z, h, h' => by
    cases y <;> simp only [eqv, Bool.false_eq_true] at h
    cases z <;> simp only [eqv, Bool.false_eq_true] at h' ⊢
    exact membersEqv_trans h h'

theorem itemsEqv_trans : ∀ {xs ys zs : List Json},
    itemsEqv xs ys → itemsEqv ys zs → itemsEqv xs zs
  | [], ys, zs, h, h' => by cases ys <;> simp only [itemsEqv, Bool.false_eq_true] at h; exact h'
  | x :: xs, ys, zs, h, h' => by
    cases ys <;> simp only [itemsEqv, Bool.false_eq_true, Bool.and_eq_true] at h
    cases zs <;> simp only [itemsEqv, Bool.false_eq_true, Bool.and_eq_true] at h' ⊢
    exact ⟨eqv_trans h.1 h'.1, itemsEqv_trans h.2 h'.2⟩

theorem membersEqv_trans : ∀ {xs ys zs : List (String × Json)},
    membersEqv xs ys → membersEqv ys zs → membersEqv xs zs
  | [], ys, zs, h, h' => by cases ys <;> simp only [membersEqv, Bool.false_eq_true] at h; exact h'
  | (_, _) :: _, [], _, h, _ => by simp only [membersEqv, Bool.false_eq_true] at h
  | (_, _) :: _, (_, _) :: _, [], _, h' => by simp only [membersEqv, Bool.false_eq_true] at h'
  | (_, _) :: _, (_, _) :: _, (_, _) :: _, h, h' => by
    simp only [membersEqv, Bool.and_eq_true, beq_iff_eq] at h h' ⊢
    exact ⟨⟨h.1.1.trans h'.1.1, eqv_trans h.1.2 h'.1.2⟩, membersEqv_trans h.2 h'.2⟩

end

end Json

/-! ## Values -/

namespace Value

theorem eqv_comm (x y : Value) : x.eqv y = y.eqv x := by
  cases x <;> cases y <;> simp [eqv, Double.eqv_comm, Json.eqv_comm, BEq.comm]

theorem eqv_trans {x y z : Value} (h : x.eqv y) (h' : y.eqv z) : x.eqv z := by
  cases x <;> cases y <;> simp only [eqv, Bool.false_eq_true, beq_iff_eq] at h
  case float.float => 
    cases z <;> simp only [eqv, Bool.false_eq_true] at h' ⊢
    exact Double.eqv_trans h h'
  case json.json =>
    cases z <;> simp only [eqv, Bool.false_eq_true] at h' ⊢
    exact Json.eqv_trans h h'
  case null.null => exact h'
  all_goals subst h; exact h'

theorem eqv_congr_left {x y : Value} (h : x.eqv y) (z : Value) : x.eqv z = y.eqv z := by
  rw [Bool.eq_iff_iff]
  exact ⟨eqv_trans (by rwa [eqv_comm]), eqv_trans h⟩

theorem eqv_congr_right {x y : Value} (h : x.eqv y) (z : Value) : z.eqv x = z.eqv y := by
  rw [eqv_comm z, eqv_comm z, eqv_congr_left h]

theorem eqv_refl_left {x y : Value} (h : x.eqv y) : x.eqv x := 
  eqv_trans h (by rwa [eqv_comm])

theorem optionEqv_comm (x y : Option Value) : optionEqv x y = optionEqv y x := by
  cases x <;> cases y <;> simp [optionEqv, eqv_comm]

theorem optionEqv_trans {x y z : Option Value} (h : optionEqv x y) (h' : optionEqv y z) :
    optionEqv x z := by
  cases x <;> cases y <;> simp only [optionEqv, Bool.false_eq_true] at h
  · exact h'
  · cases z <;> simp only [optionEqv, Bool.false_eq_true] at h' ⊢
    exact eqv_trans h h'

end Value

end RecordGraph
