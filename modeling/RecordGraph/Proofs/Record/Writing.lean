/-
  Writing to records by name.

  * `Written`: writing values leaves the collections of a record alone, makes it no
    deeper and keeps it of its type.
  * `fieldValue_setPath`: what was written to a path is read there, in the form that the
    field stores.
  * `setAt_of_typeAt`, `setAt_refused` and `setAt_stops`: what a write comes to is decided by the
    type of the field at the end of its path.
-/
import RecordGraph.Proofs.Record.Typing

namespace RecordGraph

variable {τ : Type} [Model τ] {t : τ} {r r' r'' : Record} {name : String} {v w : Value}

/-! ## What writing leaves alone -/

/-- The second record comes from the first by writing values. -/
structure Written (t : τ) (r r' : Record) : Prop where
  many : ∀ i child, shapeAt (Model.type t).members i = some (.many child) → r'.many? i = r.many? i
  depth : r'.depth ≤ r.depth
  typed : Typed t r → Typed t r'

theorem Written.refl : Written t r r := ⟨fun _ _ _ => rfl, Nat.le_refl _, id⟩

theorem Written.trans (h : Written t r r') (h' : Written t r' r'') : Written t r r'' where
  many i child hi := (h'.many i child hi).trans (h.many i child hi)
  depth := Nat.le_trans h'.depth h.depth
  typed hr := h'.typed (h.typed hr)

theorem setField_eq_some : setField t r name v = .ok (some r') ↔ ∃ slot ft w,
    (fieldsOf t).get? name = some (.stored slot ft) ∧ ft.normalize v = .ok w ∧
      r' = r.setSlot slot (.scalar w) := by
  unfold setField
  split
  · rename_i slot ft hg
    constructor
    · intro h
      split at h
      · cases h; exact ⟨slot, ft, _, hg, ‹_›, rfl⟩
      · cases h
    · rintro ⟨slot', ft', w, hg', hn, rfl⟩
      rw [hg] at hg'; cases hg'
      simp only [hn]
  · rename_i hg
    constructor
    · rintro ⟨⟩
    · rintro ⟨slot, ft, w, hg', -⟩; exact absurd hg' (hg slot ft)

theorem normalize_typed {ft : FieldType} (h : ft.normalize v = .ok w) :
    SlotTyped (.scalar ft : Shape τ) (.scalar w) := by
  unfold FieldType.normalize at h
  cases hr : ft.read v with
  | error e => rw [hr] at h; cases h
  | ok x => rw [hr] at h; cases h; exact .scalar x

theorem setField_written (hτ : Model.Sound τ) (h : setField t r name v = .ok (some r')) :
    Written t r r' := by
  obtain ⟨slot, ft, w, hg, hn, rfl⟩ := setField_eq_some.1 h
  have hs : shapeAt (Model.type t).members slot = some (.scalar ft) := (hτ t).fits_get hg
  refine ⟨fun i child hi => Record.many_setSlot_ne ?_, ?_, fun hr =>
    hr.setSlot hs (normalize_typed hn)⟩
  · rintro rfl; rw [hs] at hi; cases hi
  · exact Nat.le_trans Record.depth_setSlot (by simp [Record.slotDepth])

theorem setAt_single :
    setAt t r v [name] = .ok (.set r') ↔ setField t r name v = .ok (some r') := by
  unfold setAt
  rcases setField t r name v with e | _ | r₁
  · exact ⟨by rintro ⟨⟩, by rintro ⟨⟩⟩
  · exact ⟨by rintro ⟨⟩, by rintro ⟨⟩⟩
  · constructor
    · intro h; cases h; rfl
    · intro h; cases h; rfl

/-- The steps of a write to a path through a nested record. -/
theorem setAt_cons {rest : List String} (hrest : rest ≠ []) :
    setAt t r v (name :: rest) = .ok (.set r') ↔ ∃ slot target n',
      (fieldsOf t).get? name = some (.nested slot target) ∧
      setAt target ((r.nested? slot).getD (freshRecord target)) v rest = .ok (.set n') ∧
      r' = r.setSlot slot (.nested (some n')) := by
  obtain ⟨s, rest, rfl⟩ := List.exists_cons_of_ne_nil hrest
  rw [setAt]
  · unfold nestedOrFresh
    rcases hg : (fieldsOf t).get? name with _ | ⟨slot, ft⟩ | get | ⟨slot, target⟩ | ⟨slot, child⟩
    case some.nested =>
      dsimp only
      cases hs : setAt target ((r.nested? slot).getD (freshRecord target)) v (s :: rest) with
      | error e => 
        constructor
        · rintro ⟨⟩
        · rintro ⟨_, _, n', hg', hn', -⟩; cases hg'; rw [hs] at hn'; cases hn'
      | ok p =>
        cases p with
        | missing segment =>
          constructor
          · rintro ⟨⟩
          · rintro ⟨_, _, n', hg', hn', -⟩; cases hg'; rw [hs] at hn'; cases hn'
        | set n' =>
          constructor
          · intro h; cases h; exact ⟨slot, target, n', rfl, hs, rfl⟩
          · rintro ⟨_, _, n'', hg', hn', rfl⟩; cases hg'; rw [hs] at hn'; cases hn'; rfl
    all_goals
      constructor
      · rintro ⟨⟩
      · rintro ⟨_, _, _, hg', -⟩; cases hg'
  · simp

theorem setAt_written (hτ : Model.Sound τ) {path : List String}
    (h : setAt t r v path = .ok (.set r')) : Written t r r' := by
  induction path generalizing t r r' with
  | nil => cases h
  | cons name rest ih =>
    by_cases hrest : rest = []
    · subst hrest
      exact setField_written hτ (setAt_single.1 h)
    · obtain ⟨slot, target, n', hg, hn, rfl⟩ := (setAt_cons hrest).1 h
      have hs : shapeAt (Model.type t).members slot = some (.nested target) := (hτ t).fits_get hg
      refine ⟨fun i child hi => Record.many_setSlot_ne ?_, ?_, fun hr => ?_⟩
      · rintro rfl; rw [hs] at hi; cases hi
      · exact Nat.le_trans Record.depth_setSlot (by simp [Record.slotDepth])
      · exact hr.setSlot hs (.nested ((ih hn).typed (hr.nestedOrFresh hs)))

theorem setPath_written (hτ : Model.Sound τ) {path : String}
    (h : setPath t r path v = .ok (.set r')) : Written t r r' := setAt_written hτ h

/-! ## Reading what was written -/

/-- The type of the field at the end of a path, if it stores a value. -/
def typeAt (t : τ) : List String → Option FieldType
  | [] => none
  | [name] =>
    match (fieldsOf t).get? name with
    | some (.stored _ ft) => some ft
    | _ => none
  | name :: rest =>
    match (fieldsOf t).get? name with
    | some (.nested _ target) => typeAt target rest
    | _ => none

section

variable {slot : Nat} {target : τ} {path : List String} {ft : FieldType}

theorem typeAt_single :
    typeAt t [name] = some ft ↔ ∃ slot, (fieldsOf t).get? name = some (.stored slot ft) := by
  unfold typeAt
  rcases (fieldsOf t).get? name with _ | ⟨slot, ft'⟩ | get | ⟨slot, target⟩ | ⟨slot, child⟩ <;>
    simp

theorem typeAt_cons (hpath : path ≠ []) : typeAt t (name :: path) = some ft ↔
    ∃ slot target, (fieldsOf t).get? name = some (.nested slot target) ∧
      typeAt target path = some ft := by
  obtain ⟨s, path, rfl⟩ := List.exists_cons_of_ne_nil hpath
  simp only [typeAt]
  rcases (fieldsOf t).get? name with _ | ⟨slot, ft'⟩ | get | ⟨slot, target⟩ | ⟨slot, child⟩ <;>
    simp

theorem typeAt_nested (hg : (fieldsOf t).get? name = some (.nested slot target))
    (hpath : path ≠ []) : typeAt t (name :: path) = typeAt target path := by
  obtain ⟨s, path, rfl⟩ := List.exists_cons_of_ne_nil hpath
  simp only [typeAt, hg]

theorem valueAt_nested (hg : (fieldsOf t).get? name = some (.nested slot target))
    (hpath : path ≠ []) :
    valueAt t r (name :: path) = (r.nested? slot).bind fun n => valueAt target n path := by
  obtain ⟨s, path, rfl⟩ := List.exists_cons_of_ne_nil hpath
  simp only [valueAt, nestedRecord, hg]
  cases r.nested? slot <;> rfl

end

theorem valueAt_setAt (hτ : Model.Sound τ) {path : List String} (hr : Typed t r)
    (h : setAt t r v path = .ok (.set r')) :
    ∃ ft w, typeAt t path = some ft ∧ ft.normalize v = .ok w ∧ valueAt t r' path = some w := by
  induction path generalizing t r r' with
  | nil => cases h
  | cons name rest ih =>
    by_cases hrest : rest = []
    · subst hrest
      obtain ⟨slot, ft, w, hg, hn, rfl⟩ := setField_eq_some.1 (setAt_single.1 h)
      have hs : shapeAt (Model.type t).members slot = some (.scalar ft) := (hτ t).fits_get hg
      refine ⟨ft, w, typeAt_single.2 ⟨slot, hg⟩, hn, ?_⟩
      simp only [valueAt, flatValue, hg, Record.scalar_setSlot (hr.lt hs)]
    · obtain ⟨slot, target, n', hg, hn, rfl⟩ := (setAt_cons hrest).1 h
      have hs : shapeAt (Model.type t).members slot = some (.nested target) := (hτ t).fits_get hg
      obtain ⟨ft, w, ht, hw, hv⟩ := ih (hr.nestedOrFresh hs) hn
      refine ⟨ft, w, (typeAt_nested hg hrest).trans ht, hw, ?_⟩
      rw [valueAt_nested hg hrest, Record.nested_setSlot (hr.lt hs), Option.bind_some, hv]

theorem fieldValue_setPath (hτ : Model.Sound τ) {path : String} (hr : Typed t r)
    (h : setPath t r path v = .ok (.set r')) :
    ∃ ft w, typeAt t (FieldName.segments path) = some ft ∧ ft.normalize v = .ok w ∧
      fieldValue t r' path = some w := valueAt_setAt hτ hr h

/-! ## What a write comes to -/

section

variable {path : List String} {ft : FieldType} {e : ConvertError}

/-- A path to a field that takes the value can be written. -/
theorem setAt_of_typeAt (h : typeAt t path = some ft) (hw : ft.normalize v = .ok w) :
    ∃ r', setAt t r v path = .ok (.set r') := by
  induction path generalizing t r with
  | nil => cases h
  | cons name rest ih =>
    by_cases hrest : rest = []
    · subst hrest
      obtain ⟨slot, hg⟩ := typeAt_single.1 h
      exact ⟨_, setAt_single.2 (setField_eq_some.2 ⟨slot, ft, w, hg, hw, rfl⟩)⟩
    · obtain ⟨slot, target, hg, h⟩ := (typeAt_cons hrest).1 h
      obtain ⟨n', hn⟩ := ih h (r := (r.nested? slot).getD (freshRecord target))
      exact ⟨_, (setAt_cons hrest).2 ⟨slot, target, n', hg, hn, rfl⟩⟩

theorem setField_refused (h : typeAt t [name] = some ft) (he : ft.normalize v = .error e) :
    setField t r name v = .error (.decode name e.message) := by
  obtain ⟨slot, hg⟩ := typeAt_single.1 h
  simp only [setField, hg, he]

/-- A value that does not fit is refused under the name of the field at the end of the path. -/
theorem setAt_refused (h : typeAt t path = some ft) (he : ft.normalize v = .error e) :
    setAt t r v path = .error (.decode (path.getLastD "") e.message) := by
  induction path generalizing t r with
  | nil => cases h
  | cons name rest ih =>
    cases rest with
    | nil =>
      unfold setAt
      rw [setField_refused h he]
      rfl
    | cons s rest =>
      obtain ⟨slot, target, hg, h⟩ := (typeAt_cons (List.cons_ne_nil s rest)).1 h
      unfold setAt nestedOrFresh
      simp only [hg, ih h]
      rfl

/-- The part of a path that leads nowhere, if the path does not lead to a stored value. -/
def stopsAt (t : τ) : List String → String
  | [] => ""
  | [name] => name
  | head :: rest =>
    match (fieldsOf t).get? head with
    | some (.nested _ target) => stopsAt target rest
    | _ => head

theorem setAt_stops (h : typeAt t path = none) :
    setAt t r v path = .ok (.missing (stopsAt t path)) := by
  induction path generalizing t r with
  | nil => rfl
  | cons name rest ih =>
    cases rest with
    | nil =>
      unfold typeAt at h
      unfold setAt setField
      rcases hg : (fieldsOf t).get? name with _ | ⟨slot, ft⟩ | get | ⟨slot, target⟩ | ⟨slot, child⟩
      case some.stored =>
        rw [hg] at h
        cases h
      all_goals rfl
    | cons s rest =>
      unfold setAt stopsAt nestedOrFresh
      rcases hg : (fieldsOf t).get? name with _ | ⟨slot, ft⟩ | get | ⟨slot, target⟩ | ⟨slot, child⟩
      case some.nested =>
        rw [typeAt_nested hg (List.cons_ne_nil s rest)] at h
        dsimp only
        rw [ih h]
        rfl
      all_goals rfl

/-- A path is missing if no value is stored at its end, whatever is to be written to it. -/
theorem setAt_missing :
    (∃ segment, setAt t r v path = .ok (.missing segment)) ↔ typeAt t path = none := by
  refine ⟨?_, fun h => ⟨_, setAt_stops h⟩⟩
  rintro ⟨segment, hs⟩
  cases ht : typeAt t path with
  | none => rfl
  | some ft =>
    cases hv : ft.normalize v with
    | ok w =>
      obtain ⟨r', hset⟩ := setAt_of_typeAt (r := r) ht hv
      rw [hset] at hs
      cases hs
    | error e =>
      rw [setAt_refused ht hv] at hs
      cases hs

end

end RecordGraph
