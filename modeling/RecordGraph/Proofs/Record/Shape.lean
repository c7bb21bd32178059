/-
  The shape of a record, and the edits that keep it.

  * A route leads from a record to one below it, through nested records and through the
    records of collections.  `Record.size?` is the number of records in the collection at
    the end of a route, if there is one that is carried; all these numbers are the shape.
  * `Edited t r r'`: the second record comes from the first by writing fields, of the record
    itself, of nested records and of the records in its collections, each in its place.

  Edits keep the shape (`Edited.sameShape`), the depth (`Edited.depth`) and the type
  (`Edited.typed`), whatever is written.
-/
import RecordGraph.Proofs.Mapping.RowMapper

namespace RecordGraph

/-! ## Routes -/

namespace Record

/-- From a record to one that it holds. -/
inductive Step where
  | nested (slot : Nat)
  | child (slot i : Nat)
  deriving DecidableEq

/-- The record that a step leads to. -/
def step? (r : Record) : Step → Option Record
  | .nested slot => r.nested? slot
  | .child slot i => r.child? slot i

/-- The record that a route leads to. -/
def below? (r : Record) : List Step → Option Record
  | [] => some r
  | step :: route => (r.step? step).bind fun n => n.below? route

/-- How many records are in a collection of the record that a route leads to. -/
def size? (r : Record) (route : List Step) (slot : Nat) : Option Nat :=
  (r.below? route).bind fun n => (n.many? slot).map List.length

/-- The same collections are carried, each with as many records. -/
def SameShape (r r' : Record) : Prop := ∀ route slot, r'.size? route slot = r.size? route slot

variable {r r' r'' : Record} {i : Nat} {s s' : Slot}

theorem size_nil (r : Record) (slot : Nat) : r.size? [] slot = (r.many? slot).map List.length := rfl

theorem size_cons (r : Record) (step : Step) (route : List Step) (slot : Nat) :
    r.size? (step :: route) slot = (r.step? step).bind fun n => n.size? route slot := by
  simp only [size?, below?, Option.bind_assoc]

theorem SameShape.refl : SameShape r r := fun _ _ => rfl

theorem SameShape.trans (h : SameShape r r') (h' : SameShape r' r'') : SameShape r r'' :=
  fun route slot => (h' route slot).trans (h route slot)

/-! ## One slot -/

/-- If the shape in a slot is kept, so is that of the record. -/
theorem sameShape_setSlot
    (hmany : ((r.setSlot i s).many? i).map List.length = (r.many? i).map List.length)
    (hnested : ∀ route slot, ((r.setSlot i s).nested? i).bind (fun n => n.size? route slot) =
      (r.nested? i).bind fun n => n.size? route slot)
    (hchild : ∀ k route slot, ((r.setSlot i s).child? i k).bind (fun n => n.size? route slot) =
      (r.child? i k).bind fun n => n.size? route slot) :
    SameShape r (r.setSlot i s) := by
  intro route slot
  cases route with
  | nil =>
    rw [size_nil, size_nil]
    by_cases hj : i = slot
    · subst hj; exact hmany
    · rw [many_setSlot_ne hj]
  | cons step route =>
    rw [size_cons, size_cons]
    cases step with
    | nested j =>
      by_cases hj : i = j
      · subst hj; exact hnested route slot
      · simp only [step?, nested_setSlot_ne hj]
    | child j k =>
      by_cases hj : i = j
      · subst hj; exact hchild k route slot
      · simp only [step?, child?, many_setSlot_ne hj]

theorem sameShape_scalar {v v' : Value} (h : r.slots[i]? = some (.scalar v)) :
    SameShape r (r.setSlot i (.scalar v')) := by
  have hi : i < r.slots.length := (List.getElem?_eq_some_iff.1 h).1
  have h' : (r.setSlot i (.scalar v')).slots[i]? = some (.scalar v') := slot_setSlot hi
  refine sameShape_setSlot ?_ (fun _ _ => ?_) fun _ _ _ => ?_
  · simp only [many?, h, h']
  · simp only [nested?, h, h']
  · simp only [child?, many?, h, h']

theorem sameShape_nested {n : Option Record} {n' : Record} (h : r.slots[i]? = some (.nested n))
    (hn : ∀ route slot, n'.size? route slot = n.bind fun n => n.size? route slot) :
    SameShape r (r.setSlot i (.nested (some n'))) := by
  have hi : i < r.slots.length := (List.getElem?_eq_some_iff.1 h).1
  have h' : (r.setSlot i (.nested (some n'))).slots[i]? = some (.nested (some n')) :=
    slot_setSlot hi
  refine sameShape_setSlot ?_ (fun route slot => ?_) fun _ _ _ => ?_
  · simp only [many?, h, h']
  · simp only [nested?, h, h', Option.bind_some]
    exact hn route slot
  · simp only [child?, many?, h, h']

theorem sameShape_setChild {k : Nat} {c c' : Record} (h : r.child? i k = some c)
    (hc : SameShape c c') : SameShape r (r.setChild i k c') := by
  obtain ⟨rs, hrs, hk⟩ := Option.bind_eq_some_iff.1 h
  have hslot := slot_of_many hrs
  have h' : (r.setSlot i (.many (some (rs.set k c')))).slots[i]? =
      some (.many (some (rs.set k c'))) := slot_setSlot (lt_of_many hrs)
  rw [setChild_of_many hrs]
  refine sameShape_setSlot ?_ (fun _ _ => ?_) fun j route slot => ?_
  · simp only [many?, hslot, h', Option.map_some, List.length_set]
  · simp only [nested?, hslot, h']
  · rw [child_of_many (many_of_slot h'), child_of_many hrs]
    by_cases hj : k = j
    · subst hj
      rw [List.getElem?_set_self (List.getElem?_eq_some_iff.1 hk).1, hk]
      exact hc route slot
    · rw [List.getElem?_set_ne hj]

end Record

/-! ## Edits -/

variable {τ : Type} [Model τ] {t u : τ} {r r' r'' : Record} {name : String} {v : Value}

/-- The second record comes from the first by writing fields. -/
inductive Edited : τ → Record → Record → Prop
  | refl {t : τ} {r : Record} : Edited t r r
  | trans {t : τ} {r r' r'' : Record} : Edited t r r' → Edited t r' r'' → Edited t r r''
  | field {t : τ} {r r' : Record} {name : String} {v : Value} :
      setField t r name v = .ok (some r') → Edited t r r'
  /-- A nested record that is not set is created first. -/
  | nested {t target : τ} {r n' : Record} {name : String} {slot : Nat} :
      (fieldsOf t).get? name = some (.nested slot target) →
      Edited target ((r.nested? slot).getD (freshRecord target)) n' →
      Edited t r (r.setSlot slot (.nested (some n')))
  | child {t child : τ} {r c c' : Record} {name : String} {slot i : Nat} :
      (fieldsOf t).get? name = some (.many slot child) → r.child? slot i = some c →
      Edited child c c' → Edited t r (r.setChild slot i c')

theorem setAt_edited {path : List String} (h : setAt t r v path = .ok (.set r')) :
    Edited t r r' := by
  induction path generalizing t r r' with
  | nil => cases h
  | cons name rest ih =>
    by_cases hrest : rest = []
    · subst hrest
      exact .field (setAt_single.1 h)
    · obtain ⟨slot, target, n', hg, hn, rfl⟩ := (setAt_cons hrest).1 h
      exact .nested hg (ih hn)

theorem setPath_edited {path : String} (h : setPath t r path v = .ok (.set r')) :
    Edited t r r' := setAt_edited h

/-- Whatever a row holds, mapping it edits the record, also when it is broken off. -/
theorem RowMapper.fill_edited (m : RowMapper τ) (r : Record)
    (cells : List ((String × Value) × ColumnPlan)) : Edited m.owner r (m.fill r cells).record :=
  fill_keeps (P := Edited m.owner r) (fun he hset => he.trans (setAt_edited hset)) .refl cells

/-! ## What edits keep -/

theorem Typed.child {slot i : Nat} {c : Record} (h : Typed t r)
    (hs : shapeAt (Model.type t).members slot = some (.many u))
    (hc : r.child? slot i = some c) : Typed u c := by
  obtain ⟨rs, hrs, hi⟩ := Option.bind_eq_some_iff.1 hc
  obtain ⟨s, hslot, ht⟩ := h.slot hs
  rw [Record.slot_of_many hrs, Option.some.injEq] at hslot
  subst hslot
  cases ht with
  | many hall => exact hall c (List.mem_of_getElem? hi)

theorem Typed.setChild {slot i : Nat} {c' : Record} (h : Typed t r)
    (hs : shapeAt (Model.type t).members slot = some (.many u)) (hc : Typed u c') :
    Typed t (r.setChild slot i c') := by
  unfold Record.setChild
  cases hrs : r.many? slot with
  | none => exact h
  | some rs =>
    refine h.setSlot hs (.many fun c₁ hc₁ => ?_)
    rcases List.mem_or_eq_of_mem_set hc₁ with hmem | rfl
    · obtain ⟨k, hk⟩ := List.getElem?_of_mem hmem
      exact h.child hs ((Record.child_of_many hrs).trans hk)
    · exact hc

theorem Edited.typed (hτ : Model.Sound τ) (h : Edited t r r') (hr : Typed t r) : Typed t r' := by
  induction h with
  | refl => exact hr
  | trans _ _ ih ih' => exact ih' (ih hr)
  | field hset => exact (setField_written hτ hset).typed hr
  | @nested t target r n' name slot hg _ ih =>
    have hs : shapeAt (Model.type t).members slot = some (.nested target) := (hτ t).fits_get hg
    exact hr.setSlot hs (.nested (ih (hr.nestedOrFresh hs)))
  | @child t child r c c' name slot i hg hc _ ih =>
    have hs : shapeAt (Model.type t).members slot = some (.many child) := (hτ t).fits_get hg
    exact hr.setChild hs (ih (hr.child hs hc))

theorem Edited.depth (hτ : Model.Sound τ) (h : Edited t r r') : r'.depth ≤ r.depth := by
  induction h with
  | refl => exact Nat.le_refl _
  | trans _ _ ih ih' => exact Nat.le_trans ih' ih
  | field hset => exact (setField_written hτ hset).depth
  | nested => exact Nat.le_trans Record.depth_setSlot (by simp [Record.slotDepth])
  | @child t child r c c' name slot i hg hc _ ih =>
    obtain ⟨rs, hrs, hi⟩ := Option.bind_eq_some_iff.1 hc
    have hlt := Record.depth_lt_of_many hrs (List.mem_of_getElem? hi)
    rw [Record.setChild_of_many hrs]
    obtain ⟨k, hk⟩ : ∃ k, r.depth = k + 1 := ⟨r.depth - 1, by omega⟩
    rw [hk]
    refine Record.depth_setMany (Nat.le_of_eq hk) fun c₁ hc₁ => ?_
    rcases List.mem_or_eq_of_mem_set hc₁ with hmem | rfl
    · have hlt' := Record.depth_lt_of_many hrs hmem
      omega
    · omega

/-- A fresh record carries no collections and sets no nested records. -/
theorem size_freshRecord (t : τ) (route : List Record.Step) (slot : Nat) :
    (freshRecord t).size? route slot = none := by
  have hslot (i : Nat) (s : Slot) (h : (freshRecord t).slots[i]? = some s) :
      ∃ shape : Shape τ, s = shape.fresh := by
    obtain ⟨m, -, rfl⟩ := List.mem_map.1 (List.mem_of_getElem? h)
    exact ⟨m.shape, rfl⟩
  have hmany (i : Nat) : (freshRecord t).many? i = none := by
    unfold Record.many?
    split
    · rename_i rs h
      obtain ⟨shape, hs⟩ := hslot i _ h
      cases shape <;> cases hs
      rfl
    · rfl
  have hnested (i : Nat) : (freshRecord t).nested? i = none := by
    unfold Record.nested?
    split
    · rename_i n h
      obtain ⟨shape, hs⟩ := hslot i _ h
      cases shape <;> cases hs
      rfl
    · rfl
  cases route with
  | nil => rw [Record.size_nil, hmany, Option.map_none]
  | cons step route =>
    rw [Record.size_cons]
    cases step with
    | nested i => rw [Record.step?, hnested, Option.bind_none]
    | child i k => rw [Record.step?, Record.child?, hmany]; rfl

/-- Every collection at every depth is carried as before, and by as many records. -/
theorem Edited.sameShape (hτ : Model.Sound τ) (h : Edited t r r') (hr : Typed t r) :
    r.SameShape r' := by
  induction h with
  | refl => exact .refl
  | trans h _ ih ih' => exact (ih hr).trans (ih' (h.typed hτ hr))
  | @field t r r' name v hset =>
    obtain ⟨slot, ft, w, hg, -, rfl⟩ := setField_eq_some.1 hset
    have hs : shapeAt (Model.type t).members slot = some (.scalar ft) := (hτ t).fits_get hg
    obtain ⟨s, hslot, ht⟩ := hr.slot hs
    cases ht with
    | scalar => exact Record.sameShape_scalar hslot
  | @nested t target r n' name slot hg _ ih =>
    have hs : shapeAt (Model.type t).members slot = some (.nested target) := (hτ t).fits_get hg
    have hn := ih (hr.nestedOrFresh hs)
    obtain ⟨s, hslot, ht⟩ := hr.slot hs
    cases ht with
    | unset =>
      refine Record.sameShape_nested hslot fun route slot' => ?_
      rw [hn route slot']
      simp only [Record.nested?, hslot, Option.getD_none, size_freshRecord, Option.bind_none]
    | nested hn₀ =>
      refine Record.sameShape_nested hslot fun route slot' => ?_
      rw [hn route slot']
      simp only [Record.nested?, hslot, Option.getD_some, Option.bind_some]
  | @child t child r c c' name slot i hg hc _ ih =>
    have hs : shapeAt (Model.type t).members slot = some (.many child) := (hτ t).fits_get hg
    exact Record.sameShape_setChild hc (ih (hr.child hs hc))

/-- A record in a collection is the edited one that was in its place. -/
theorem Edited.child_before (hτ : Model.Sound τ) {slot i : Nat} {c' : Record} (h : Edited t r r')
    (hs : shapeAt (Model.type t).members slot = some (.many u))
    (hc : r'.child? slot i = some c') : ∃ c, r.child? slot i = some c ∧ Edited u c c' := by
  induction h generalizing c' with
  | refl => exact ⟨c', hc, .refl⟩
  | trans _ _ ih ih' =>
    obtain ⟨c₁, hc₁, h₁⟩ := ih' hs hc
    obtain ⟨c, hc, h⟩ := ih hs hc₁
    exact ⟨c, hc, h.trans h₁⟩
  | field hset =>
    rw [Record.child?, (setField_written hτ hset).many slot u hs] at hc
    exact ⟨c', hc, .refl⟩
  | @nested t target r n' name slot' hg =>
    have hs' : shapeAt (Model.type t).members slot' = some (.nested target) := (hτ t).fits_get hg
    have hne : slot' ≠ slot := by
      rintro rfl
      rw [hs'] at hs
      cases hs
    rw [Record.child?, Record.many_setSlot_ne hne] at hc
    exact ⟨c', hc, .refl⟩
  | @child t child' r c₀ c₁ name slot' k hg hc₀ hedit =>
    obtain ⟨rs, hrs, hk⟩ := Option.bind_eq_some_iff.1 hc₀
    rw [Record.setChild_of_many hrs] at hc
    by_cases hslot : slot' = slot
    · subst hslot
      have hs' : shapeAt (Model.type t).members slot' = some (.many child') :=
        (hτ t).fits_get hg
      rw [hs'] at hs
      cases hs
      rw [Record.child_of_many (Record.many_setSlot hrs)] at hc
      by_cases hik : k = i
      · subst hik
        rw [List.getElem?_set_self (List.getElem?_eq_some_iff.1 hk).1, Option.some.injEq] at hc
        subst hc
        exact ⟨c₀, hc₀, hedit⟩
      · rw [List.getElem?_set_ne hik] at hc
        exact ⟨c', (Record.child_of_many hrs).trans hc, .refl⟩
    · rw [Record.child?, Record.many_setSlot_ne hslot] at hc
      exact ⟨c', hc, .refl⟩

end RecordGraph
