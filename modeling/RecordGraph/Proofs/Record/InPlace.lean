/-
  Writing to a path in place.

  * `writeAt`: every step on the way changes the record that is there.  A nested record that is
    not set is created before the next step, and removed again unless the value was written.
  * `writeAt_eq`: what is left behind is what `setAt` gives back, and the record as it was where
    `setAt` gives none.
  * `PathSet`: a write puts the converted value at the end of its path, and changes no other value
    but for those of the nested records that it had to create.
  * `writePath_lawful`: a write in place is a `PathSet` or leaves everything as it was.
-/
import RecordGraph.Proofs.Naming
import RecordGraph.Proofs.Record.Writing
import RecordGraph.Proofs.Samples

namespace RecordGraph

variable {τ : Type} [Model τ] {t target : τ} {r r' n : Record} {slot : Nat} {v w : Value}
  {path q : List String} {ft : FieldType}

/-! ## Steps in place -/

/-- What a write comes to, apart from the record. -/
inductive WriteAnswer where
  | set
  /-- There is no field of that name that could be written or walked through. -/
  | missing (segment : String)

namespace WriteAnswer

/-- The value was written. -/
def isSet : Result WriteAnswer → Bool
  | .ok .set => true
  | _ => false

end WriteAnswer

/-- The record with the nested record in a slot, created if it is not set. -/
def openNested (target : τ) (r : Record) (slot : Nat) : Record :=
  if (r.nested? slot).isNone then r.setSlot slot (.nested (some (freshRecord target))) else r

/-- The record after a write through the nested record in a slot, which has come to be `n`: one
    that was created is removed again unless the value was written. -/
def closeNested (created : Bool) (r : Record) (slot : Nat) (n : Record)
    (answer : Result WriteAnswer) : Record :=
  let written := r.setSlot slot (.nested (some n))
  if created && !WriteAnswer.isSet answer then written.setSlot slot (.nested none) else written

/-- Writes the value at the end of a path given in parts into the record: what is left of it, and
    the answer. -/
def writeAt (t : τ) (r : Record) (v : Value) : List String → Record × Result WriteAnswer
  | [] => (r, .ok (.missing ""))
  | [name] =>
    match setField t r name v with
    | .ok (some r') => (r', .ok .set)
    | .ok none => (r, .ok (.missing name))
    | .error e => (r, .error e)
  | head :: rest =>
    match (fieldsOf t).get? head with
    | some (.nested slot target) =>
      let created := (r.nested? slot).isNone
      let opened := openNested target r slot
      let (n, answer) := writeAt target ((opened.nested? slot).getD (freshRecord target)) v rest
      (closeNested created opened slot n answer, answer)
    | _ => (r, .ok (.missing head))

/-- Writes the value at a dotted path into the record. -/
def writePath (t : τ) (r : Record) (path : String) (v : Value) : Record × Result WriteAnswer :=
  writeAt t r v (FieldName.segments path)

/-! ## What is left behind -/

theorem Typed.slot_nested (h : Typed t r)
    (hs : shapeAt (Model.type t).members slot = some (.nested target)) :
    r.slots[slot]? = some (.nested (r.nested? slot)) := by
  obtain ⟨s, hslot, ht⟩ := h.slot hs
  cases ht <;> simp only [Record.nested?, hslot]

/-- The nested record that a write goes through is the one that is set, or a fresh one. -/
theorem nested_openNested (h : slot < r.slots.length) :
    (openNested target r slot).nested? slot = some ((r.nested? slot).getD (freshRecord target)) := by
  unfold openNested
  cases hn : r.nested? slot with
  | none =>
    rw [Option.isNone_none, if_pos rfl, Record.nested_setSlot h]
    rfl
  | some n => rw [Option.isNone_some, if_neg Bool.false_ne_true, hn]; rfl

/-- A step that writes the value keeps the nested record. -/
theorem closeNested_set (created : Bool) : closeNested created (openNested target r slot) slot n
    (.ok .set) = r.setSlot slot (.nested (some n)) := by
  have hkeep : (created && !WriteAnswer.isSet (.ok .set)) = false := Bool.and_false _
  unfold closeNested openNested
  rw [hkeep, if_neg Bool.false_ne_true]
  split
  · exact Record.setSlot_setSlot
  · rfl

/-- A step that fails below leaves no trace. -/
theorem closeNested_failed (h : r.slots[slot]? = some (.nested (r.nested? slot)))
    {answer : Result WriteAnswer} (ha : WriteAnswer.isSet answer = false) :
    closeNested (r.nested? slot).isNone (openNested target r slot) slot
      ((r.nested? slot).getD (freshRecord target)) answer = r := by
  unfold closeNested openNested
  cases hn : r.nested? slot with
  | none =>
    rw [hn] at h
    simp only [ha, Option.isNone_none, Bool.not_false, Bool.and_self, if_true,
      Record.setSlot_setSlot, Record.setSlot_self h]
  | some n =>
    rw [hn] at h
    simp only [ha, Option.isNone_some, Bool.false_and, Bool.false_eq_true, if_false,
      Option.getD_some, Record.setSlot_self h]

/-- What a write in place leaves behind and answers, if `setAt` comes to this. -/
def leftBehind (r : Record) : Result PathWrite → Record × Result WriteAnswer
  | .ok (.set r') => (r', .ok .set)
  | .ok (.missing segment) => (r, .ok (.missing segment))
  | .error e => (r, .error e)

theorem isSet_leftBehind {p : Result PathWrite} :
    WriteAnswer.isSet (leftBehind r p).2 ↔ ∃ r', p = .ok (.set r') := by
  rcases p with e | r' | segment
  · exact ⟨nofun, nofun⟩
  · exact ⟨fun _ => ⟨r', rfl⟩, fun _ => rfl⟩
  · exact ⟨nofun, nofun⟩

theorem fst_leftBehind {p : Result PathWrite}
    (h : WriteAnswer.isSet (leftBehind r p).2 = false) : (leftBehind r p).1 = r := by
  rcases p with e | r' | segment
  · rfl
  · cases h
  · rfl

/-- A write in place leaves behind what `setAt` gives back, or the record as it was. -/
theorem writeAt_eq (hτ : Model.Sound τ) (hr : Typed t r) :
    writeAt t r v path = leftBehind r (setAt t r v path) := by
  induction path generalizing t r with
  | nil => rfl
  | cons head rest ih =>
    cases rest with
    | nil =>
      unfold writeAt setAt
      rcases setField t r head v with e | _ | r' <;> rfl
    | cons s rest =>
      unfold writeAt setAt nestedOrFresh
      rcases hg : (fieldsOf t).get? head with _ | ⟨slot, ft⟩ | get | ⟨slot, target⟩ | ⟨slot, child⟩
      case some.nested =>
        have hs : shapeAt (Model.type t).members slot = some (.nested target) := (hτ t).fits_get hg
        have hfailed {answer : Result WriteAnswer} (ha : WriteAnswer.isSet answer = false) :=
          @closeNested_failed _ _ target _ _ (hr.slot_nested hs) _ ha
        dsimp only
        rw [nested_openNested (hr.lt hs), Option.getD_some, ih (hr.nestedOrFresh hs)]
        rcases setAt target ((r.nested? slot).getD (freshRecord target)) v (s :: rest) with
          e | n' | segment
        · exact congrArg (·, _) (hfailed rfl)
        · exact congrArg (·, _) (closeNested_set _)
        · exact congrArg (·, _) (hfailed rfl)
      all_goals rfl

/-! ## Other values -/

/-- A write to a path creates the nested record at the end of a first part of it, one of the
    given type. -/
inductive Creates : τ → Record → List String → List String → τ → Prop
  | first {t target : τ} {r : Record} {name : String} {slot : Nat} {rest : List String} :
      (fieldsOf t).get? name = some (.nested slot target) → r.nested? slot = none → rest ≠ [] →
      Creates t r (name :: rest) [name] target
  | deeper {t target u : τ} {r : Record} {name : String} {slot : Nat} {rest created : List String} :
      (fieldsOf t).get? name = some (.nested slot target) →
      Creates target ((r.nested? slot).getD (freshRecord target)) rest created u →
      Creates t r (name :: rest) (name :: created) u

/-- The value at the path `q` is the default in a nested record that a write to `path` creates. -/
def CreatedDefault (t : τ) (r : Record) (path q : List String) (w : Value) : Prop :=
  ∃ created rest target, q = created ++ rest ∧ Creates t r path created target ∧
    valueAt target (freshRecord target) rest = some w

theorem CreatedDefault.deeper {name : String}
    (hg : (fieldsOf t).get? name = some (.nested slot target))
    (h : CreatedDefault target ((r.nested? slot).getD (freshRecord target)) path q w) :
    CreatedDefault t r (name :: path) (name :: q) w := by
  obtain ⟨created, rest, u, rfl, hc, hw⟩ := h
  exact ⟨name :: created, rest, u, rfl, .deeper hg hc, hw⟩

/-- A value that is not reached through a slot is not changed with it. -/
theorem valueAt_setSlot_ne (hτ : Model.Sound τ) {name name' : String} {a : Access τ} {s : Slot}
    (hg : (fieldsOf t).get? name = some a) (ha : a.slot? = some slot) (hname : name ≠ name')
    (hq : typeAt t (name' :: q) = some ft) :
    valueAt t (r.setSlot slot s) (name' :: q) = valueAt t r (name' :: q) := by
  have hapart {b : Access τ} {i : Nat} (hb : (fieldsOf t).get? name' = some b)
      (hi : b.slot? = some i) : slot ≠ i := by
    rintro rfl
    exact (hτ t).apart_get hg hb hname _ ha hi
  rcases q with _ | ⟨x, rest⟩
  · obtain ⟨i, hg'⟩ := typeAt_single.1 hq
    simp only [valueAt, flatValue, hg', Record.scalar_setSlot_ne (hapart hg' rfl)]
  · obtain ⟨i, target, hg', -⟩ := (typeAt_cons (List.cons_ne_nil x rest)).1 hq
    simp only [valueAt, nestedRecord, hg', Record.nested_setSlot_ne (hapart hg' rfl)]

/-- The value at the path `q` is the same in the record `r'`, which comes from `r` by a write to
    `path`, or is in a nested record that the write creates. -/
def KeptOrCreated (t : τ) (r : Record) (path : List String) (r' : Record) (q : List String) : Prop :=
  valueAt t r' q = valueAt t r q ∨
    valueAt t r q = none ∧ ∃ w, valueAt t r' q = some w ∧ CreatedDefault t r path q w

/-- What is so of the nested record on the way is so of the record. -/
theorem KeptOrCreated.deeper {name : String} (hslot : slot < r.slots.length)
    (hg : (fieldsOf t).get? name = some (.nested slot target)) (hpath : path ≠ []) (hq : q ≠ [])
    (h : KeptOrCreated target ((r.nested? slot).getD (freshRecord target)) path n q) :
    KeptOrCreated t r (name :: path) (r.setSlot slot (.nested (some n))) (name :: q) := by
  unfold KeptOrCreated
  rw [valueAt_nested hg hq, valueAt_nested hg hq, Record.nested_setSlot hslot, Option.bind_some]
  cases hset : r.nested? slot with
  | some m =>
    rw [hset, Option.getD_some] at h
    rcases h with hsame | ⟨hnone, w, hw, hd⟩
    · exact .inl hsame
    · refine .inr ⟨hnone, w, hw, .deeper hg ?_⟩
      rwa [hset]
  | none =>
    -- The nested record is created: what it holds was undefined, and is now its own default or
    -- that of a nested record that is created in it.
    rw [hset, Option.getD_none] at h
    rw [Option.bind_none]
    rcases hw : valueAt target n q with _ | w
    · exact .inl rfl
    · refine .inr ⟨rfl, w, rfl, ?_⟩
      rcases h with hsame | ⟨-, w', hw', hd⟩
      · exact ⟨[name], q, target, rfl, .first hg hset hpath, hsame.symm.trans hw⟩
      · rw [hw, Option.some.injEq] at hw'
        subst hw'
        refine .deeper hg ?_
        rwa [hset]

/-- A write to a path leaves the value at another path as it is, or creates the nested record
    that has it. -/
theorem valueAt_setAt_ne (hτ : Model.Sound τ) (hr : Typed t r)
    (h : setAt t r v path = .ok (.set r')) (hne : q ≠ path) (hq : typeAt t q = some ft) :
    KeptOrCreated t r path r' q := by
  induction path generalizing t r r' q with
  | nil => cases h
  | cons name rest ih =>
    obtain _ | ⟨name', q⟩ := q
    · cases hq
    by_cases hrest : rest = []
    · subst hrest
      obtain ⟨slot, ft', w, hg, -, rfl⟩ := setField_eq_some.1 (setAt_single.1 h)
      by_cases hname : name = name'
      · subst hname
        obtain ⟨x, q, rfl⟩ := List.exists_cons_of_ne_nil fun hnil : q = [] => hne (by rw [hnil])
        simp only [typeAt, hg, reduceCtorEq] at hq
      · exact .inl (valueAt_setSlot_ne hτ hg rfl hname hq)
    · obtain ⟨slot, target, n', hg, hn, rfl⟩ := (setAt_cons hrest).1 h
      by_cases hname : name = name'
      · subst hname
        have hs : shapeAt (Model.type t).members slot = some (.nested target) := (hτ t).fits_get hg
        obtain _ | ⟨x, q⟩ := q
        · simp only [typeAt, hg, reduceCtorEq] at hq
        have hne' : x :: q ≠ rest := fun heq => hne (by rw [heq])
        have hq' : typeAt target (x :: q) = some ft := by
          rw [← typeAt_nested hg (List.cons_ne_nil x q), hq]
        have hbelow := ih (hr.nestedOrFresh hs) hn hne' hq'
        exact hbelow.deeper (hr.lt hs) hg hrest (List.cons_ne_nil x q)
      · exact .inl (valueAt_setSlot_ne hτ hg rfl hname hq)

/-! ## The law -/

/-- The record `r'` comes from `r` by writing the value to the path. -/
structure PathSet (t : τ) (r : Record) (path : String) (v : Value) (r' : Record) : Prop where
  /-- The path leads to the value in the form that its field stores. -/
  taken : ∃ ft w, typeAt t (FieldName.segments path) = some ft ∧ ft.normalize v = .ok w ∧
    fieldValue t r' path = some w
  /-- A stored value at another path stays. -/
  kept : ∀ q ft w, q ≠ path → typeAt t (FieldName.segments q) = some ft →
    fieldValue t r q = some w → fieldValue t r' q = some w
  /-- A value at another path that was not there is the default in a nested record that had to be
      created. -/
  created : ∀ q ft w, q ≠ path → typeAt t (FieldName.segments q) = some ft →
    fieldValue t r q = none → fieldValue t r' q = some w →
      CreatedDefault t r (FieldName.segments path) (FieldName.segments q) w

theorem pathSet_of_setPath (hτ : Model.Sound τ) (hr : Typed t r) {path : String}
    (h : setPath t r path v = .ok (.set r')) : PathSet t r path v r' := by
  have hother {q : String} {ft : FieldType} (hne : q ≠ path)
      (hq : typeAt t (FieldName.segments q) = some ft) :=
    valueAt_setAt_ne hτ hr h (fun heq => hne (FieldName.segments_injective heq)) hq
  refine ⟨fieldValue_setPath hτ hr h, fun q ft w hne hq hw => ?_, fun q ft w hne hq hnone hw => ?_⟩
  · rcases hother hne hq with hsame | ⟨hnone, -⟩
    · exact hsame.trans hw
    · rw [fieldValue, hnone] at hw
      cases hw
  · rcases hother hne hq with hsame | ⟨-, w', hw', hd⟩
    · rw [fieldValue, hsame, ← fieldValue, hnone] at hw
      cases hw
    · rw [fieldValue, hw', Option.some.injEq] at hw
      exact hw ▸ hd

/-- A write in place is what `setPath` gives back.  It changes nothing unless it writes the value,
    which it does if the path leads to a field that takes it, and then it changes nothing else
    but by creating the nested records on its way. -/
theorem writePath_lawful (hτ : Model.Sound τ) (hr : Typed t r) (path : String) (v : Value) :
    writePath t r path v = leftBehind r (setPath t r path v) ∧
      (WriteAnswer.isSet (writePath t r path v).2 = false → (writePath t r path v).1 = r) ∧
      (WriteAnswer.isSet (writePath t r path v).2 →
        PathSet t r path v (writePath t r path v).1) ∧
      (WriteAnswer.isSet (writePath t r path v).2 ↔
        ∃ ft w, typeAt t (FieldName.segments path) = some ft ∧ ft.normalize v = .ok w) := by
  have heq : writePath t r path v = leftBehind r (setPath t r path v) := writeAt_eq hτ hr
  have hset : (∃ r', setPath t r path v = .ok (.set r')) ↔
      ∃ ft w, typeAt t (FieldName.segments path) = some ft ∧ ft.normalize v = .ok w := by
    constructor
    · rintro ⟨r', h⟩
      obtain ⟨ft, w, hft, hw, -⟩ := fieldValue_setPath hτ hr h
      exact ⟨ft, w, hft, hw⟩
    · rintro ⟨ft, w, hft, hw⟩
      exact setAt_of_typeAt hft hw
  refine ⟨heq, ?_⟩
  rw [heq, ← hset, isSet_leftBehind]
  refine ⟨fst_leftBehind, ?_, Iff.rfl⟩
  rintro ⟨r', h⟩
  rw [h]
  exact pathSet_of_setPath hτ hr h

/-- The company of the customer of an order without a customer is given a name, but not a title,
    which companies do not have. -/
theorem company_named :
    PathSet Sample.order (Sample.taggedOrder 7 []) "Customer.Company.Name" (.text "ACME")
      (writePath Sample.order (Sample.taggedOrder 7 []) "Customer.Company.Name" (.text "ACME")).1 ∧
    (writePath Sample.order (Sample.taggedOrder 7 []) "Customer.Company.Title" (.text "ACME")).1
      = Sample.taggedOrder 7 [] :=
  ⟨(writePath_lawful Sample.sound (Sample.typed_taggedOrder 7) _ _).2.2.1 rfl,
    (writePath_lawful Sample.sound (Sample.typed_taggedOrder 7) _ _).2.1 rfl⟩

end RecordGraph
