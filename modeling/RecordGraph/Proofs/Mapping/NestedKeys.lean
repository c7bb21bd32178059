/-
  What a column `XId` gets from the nested record `X`.

  The column is written with the field `Id` of the nested record, found by its path.  That is the
  key of the nested record only if its type keeps its key there (`KeyInId`).

  * `TableMap.WritesKey`: of a record, the column gets the key of the nested record, and null
    only if there is no such key.
  * `TableMap.writesKey_iff`: this is so of every record exactly if the type of the nested record
    keeps its key in its field `Id`.
  * `TableMap.region_of_shop_lost`: a region has no field `Id`, and a shop is written as if it
    were in no region.
-/
import RecordGraph.Proofs.Mapping.Columns

namespace RecordGraph

variable {τ : Type} [Model τ] {t target : τ} {r n : Record} {column x : String} {slot : Nat}

/-! ## Paths to keys -/

theorem nestedRecord_of_get (hg : (fieldsOf t).get? x = some (.nested slot target)) (r : Record) :
    nestedRecord t r x = (r.nested? slot).map fun n => (target, n) := by
  simp only [nestedRecord, hg]

/-- The path to the key of a nested record ends in its field `Id`. -/
theorem fieldValue_keyPath (hx : FieldName.isDotted x = false)
    (hn : nestedRecord t r x = some (target, n)) :
    fieldValue t r (FieldName.keyPath x) = flatValue target n "Id" := by
  rw [fieldValue, FieldName.segments_keyPath, FieldName.segments_plain hx]
  simp only [List.cons_append, List.nil_append, valueAt, hn]

/-- A record in which one nested record is set, and nothing else. -/
def recordWith (t : τ) (slot : Nat) (n : Record) : Record :=
  (freshRecord t).setSlot slot (.nested (some n))

theorem typed_recordWith (hτ : Model.Sound τ) (hg : (fieldsOf t).get? x = some (.nested slot target))
    (hn : Typed target n) : Typed t (recordWith t slot n) :=
  (typed_freshRecord t).setSlot ((hτ t).fits_get hg) (.nested hn)

theorem nestedRecord_recordWith (hτ : Model.Sound τ)
    (hg : (fieldsOf t).get? x = some (.nested slot target)) (n : Record) :
    nestedRecord t (recordWith t slot n) x = some (target, n) := by
  have hlt := (typed_freshRecord t).lt ((hτ t).fits_get hg)
  rw [nestedRecord_of_get hg, recordWith, Record.nested_setSlot hlt, Option.map_some]

/-- Under any other name there is no nested record. -/
theorem nestedRecord_recordWith_ne (hτ : Model.Sound τ)
    (hg : (fieldsOf t).get? x = some (.nested slot target)) (n : Record) {name : String}
    (hne : name ≠ x) : nestedRecord t (recordWith t slot n) name = none := by
  unfold nestedRecord
  split
  · rename_i slot' target' hg'
    have hslots : slot ≠ slot' := fun heq =>
      (hτ t).apart_get hg' hg hne slot' rfl (congrArg some heq)
    rw [recordWith, Record.nested_setSlot_ne hslots, nested_freshRecord, Option.map_none]
  · rfl

/-- A path of parts between points never has a name with a point in it for a part. -/
theorem fieldValue_keyPath_dotted (hτ : Model.Sound τ)
    (hg : (fieldsOf t).get? x = some (.nested slot target)) (n : Record)
    (hx : FieldName.isDotted x = true) :
    fieldValue t (recordWith t slot n) (FieldName.keyPath x) = none := by
  obtain ⟨part, parts, hs⟩ := List.exists_cons_of_ne_nil (FieldName.segments_ne_nil x)
  have hne : part ≠ x := by
    rintro rfl
    have hpart := FieldName.not_isDotted_of_mem (hs ▸ List.mem_cons_self : part ∈ _)
    rw [hx] at hpart
    cases hpart
  have hunset := nestedRecord_recordWith_ne hτ hg n hne
  rw [fieldValue, FieldName.segments_keyPath, hs]
  cases parts <;> simp only [List.cons_append, List.nil_append, valueAt, hunset]

/-- The type keeps the key of its records in its field `Id`, where a path through `X` finds it. -/
def KeyInId (x : String) (target : τ) : Prop :=
  ∀ n, Typed target n → keyOf target n = .null ∨
    (FieldName.isDotted x = false ∧ flatValue target n "Id" = some (keyOf target n))

theorem keyInId_of_stored (hx : FieldName.isDotted x = false) {ft : FieldType}
    (hg : (fieldsOf target).get? "Id" = some (.stored slot ft))
    (hkey : ∀ n, keyOf target n = n.scalar slot) : KeyInId x target := by
  intro n _
  refine .inr ⟨hx, ?_⟩
  simp only [flatValue, hg, hkey]

/-! ## What is written -/

namespace TableMap

variable {m : TableMap τ} {columns : List String}

/-- The column `XId` is written for the nested record in a field `X`: it is no reference, and no
    value of the record itself goes by its name. -/
structure FromNested (m : TableMap τ) (column x : String) (slot : Nat) (target : τ) : Prop where
  stem : FieldName.stem? column = some x
  nested : (fieldsOf m.owner).get? x = some (.nested slot target)
  unreferenced : m.reference? column = none
  notFlat : isScalar m.owner column = false
  written : m.skipsOnWrite column = false

/-- The column gets one value: the key of the nested record, if that is set and has a key.  It
    gets null only if there is no such key. -/
def WritesKey (m : TableMap τ) (column x : String) (r : Record) : Prop :=
  ∀ columns, column ∈ columns → ∃ v, (∀ w, (column, w) ∈ m.writeValues r columns ↔ w = v) ∧
    ∀ target n, nestedRecord m.owner r x = some (target, n) →
      (v = .null → keyOf target n = .null) ∧ (keyOf target n ≠ .null → v = keyOf target n)

theorem FromNested.writeValue (h : m.FromNested column x slot target) (r : Record) :
    m.writeValue? r column = some ((fieldValue m.owner r (FieldName.keyPath x)).getD .null) := by
  have hsource : sourcePath m.owner column = some (FieldName.segments (FieldName.keyPath x)) := by
    simp only [sourcePath, h.notFlat, Bool.false_eq_true, if_false, h.stem, isNested, h.nested,
      Option.filter_some, if_true, Option.map_some]
  rw [writeValue_eq h.unreferenced, hsource, Option.map_some]
  rfl

/-- Wherever the column is among those to be written, it is written, with one and the same
    value. -/
theorem FromNested.mem_writeValues (h : m.FromNested column x slot target) {r : Record}
    {w : Value} : (column, w) ∈ m.writeValues r columns ↔ column ∈ columns ∧
      w = (fieldValue m.owner r (FieldName.keyPath x)).getD .null := by
  simp only [writeValues, List.mem_filterMap]
  constructor
  · rintro ⟨c, hc, hw⟩
    split at hw
    · cases hw
    · obtain ⟨v, hv, heq⟩ := Option.map_eq_some_iff.1 hw
      rw [Prod.mk.injEq] at heq
      obtain ⟨rfl, rfl⟩ := heq
      rw [h.writeValue, Option.some.injEq] at hv
      exact ⟨hc, hv.symm⟩
  · rintro ⟨hc, rfl⟩
    refine ⟨column, hc, ?_⟩
    rw [h.written, if_neg (by simp), h.writeValue, Option.map_some]

/-- Of a record the key of the nested record is written exactly if the path to the key leads to
    it. -/
theorem FromNested.writesKey_iff_found (h : m.FromNested column x slot target) (r : Record) :
    m.WritesKey column x r ↔ ∀ target n, nestedRecord m.owner r x = some (target, n) →
      keyOf target n = .null ∨
        fieldValue m.owner r (FieldName.keyPath x) = some (keyOf target n) := by
  constructor
  · intro hw target n hn
    obtain ⟨v, hv, hkey⟩ := hw [column] List.mem_cons_self
    by_cases hnull : keyOf target n = .null
    · exact .inl hnull
    · refine .inr ?_
      have hvalue := (hkey target n hn).2 hnull
      obtain ⟨-, hread⟩ := h.mem_writeValues.1 ((hv v).2 rfl)
      rw [hvalue] at hread
      cases hf : fieldValue m.owner r (FieldName.keyPath x) with
      | none => rw [hf] at hread; exact absurd hread hnull
      | some w => rw [hf, Option.getD_some] at hread; rw [hread]
  · intro hfound columns hc
    refine ⟨(fieldValue m.owner r (FieldName.keyPath x)).getD .null, fun w => ?_, ?_⟩
    · rw [h.mem_writeValues, and_iff_right hc]
    · intro target n hn
      rcases hfound target n hn with hnull | hf
      · exact ⟨fun _ => hnull, fun hne => absurd hnull hne⟩
      · rw [hf, Option.getD_some]
        exact ⟨id, fun _ => rfl⟩

/-- The key of the nested record is written of every record exactly if the type of the nested
    record keeps its key in its field `Id`; and of one record exactly if the path to the key leads
    to it. -/
theorem writesKey_iff (hτ : Model.Sound τ) (h : m.FromNested column x slot target) :
    ((∀ r, Typed m.owner r → m.WritesKey column x r) ↔ KeyInId x target) ∧
      ∀ r, m.WritesKey column x r ↔ ∀ target n, nestedRecord m.owner r x = some (target, n) →
        keyOf target n = .null ∨
          fieldValue m.owner r (FieldName.keyPath x) = some (keyOf target n) := by
  refine ⟨⟨fun hall n hn => ?_, fun hkey r hr => ?_⟩, h.writesKey_iff_found⟩
  · have hw := hall _ (typed_recordWith hτ h.nested hn)
    rcases (h.writesKey_iff_found _).1 hw target n (nestedRecord_recordWith hτ h.nested n) with
      hnull | hf
    · exact .inl hnull
    · refine .inr ?_
      cases hx : FieldName.isDotted x with
      | true =>
        rw [fieldValue_keyPath_dotted hτ h.nested n hx] at hf
        cases hf
      | false =>
        rw [fieldValue_keyPath hx (nestedRecord_recordWith hτ h.nested n)] at hf
        exact ⟨rfl, hf⟩
  · refine (h.writesKey_iff_found r).2 fun target' n hn => ?_
    have hslot := hn
    rw [nestedRecord_of_get h.nested, Option.map_eq_some_iff] at hslot
    obtain ⟨n', hn', heq⟩ := hslot
    cases heq
    rcases hkey n (hr.nested ((hτ _).fits_get h.nested) hn') with hnull | ⟨hx, hid⟩
    · exact .inl hnull
    · exact .inr ((fieldValue_keyPath hx hn).trans hid)

/-- Projects keep their keys in their field `Id`, and so a task is written with that of its
    project. -/
theorem project_of_task_written :
    Sample.taskMap.FromNested "ProjectId" "Project" 2 .project ∧
      Sample.taskMap.WritesKey "ProjectId" "Project" (Sample.taskOf 5 1 "t" none) := by
  have hcolumn : Sample.taskMap.FromNested "ProjectId" "Project" 2 .project :=
    ⟨rfl, rfl, rfl, rfl, rfl⟩
  have hkey : KeyInId "Project" Sample.project := keyInId_of_stored rfl rfl fun _ => rfl
  exact ⟨hcolumn, (writesKey_iff Sample.sound hcolumn).1.2 hkey _ (Sample.typed_taskOf 5 1 "t")⟩

/-- The key of a region is its code, and it has no field `Id`: the region of a shop is set and has
    a key, and the shop is written with null. -/
theorem region_of_shop_lost :
    Catalog.ownMap Sample.config Sample.shop = .ok Sample.shopMap ∧
    Sample.shopMap.FromNested "RegionId" "Region" 2 .region ∧
    nestedRecord Sample.shop (Sample.shopIn "N") "Region" =
      some (.region, Sample.regionOf "N") ∧
    keyOf Sample.region (Sample.regionOf "N") = .text "N" ∧
    Sample.shopMap.writeValues (Sample.shopIn "N") ["RegionId"] = [("RegionId", .null)] ∧
    ¬ Sample.shopMap.WritesKey "RegionId" "Region" (Sample.shopIn "N") := by
  refine ⟨rfl, ⟨rfl, rfl, rfl, rfl, rfl⟩, rfl, rfl, rfl, fun h => ?_⟩
  obtain ⟨v, hv, hkey⟩ := h ["RegionId"] List.mem_cons_self
  have hnull : v = .null := ((hv .null).1 (List.mem_singleton.2 rfl)).symm
  cases (hkey .region (Sample.regionOf "N") rfl).1 hnull

end TableMap

end RecordGraph
