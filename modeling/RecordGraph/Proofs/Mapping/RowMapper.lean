/-
  Row mappers: filling a record writes to it by name and does nothing else, and the
  plans that a mapper remembers are the plans of its type, so that what becomes of a row
  depends on the row alone.

  A cell that is placed is written to the path of its plan (`setAt_of_placeCell`), so what such
  a write keeps, filling keeps (`fill_keeps`).
-/
import RecordGraph.Mapping.RowMapper
import RecordGraph.Proofs.Record.Writing

namespace RecordGraph

variable {τ : Type} [Model τ] {t : τ} {r r' : Record}

/-! ## Columns -/

/-- A column lands on a field that can be written, unless it is a path or refers to the key of a
    nested record. -/
theorem columnPlan_eq_field {typeIdAlias : Bool} {column name : String} :
    columnPlan typeIdAlias t column = .field name ↔ columnName typeIdAlias t column = name ∧
      FieldName.isDotted name = false ∧ keyOwner? t name = none ∧ isWritable t name = true := by
  unfold columnPlan
  dsimp only
  constructor
  · intro h
    split at h
    · cases h
    · rename_i hdotted
      split at h
      · cases h
      · rename_i howner
        split at h
        · rename_i hwritable
          cases h
          exact ⟨rfl, by simpa using hdotted, howner, hwritable⟩
        · cases h
  · rintro ⟨rfl, hdotted, howner, hwritable⟩
    simp [hdotted, howner, hwritable]

/-! ## Cells -/

section

variable {plan : ColumnPlan} {path : List String} {v : Value}

/-- Where a plan puts a value. -/
def ColumnPlan.path? : ColumnPlan → Option (List String)
  | .field name => some [name]
  | .path path => some (FieldName.segments path)
  | .unmapped => none

theorem placeCell_null (hv : v.isNull = true) : placeCell t r plan v = .skipped := by
  unfold placeCell
  rw [if_pos hv]

theorem placeCell_of_path (hp : plan.path? = some path) (hv : v.isNull = false)
    (h : setAt t r v path = .ok (.set r')) : placeCell t r plan v = .written r' := by
  unfold placeCell
  rw [hv, if_neg (by simp)]
  cases plan with
  | field name =>
    cases hp
    simp only [setAt_single.1 h]
  | path p =>
    cases hp
    simp only [setPath, h]
  | unmapped => cases hp

/-- A mapper puts a value nowhere but where the plan says. -/
theorem setAt_of_placeCell (h : placeCell t r plan v = .written r') :
    ∃ path, plan.path? = some path ∧ setAt t r v path = .ok (.set r') := by
  unfold placeCell at h
  split at h
  · cases h
  · split at h
    · split at h
      · cases h; exact ⟨_, rfl, setAt_single.2 ‹_›⟩
      · cases h
      · cases h
    · split at h
      · cases h; exact ⟨_, rfl, ‹_›⟩
      · cases h
      · cases h
    · cases h

theorem placeCell_written (hτ : Model.Sound τ) (h : placeCell t r plan v = .written r') :
    Written t r r' := by
  obtain ⟨path, -, hset⟩ := setAt_of_placeCell h
  exact setAt_written hτ hset

end

/-! ## Filling -/

namespace RowMapper

variable {m : RowMapper τ}

section

variable {a : Anomaly} {column : String} {v : Value} {plan : ColumnPlan}
  {cells : List ((String × Value) × ColumnPlan)}

theorem fill_skipped (h : placeCell m.owner r plan v = .skipped) :
    m.fill r (((column, v), plan) :: cells) = m.fill r cells := by rw [fill, h]

theorem fill_placed (h : placeCell m.owner r plan v = .written r') :
    m.fill r (((column, v), plan) :: cells) = m.fill r' cells := by rw [fill, h]

/-- A strict mapper stops at an anomaly. -/
theorem fill_stopped (hs : m.strict = true) (h : placeCell m.owner r plan v = .anomaly a) :
    m.fill r (((column, v), plan) :: cells) = ⟨r, [], some (a.toError (typeName m.owner) column)⟩ := by
  rw [fill, h]
  exact if_pos hs

/-- A lenient mapper goes on after an anomaly. -/
theorem fill_passed (hs : m.strict = false) (h : placeCell m.owner r plan v = .anomaly a) :
    m.fill r (((column, v), plan) :: cells) = ⟨(m.fill r cells).record,
      m.report column a ++ (m.fill r cells).reports, (m.fill r cells).failure⟩ := by
  rw [fill, h]
  exact if_neg (by simp [hs])

end

/-- What a write to a path keeps, filling a record keeps too, also when it is broken off. -/
theorem fill_keeps {P : Record → Prop}
    (hP : ∀ {r r' v path}, P r → setAt m.owner r v path = .ok (.set r') → P r') (h : P r)
    (cells : List ((String × Value) × ColumnPlan)) : P (m.fill r cells).record := by
  induction cells generalizing r with
  | nil => exact h
  | cons cell cells ih =>
    obtain ⟨⟨column, v⟩, plan⟩ := cell
    unfold fill
    cases hp : placeCell m.owner r plan v with
    | skipped => exact ih h
    | written r' =>
      obtain ⟨path, -, hset⟩ := setAt_of_placeCell hp
      exact ih (hP h hset)
    | anomaly a =>
      dsimp only
      split
      · exact h
      · exact ih h

theorem fill_written (hτ : Model.Sound τ) (m : RowMapper τ) (r : Record)
    (cells : List ((String × Value) × ColumnPlan)) : Written m.owner r (m.fill r cells).record :=
  fill_keeps (P := Written m.owner r) (fun hw hset => hw.trans (setAt_written hτ hset)) .refl cells

/-- What a mapper that is never stopped makes of a record. -/
def filled (t : τ) : Record → List ((String × Value) × ColumnPlan) → Record
  | r, [] => r
  | r, ((_, v), plan) :: cells =>
    match placeCell t r plan v with
    | .written r' => filled t r' cells
    | _ => filled t r cells

/-- Strict or not, a mapper that is not stopped fills a record in the same way. -/
theorem fill_eq_filled {cells : List ((String × Value) × ColumnPlan)}
    (h : (m.fill r cells).failure = none) : (m.fill r cells).record = filled m.owner r cells := by
  induction cells generalizing r with
  | nil => rfl
  | cons cell cells ih =>
    obtain ⟨⟨column, v⟩, plan⟩ := cell
    unfold fill at h ⊢
    unfold filled
    cases hp : placeCell m.owner r plan v with
    | skipped => rw [hp] at h; exact ih h
    | written r' => rw [hp] at h; exact ih h
    | anomaly a =>
      rw [hp] at h
      dsimp only at h ⊢
      split at h
      · cases h
      · rename_i hs
        rw [if_neg hs]
        exact ih h

/-! ## Plans -/

/-- The mapper of a type in a configuration: its plans are those of the type. -/
structure Of (config : Config) (t : τ) (m : RowMapper τ) : Prop where
  owner : m.owner = t
  typeIdAlias : m.typeIdAlias = config.typeIdAlias
  plans : ∀ column plan, m.plans.lookup column = some plan →
    plan = columnPlan config.typeIdAlias t column

variable {config : Config}

theorem Of.planOf (h : m.Of config t) (column : String) :
    m.planOf column = columnPlan config.typeIdAlias t column := by
  unfold RowMapper.planOf
  cases hl : m.plans.lookup column with
  | none => rw [Option.getD_none, h.owner, h.typeIdAlias]
  | some plan => exact h.plans column plan hl

theorem of_ofConfig (config : Config) (t : τ) : (ofConfig config t).Of config t :=
  ⟨rfl, rfl, fun _ _ h => by cases h⟩

theorem Of.learn (h : m.Of config t) (column : String) : (m.learn column).Of config t := by
  unfold RowMapper.learn
  split
  · exact h
  · refine ⟨h.owner, h.typeIdAlias, fun c plan hc => ?_⟩
    rw [List.lookup_append, Option.or_eq_some_iff] at hc
    rcases hc with hc | ⟨-, hc⟩
    · exact h.plans c plan hc
    · simp only [List.lookup_cons] at hc
      split at hc
      · rename_i heq
        cases hc
        rw [h.planOf, eq_of_beq heq]
      · cases hc

theorem Of.learnAll (h : m.Of config t) (columns : List String) :
    (m.learnAll columns).Of config t := by
  unfold RowMapper.learnAll
  induction columns generalizing m with
  | nil => exact h
  | cons column columns ih => exact ih (h.learn column)

/-- The cells of a row with the plans of their columns. -/
def plannedCells (config : Config) (t : τ) (row : Row) : List ((String × Value) × ColumnPlan) :=
  row.cells.zip (row.columns.map (columnPlan config.typeIdAlias t))

theorem Of.map_planOf (h : m.Of config t) (columns : List String) :
    columns.map m.planOf = columns.map (columnPlan config.typeIdAlias t) :=
  List.map_congr_left fun c _ => h.planOf c

theorem Of.mapInto (h : m.Of config t) (r : Record) (row : Row) :
    (m.mapInto r row).1.Of config t := h.learnAll row.columns

theorem Of.mapInto_eq (h : m.Of config t) (r : Record) (row : Row) :
    (m.mapInto r row).2 = (m.mapInto r row).1.fill r (plannedCells config t row) := by
  have hp := (h.learnAll row.columns).map_planOf row.columns
  simp only [RowMapper.mapInto, fillRow, plannedCells, hp]

/-! ## Several rows -/

/-- What learning keeps of a mapper, mapping some rows keeps too. -/
theorem mapRows_keeps {P : RowMapper τ → Prop}
    (hP : ∀ m : RowMapper τ, P m → ∀ columns, P (m.learnAll columns)) (h : P m)
    (columns : List String) (plans : List ColumnPlan) (rows : List Row) :
    P (mapRows columns plans m rows).1 := by
  induction rows generalizing m with
  | nil => exact h
  | cons row rows ih =>
    unfold RowMapper.mapRows
    by_cases hc : row.columns = columns
    · simp only [hc, if_true]
      cases (m.fillRow (freshRecord m.owner) row plans).failure with
      | some e => exact h
      | none => exact ih h
    · simp only [hc, if_false]
      cases (m.map row).2.failure with
      | some e => exact hP m h row.columns
      | none => exact ih (hP m h row.columns)

@[inherit_doc mapRows_keeps]
theorem mapAll_keeps {P : RowMapper τ → Prop}
    (hP : ∀ m : RowMapper τ, P m → ∀ columns, P (m.learnAll columns)) (h : P m)
    (rows : List Row) : P (m.mapAll rows).1 := by
  cases rows with
  | nil => exact h
  | cons row rows => exact mapRows_keeps hP (hP m h row.columns) _ _ _

theorem Of.mapAll (h : m.Of config t) (rows : List Row) : (m.mapAll rows).1.Of config t :=
  mapAll_keeps (fun _ hm => hm.learnAll) h rows

/-- The record is what a mapper of the type makes of the row. -/
def MapsTo (config : Config) (t : τ) (row : Row) (r : Record) : Prop :=
  ∃ m : RowMapper τ, m.Of config t ∧
    (m.fill (freshRecord t) (plannedCells config t row)).record = r ∧
    (m.fill (freshRecord t) (plannedCells config t row)).failure = none

theorem MapsTo.eq_filled {row : Row} (h : MapsTo config t row r) :
    r = filled t (freshRecord t) (plannedCells config t row) := by
  obtain ⟨m, hm, rfl, hnone⟩ := h
  rw [fill_eq_filled hnone, hm.owner]

theorem MapsTo.typed (hτ : Model.Sound τ) {row : Row} (h : MapsTo config t row r) : Typed t r := by
  obtain ⟨m, hm, rfl, -⟩ := h
  have hw := fill_written hτ m (freshRecord t) (plannedCells config t row)
  rw [hm.owner] at hw
  exact hw.typed (typed_freshRecord t)

/-- The first of some rows is mapped, and then, if that goes well, the others. -/
theorem Of.mapRows_cons (h : m.Of config t) (columns : List String) (row : Row)
    (rows : List Row) : ∃ m', Of config t m' ∧
    let plans := columns.map (columnPlan config.typeIdAlias t)
    let first := m'.fill (freshRecord t) (plannedCells config t row)
    (∀ e, first.failure = some e →
      (RowMapper.mapRows columns plans m (row :: rows)).2.records = .error e) ∧
    (first.failure = none → (RowMapper.mapRows columns plans m (row :: rows)).2.records =
      (RowMapper.mapRows columns plans m' rows).2.records.map (first.record :: ·)) := by
  by_cases hc : row.columns = columns
  · subst hc
    have hfirst : m.fillRow (freshRecord m.owner) row
        (row.columns.map (columnPlan config.typeIdAlias t)) =
          m.fill (freshRecord t) (plannedCells config t row) := by rw [h.owner]; rfl
    refine ⟨m, h, fun e hf => ?_, fun hf => ?_⟩ <;>
      simp [RowMapper.mapRows, hfirst, hf]
  · have hfirst : (m.map row).2 = (m.map row).1.fill (freshRecord t) (plannedCells config t row) := by
      rw [← h.owner]
      exact (h.owner ▸ h).mapInto_eq _ row
    refine ⟨(m.map row).1, h.mapInto _ row, fun e hf => ?_, fun hf => ?_⟩ <;>
      simp [RowMapper.mapRows, hc, hfirst, hf]

theorem Of.mapRows_ok (h : m.Of config t) {columns : List String} {rows : List Row}
    {rs : List Record}
    (hr : (RowMapper.mapRows columns (columns.map (columnPlan config.typeIdAlias t)) m
      rows).2.records = .ok rs) : List.Forall₂ (MapsTo config t) rows rs := by
  induction rows generalizing m rs with
  | nil => cases hr; exact .nil
  | cons row rows ih =>
    obtain ⟨m', hm', hfail, hrest⟩ := h.mapRows_cons columns row rows
    cases hf : (m'.fill (freshRecord t) (plannedCells config t row)).failure with
    | some e =>
      rw [hfail e hf] at hr
      cases hr
    | none =>
      rw [hrest hf] at hr
      cases hl : (RowMapper.mapRows columns (columns.map (columnPlan config.typeIdAlias t)) m'
          rows).2.records with
      | error e => simp only [hl] at hr; cases hr
      | ok rs' =>
        simp only [hl, Except.map, Except.ok.injEq] at hr
        subst hr
        exact .cons ⟨m', hm', rfl, hf⟩ (ih hm' hl)

theorem Of.mapAll_ok (h : m.Of config t) {rows : List Row} {rs : List Record}
    (hr : (m.mapAll rows).2.records = .ok rs) : List.Forall₂ (MapsTo config t) rows rs := by
  cases rows with
  | nil => cases hr; exact .nil
  | cons row rows =>
    have hp := (h.learnAll row.columns).map_planOf row.columns
    simp only [RowMapper.mapAll, hp] at hr
    exact (h.learnAll row.columns).mapRows_ok hr

/-! ## Strictness -/

@[simp] theorem strict_learn (m : RowMapper τ) (column : String) :
    (m.learn column).strict = m.strict := by
  unfold learn
  split <;> rfl

@[simp] theorem strict_learnAll (m : RowMapper τ) (columns : List String) :
    (m.learnAll columns).strict = m.strict := by
  unfold learnAll
  induction columns generalizing m with
  | nil => rfl
  | cons column columns ih => exact (ih (m.learn column)).trans (strict_learn m column)

@[simp] theorem strict_mapInto (m : RowMapper τ) (r : Record) (row : Row) :
    (m.mapInto r row).1.strict = m.strict := strict_learnAll m row.columns

@[simp] theorem strict_mapAll (m : RowMapper τ) (rows : List Row) :
    (m.mapAll rows).1.strict = m.strict :=
  mapAll_keeps (P := fun m' => m'.strict = m.strict)
    (fun m' hm columns => (strict_learnAll m' columns).trans hm) rfl rows

/-- Mappers of one type that are as strict as each other do the same to a record. -/
theorem fill_congr {m' : RowMapper τ} (ho : m.owner = m'.owner) (hs : m.strict = m'.strict)
    (r : Record) (cells : List ((String × Value) × ColumnPlan)) :
    (m.fill r cells).record = (m'.fill r cells).record ∧
      (m.fill r cells).failure = (m'.fill r cells).failure := by
  induction cells generalizing r with
  | nil => exact ⟨rfl, rfl⟩
  | cons cell cells ih =>
    obtain ⟨⟨column, v⟩, plan⟩ := cell
    unfold fill
    rw [ho, hs]
    cases placeCell m'.owner r plan v with
    | skipped => exact ih r
    | written r' => exact ih r'
    | anomaly a =>
      dsimp only
      split
      · exact ⟨rfl, rfl⟩
      · exact ih r

theorem Of.mapInto_congr {m' : RowMapper τ} (h : m.Of config t) (h' : m'.Of config t)
    (hs : m.strict = m'.strict) (r : Record) (row : Row) :
    (m.mapInto r row).2.record = (m'.mapInto r row).2.record ∧
      (m.mapInto r row).2.failure = (m'.mapInto r row).2.failure := by
  rw [h.mapInto_eq, h'.mapInto_eq]
  refine fill_congr ?_ ?_ _ _
  · rw [(h.mapInto r row).owner, (h'.mapInto r row).owner]
  · rw [strict_mapInto, strict_mapInto, hs]

theorem Of.mapRows_congr {m' : RowMapper τ} (h : m.Of config t) (h' : m'.Of config t)
    (hs : m.strict = m'.strict) (columns : List String) (plans : List ColumnPlan)
    (rows : List Row) :
    (RowMapper.mapRows columns plans m rows).2.records =
      (RowMapper.mapRows columns plans m' rows).2.records := by
  have ho : m.owner = m'.owner := h.owner.trans h'.owner.symm
  induction rows generalizing m m' with
  | nil => rfl
  | cons row rows ih =>
    unfold RowMapper.mapRows
    by_cases hc : row.columns = columns
    · obtain ⟨hrecord, hfailure⟩ := fill_congr ho hs (freshRecord m'.owner) (row.cells.zip plans)
      simp only [hc, if_true, fillRow, ho, hrecord, hfailure]
      cases (m'.fill (freshRecord m'.owner) (row.cells.zip plans)).failure with
      | some e => rfl
      | none => rw [ih h h' hs ho]
    · obtain ⟨hrecord, hfailure⟩ := h.mapInto_congr h' hs (freshRecord m'.owner) row
      simp only [hc, if_false, RowMapper.map, ho, hrecord, hfailure]
      have hrest := ih (h.mapInto (freshRecord m'.owner) row)
        (h'.mapInto (freshRecord m'.owner) row) (by rw [strict_mapInto, strict_mapInto, hs])
        ((h.mapInto _ row).owner.trans (h'.mapInto _ row).owner.symm)
      cases (m'.mapInto (freshRecord m'.owner) row).2.failure with
      | some e => rfl
      | none => rw [hrest]

theorem Of.mapAll_congr {m' : RowMapper τ} (h : m.Of config t) (h' : m'.Of config t)
    (hs : m.strict = m'.strict) (rows : List Row) :
    (m.mapAll rows).2.records = (m'.mapAll rows).2.records := by
  cases rows with
  | nil => rfl
  | cons row rows =>
    have hp := (h.learnAll row.columns).map_planOf row.columns
    have hp' := (h'.learnAll row.columns).map_planOf row.columns
    simp only [RowMapper.mapAll, hp, hp']
    exact (h.learnAll row.columns).mapRows_congr (h'.learnAll row.columns)
      (by rw [strict_learnAll, strict_learnAll, hs]) _ _ _

end RowMapper

end RecordGraph
