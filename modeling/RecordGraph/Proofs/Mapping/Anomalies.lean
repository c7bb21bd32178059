/-
  Columns that do not get into a record.

  * `anomaly?` says from the type alone what is wrong with a cell: its column has no field, or
    its path stops at a part that leads nowhere (`stopsAt`), or its field does not take the value.
    What a mapper comes upon in the record that it fills is the same (`placeCell_anomaly`,
    `placeCell_fits`).
  * `fitting`: the cells of a row without its nulls and those that something is wrong with.
  * `fillInto` fills a record in place, and leaves behind what `fill` gives back (`fillInto_eq`):
    a write that fails removes what it has created on its way.
  * `mapInto_lenient_strict`: a lenient mapper does what it does with the fitting row, and reports
    the others; a strict one does the same if there is nothing to report, and else fails with the
    first of the reports.
-/
import RecordGraph.Proofs.Mapping.Columns
import RecordGraph.Proofs.Mapping.History
import RecordGraph.Proofs.Record.InPlace

namespace RecordGraph

variable {τ : Type} [Model τ] {t : τ} {r : Record} {column : String} {v : Value}
  {typeIdAlias : Bool} {a : Anomaly} {plan : ColumnPlan}

/-! ## What is wrong with a cell -/

/-- What is wrong with a value that is to be written to a path. -/
def pathAnomaly? (t : τ) (path : List String) (v : Value) : Option Anomaly :=
  match typeAt t path with
  | none => some (.unresolved (stopsAt t path))
  | some ft =>
    match ft.normalize v with
    | .ok _ => none
    | .error e => some (.undecodable (.decode (path.getLastD "") e.message))

/-- What is wrong with a value that is to be put where a plan says.  With null, which is skipped,
    nothing is wrong. -/
def anomaly? (t : τ) (plan : ColumnPlan) (v : Value) : Option Anomaly :=
  if v.isNull then none
  else match plan.path? with
    | none => some .unmapped
    | some path => pathAnomaly? t path v

/-- The value gets into every record. -/
def fits (t : τ) (plan : ColumnPlan) (v : Value) : Bool := !v.isNull && (anomaly? t plan v).isNone

/-- A field that a column is planned for is there. -/
theorem typeAt_of_columnPlan {name : String} (h : columnPlan typeIdAlias t column = .field name) :
    ∃ ft, typeAt t [name] = some ft := by
  obtain ⟨-, -, -, hwritable⟩ := columnPlan_eq_field.1 h
  unfold isWritable at hwritable
  split at hwritable
  · rename_i slot ft hg
    exact ⟨ft, typeAt_single.2 ⟨slot, hg⟩⟩
  · cases hwritable

/-- What is wrong with a cell by its type is what a mapper comes upon, whatever the record. -/
theorem placeCell_anomaly (h : anomaly? t (columnPlan typeIdAlias t column) v = some a) :
    placeCell t r (columnPlan typeIdAlias t column) v = .anomaly a := by
  unfold anomaly? at h
  unfold placeCell
  split at h
  · cases h
  · rename_i hnull
    rw [if_neg hnull]
    cases hplan : columnPlan typeIdAlias t column with
    | unmapped =>
      rw [hplan] at h
      cases h
      rfl
    | field name =>
      obtain ⟨ft, hft⟩ := typeAt_of_columnPlan hplan
      simp only [hplan, ColumnPlan.path?, pathAnomaly?, hft] at h
      split at h
      · cases h
      · rename_i e he
        cases h
        simp only [setField_refused hft he]
        rfl
    | path path =>
      simp only [hplan, ColumnPlan.path?, pathAnomaly?] at h
      split at h
      · rename_i hft
        cases h
        simp only [setPath, setAt_stops hft]
      · rename_i ft hft
        split at h
        · cases h
        · rename_i e he
          cases h
          simp only [setPath, setAt_refused hft he]

/-- A cell that fits is written. -/
theorem placeCell_fits (h : fits t plan v = true) (r : Record) : ∃ path r',
    plan.path? = some path ∧ setAt t r v path = .ok (.set r') ∧
      placeCell t r plan v = .written r' := by
  simp only [fits, Bool.and_eq_true, Bool.not_eq_true', Option.isNone_iff_eq_none] at h
  obtain ⟨hnull, h⟩ := h
  unfold anomaly? at h
  rw [hnull, if_neg Bool.false_ne_true] at h
  split at h
  · cases h
  · rename_i path hp
    unfold pathAnomaly? at h
    split at h
    · cases h
    · rename_i ft hft
      split at h
      · rename_i w hw
        obtain ⟨r', hset⟩ := setAt_of_typeAt (r := r) hft hw
        exact ⟨path, r', hp, hset, placeCell_of_path hp hnull hset⟩
      · cases h

/-- A cell is null, or something is wrong with it, or it fits. -/
theorem anomaly_cases (t : τ) (plan : ColumnPlan) (v : Value) :
    (v.isNull = true ∧ anomaly? t plan v = none ∧ fits t plan v = false) ∨
      (∃ a, anomaly? t plan v = some a ∧ fits t plan v = false) ∨
      (anomaly? t plan v = none ∧ fits t plan v = true) := by
  cases hnull : v.isNull with
  | true => exact .inl ⟨rfl, by rw [anomaly?, hnull, if_pos rfl], by rw [fits, hnull]; rfl⟩
  | false =>
    cases ha : anomaly? t plan v with
    | some a => exact .inr (.inl ⟨a, rfl, by rw [fits, hnull, ha]; rfl⟩)
    | none => exact .inr (.inr ⟨rfl, by rw [fits, hnull, ha]; rfl⟩)

namespace RowMapper

variable {m : RowMapper τ} {config : Config}

/-! ## Rows with such cells -/

/-- Cells with the plans of their columns. -/
def planned (typeIdAlias : Bool) (t : τ) (cells : List (String × Value)) :
    List ((String × Value) × ColumnPlan) :=
  cells.map fun cell => (cell, columnPlan typeIdAlias t cell.1)

/-- The cells that get into every record. -/
def fitting (typeIdAlias : Bool) (t : τ) (cells : List (String × Value)) : List (String × Value) :=
  cells.filter fun cell => fits t (columnPlan typeIdAlias t cell.1) cell.2

/-- The columns whose cells something is wrong with, and what, in their order. -/
def anomalies (typeIdAlias : Bool) (t : τ) (cells : List (String × Value)) :
    List (String × Anomaly) :=
  cells.filterMap fun cell =>
    (anomaly? t (columnPlan typeIdAlias t cell.1) cell.2).map fun a => (cell.1, a)

/-- A lenient mapper passes over the anomalies and reports them. -/
theorem fill_lenient (ho : m.owner = t) (hs : m.strict = false) (r : Record)
    (cells : List (String × Value)) :
    m.fill r (planned typeIdAlias t cells) =
      ⟨(m.fill r (planned typeIdAlias t (fitting typeIdAlias t cells))).record,
        (anomalies typeIdAlias t cells).flatMap fun b => m.report b.1 b.2, none⟩ := by
  subst ho
  induction cells generalizing r with
  | nil => rfl
  | cons cell cells ih =>
    obtain ⟨column, v⟩ := cell
    unfold planned fitting anomalies at ih ⊢
    rw [List.map_cons]
    rcases anomaly_cases m.owner (columnPlan typeIdAlias m.owner column) v with
      ⟨hnull, ha, hf⟩ | ⟨a, ha, hf⟩ | ⟨ha, hf⟩
    · rw [fill_skipped (placeCell_null hnull), List.filter_cons_of_neg (by simp [hf]), ih,
        List.filterMap_cons_none (by rw [ha]; rfl)]
    · rw [fill_passed hs (placeCell_anomaly ha), List.filter_cons_of_neg (by simp [hf]), ih,
        List.filterMap_cons_some (by rw [ha]; rfl), List.flatMap_cons]
    · obtain ⟨path, r', -, -, hplace⟩ := placeCell_fits hf r
      rw [fill_placed hplace, List.filter_cons_of_pos (by simp [hf]), List.map_cons,
        fill_placed hplace, ih, List.filterMap_cons_none (by rw [ha]; rfl)]

/-- A strict mapper fails with the first anomaly. -/
theorem fill_strict (ho : m.owner = t) (hs : m.strict = true) (r : Record)
    (cells : List (String × Value)) :
    (m.fill r (planned typeIdAlias t cells)).failure =
      (anomalies typeIdAlias t cells).head?.map fun b => b.2.toError (typeName t) b.1 := by
  subst ho
  induction cells generalizing r with
  | nil => rfl
  | cons cell cells ih =>
    obtain ⟨column, v⟩ := cell
    unfold planned anomalies at ih ⊢
    rw [List.map_cons]
    rcases anomaly_cases m.owner (columnPlan typeIdAlias m.owner column) v with
      ⟨hnull, ha, -⟩ | ⟨a, ha, -⟩ | ⟨ha, hf⟩
    · rw [fill_skipped (placeCell_null hnull), List.filterMap_cons_none (by rw [ha]; rfl), ih]
    · rw [fill_stopped hs (placeCell_anomaly ha), List.filterMap_cons_some (by rw [ha]; rfl)]
      rfl
    · obtain ⟨path, r', -, -, hplace⟩ := placeCell_fits hf r
      rw [fill_placed hplace, List.filterMap_cons_none (by rw [ha]; rfl), ih]

/-! ## Filling in place -/

/-- Puts a value where a plan says into the record itself: what is left of it, and what stands in
    the way. -/
def placeInto (t : τ) (r : Record) (plan : ColumnPlan) (v : Value) : Record × Option Anomaly :=
  if v.isNull then (r, none)
  else match plan with
    | .field name =>
      match setField t r name v with
      | .ok (some r') => (r', none)
      | .ok none => (r, none)
      | .error e => (r, some (.undecodable e))
    | .path path =>
      match writePath t r path v with
      | (r', .ok .set) => (r', none)
      | (r', .ok (.missing segment)) => (r', some (.unresolved segment))
      | (r', .error e) => (r', some (.undecodable e))
    | .unmapped => (r, some .unmapped)

/-- Fills the record itself, which is handed on from cell to cell as each leaves it. -/
def fillInto (m : RowMapper τ) (r : Record) : List ((String × Value) × ColumnPlan) → Mapped
  | [] => ⟨r, [], none⟩
  | ((column, v), plan) :: rest =>
    match placeInto m.owner r plan v with
    | (r', none) => fillInto m r' rest
    | (r', some a) =>
      if m.strict then ⟨r', [], some (a.toError (typeName m.owner) column)⟩
      else
        let later := fillInto m r' rest
        ⟨later.record, m.report column a ++ later.reports, later.failure⟩

/-- Merges a row into the record itself. -/
def mergeInto (m : RowMapper τ) (r : Record) (row : Row) : Mapped :=
  let m' := m.learnAll row.columns
  m'.fillInto r (row.cells.zip (row.columns.map m'.planOf))

/-- What `placeCell` comes to, in place. -/
def leftByPlacement (r : Record) : Placement → Record × Option Anomaly
  | .skipped => (r, none)
  | .written r' => (r', none)
  | .anomaly a => (r, some a)

theorem placeInto_eq (hτ : Model.Sound τ) (hr : Typed t r) :
    placeInto t r plan v = leftByPlacement r (placeCell t r plan v) := by
  unfold placeInto placeCell
  split
  · rfl
  · cases plan with
    | field name =>
      dsimp only
      rcases setField t r name v with e | _ | r' <;> rfl
    | path path =>
      have hw : writePath t r path v = leftBehind r (setPath t r path v) := writeAt_eq hτ hr
      dsimp only
      rw [hw]
      rcases setPath t r path v with e | r' | segment <;> rfl
    | unmapped => rfl

/-- An anomaly leaves no trace in the record. -/
theorem fillInto_eq (hτ : Model.Sound τ) {cells : List ((String × Value) × ColumnPlan)}
    (hr : Typed m.owner r) : m.fillInto r cells = m.fill r cells := by
  induction cells generalizing r with
  | nil => rfl
  | cons cell cells ih =>
    obtain ⟨⟨column, v⟩, plan⟩ := cell
    unfold fillInto fill
    rw [placeInto_eq hτ hr]
    cases hp : placeCell m.owner r plan v with
    | skipped => exact ih hr
    | written r' => exact ih ((placeCell_written hτ hp).typed hr)
    | anomaly a => simp only [leftByPlacement, ih hr]

theorem Since.mergeInto_eq (hτ : Model.Sound τ) (h : m.Since config t) (hr : Typed t r) (row : Row) :
    m.mergeInto r row = (m.mapInto r row).2 :=
  fillInto_eq hτ ((h.learnAll row.columns).of.owner ▸ hr)

/-! ## Lenient and strict mappers -/

/-- What is made of a row depends on its cells with their plans. -/
theorem mapping_eq (config : Config) (t : τ) (r : Record) (row : Row) :
    mapping config t r row =
      (ofConfig config t).fill r (planned config.typeIdAlias t row.cells) := by
  rw [mapping, plannedCells_eq]
  rfl

/-- A lenient mapper, whatever it has done before, makes of a record what it makes of it with the
    cells that fit, and a strict mapper does the same or stops.  If columns without a field are
    reported, the reports are one for each cell that something is wrong with, in their order; a
    strict mapper stops exactly if there is such a cell, at the first of them.  All this is so of
    the record that is filled in place. -/
theorem mapInto_lenient_strict (config : Config) (t : τ) (jobs jobs' : List Job) (r : Record)
    (row : Row) :
    let lenient (logged : Bool) :=
      (ofConfig { config with strict := false, logUnmapped := logged } t).after jobs
    let strict := (ofConfig { config with strict := true } t).after jobs'
    let bad := anomalies config.typeIdAlias t row.cells
    let passed (logged : Bool) := ((lenient logged).mapInto r row).2
    let stopped := (strict.mapInto r row).2
    (∀ logged, (passed logged).failure = none ∧ (passed logged).record =
      ((lenient logged).mapInto r ⟨fitting config.typeIdAlias t row.cells⟩).2.record) ∧
    (passed true).reports = bad.map (fun b => b.2.diagnostic (typeName t) b.1) ∧
    (stopped.failure = none ↔ (passed true).reports = []) ∧
    (stopped.failure = none → stopped.record = (passed true).record) ∧
    stopped.failure = bad.head?.map (fun b => b.2.toError (typeName t) b.1) ∧
    (Model.Sound τ → Typed t r →
      (∀ logged, (lenient logged).mergeInto r row = passed logged) ∧
        strict.mergeInto r row = stopped) := by
  intro lenient strict bad passed stopped
  have hlenient (logged : Bool) : (lenient logged).Since
      { config with strict := false, logUnmapped := logged } t :=
    (since_ofConfig _ t).after jobs
  have hstrict : strict.Since { config with strict := true } t := (since_ofConfig _ t).after jobs'
  have hpassed (logged : Bool) : passed logged =
      ⟨((lenient logged).mapInto r ⟨fitting config.typeIdAlias t row.cells⟩).2.record,
        bad.flatMap fun b => (ofConfig { config with strict := false, logUnmapped := logged }
          t).report b.1 b.2, none⟩ := by
    simp only [passed, (hlenient logged).mapInto_eq, mapping_eq]
    exact fill_lenient rfl rfl r row.cells
  have hreports : (passed true).reports = bad.map (fun b => b.2.diagnostic (typeName t) b.1) := by
    rw [hpassed, List.map_eq_flatMap]
    exact List.flatMap_congr fun b _ => if_neg (by simp [ofConfig])
  have hstopped : stopped.failure = bad.head?.map (fun b => b.2.toError (typeName t) b.1) := by
    simp only [stopped, hstrict.mapInto_eq, mapping_eq]
    exact fill_strict rfl rfl r row.cells
  refine ⟨fun logged => by simp only [hpassed, and_self], hreports, ?_, fun hnone => ?_, hstopped,
    fun hτ hr => ⟨fun logged => (hlenient logged).mergeInto_eq hτ hr row,
      hstrict.mergeInto_eq hτ hr row⟩⟩
  · rw [hstopped, hreports, Option.map_eq_none_iff, List.head?_eq_none_iff, List.map_eq_nil_iff]
  · have hnone' : (passed true).failure = none := by rw [hpassed]
    simp only [stopped, passed, hstrict.mapInto_eq, (hlenient true).mapInto_eq, mapping_eq]
      at hnone hnone' ⊢
    rw [fill_eq_filled hnone, fill_eq_filled hnone']
    rfl

/-- Of a customer without a company everything but the key is wrong, so that the customer stays
    without one; the strict mapper stops at the name that companies do not have. -/
theorem customer_without_company :
    let row : Row := ⟨[("Id", .int 1), ("Company.Bogus", .text "x"), ("Company.Country", .null),
      ("Company.Country.Motto", .text "y"), ("CompanyId", .text "none"), ("Nickname", .text "A")]⟩
    let lenient := ofConfig { Sample.config with strict := false, logUnmapped := true }
      Sample.customer
    let strict := ofConfig { Sample.config with strict := true } Sample.customer
    let keyed : Row := ⟨[("Id", .int 1)]⟩
    (lenient.mapInto (freshRecord Sample.customer) row).2.record =
      (lenient.mapInto (freshRecord Sample.customer) keyed).2.record ∧
    (lenient.mapInto (freshRecord Sample.customer) row).2.reports =
      [.unresolvedPath "Customer" "Company.Bogus" "Bogus",
        .unresolvedPath "Customer" "Company.Country.Motto" "Motto",
        .columnDecode "Customer" "CompanyId" "expected i64, got text",
        .unmappedColumn "Customer" "Nickname"] ∧
    (strict.mapInto (freshRecord Sample.customer) row).2.failure =
      some (.mapping "Customer" "Company.Bogus") ∧
    (strict.mapInto (freshRecord Sample.customer) keyed).2.record =
      (lenient.mapInto (freshRecord Sample.customer) keyed).2.record ∧
    strict.mergeInto (freshRecord Sample.customer) row =
      (strict.mapInto (freshRecord Sample.customer) row).2 := by
  intro row lenient strict keyed
  obtain ⟨hlenient, hreports, -, -, hstopped, hplace⟩ := mapInto_lenient_strict Sample.config
    Sample.customer [] [] (freshRecord Sample.customer) row
  obtain ⟨-, -, -, hsame, -⟩ := mapInto_lenient_strict Sample.config Sample.customer [] []
    (freshRecord Sample.customer) keyed
  have hfitting : fitting Sample.config.typeIdAlias Sample.customer row.cells = keyed.cells := by
    decide +kernel
  have hnone : (strict.mapInto (freshRecord Sample.customer) keyed).2.failure = none := by
    decide +kernel
  refine ⟨?_, ?_, ?_, hsame hnone, (hplace Sample.sound (typed_freshRecord _)).2⟩
  · rw [hfitting] at hlenient
    exact (hlenient true).2
  · exact hreports.trans (by decide +kernel)
  · exact hstopped.trans (by decide +kernel)

end RowMapper

end RecordGraph
