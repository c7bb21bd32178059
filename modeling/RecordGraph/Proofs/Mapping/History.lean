/-
  The memory of a row mapper.

  A mapper remembers the plans of the columns that it has seen, and it plans the columns of
  several rows once, for all rows that have the same.  Neither is to be noticed.

  * `Job` is a call of a mapper and `Answer` what the caller gets; `workAll` does one job after
    the other, each with what the mapper has learnt by then.
  * `Since`: a mapper of a configuration that has learnt nothing but plans of its type.  Every job
    keeps it so, and is answered as by a mapper that has seen nothing (`Since.answer`).
  * `mapEach` maps rows one by one, each on its own, until one fails.
  * `answers_fresh`: all answers are those of fresh mappers, and to map several rows is to map
    each of them.
-/
import RecordGraph.Proofs.Mapping.KeyColumn
import RecordGraph.Proofs.Samples

namespace RecordGraph

/-- The record that a row is mapped to, or why there is none. -/
def Mapped.result (m : Mapped) : Result Record :=
  match m.failure with
  | none => .ok m.record
  | some e => .error e

namespace RowMapper

variable {τ : Type} [Model τ] {t : τ} {m : RowMapper τ} {config : Config} {r : Record} {e : Error}

/-! ## Jobs -/

/-- A call of a mapper. -/
inductive Job where
  | map (row : Row)
  | mapInto (r : Record) (row : Row)
  | mapAll (rows : List Row)

/-- What the caller of a mapper gets. -/
inductive Answer where
  /-- A new record, if the row is mapped to one. -/
  | one (result : Result Record) (reports : List Diagnostic)
  /-- What is left of the record that was handed in. -/
  | merged (mapped : Mapped)
  | all (mapped : MappedAll)

/-- Does a job: the mapper with what it has learnt, and the answer. -/
def work (m : RowMapper τ) : Job → RowMapper τ × Answer
  | .map row =>
    let (m', mapped) := m.map row
    (m', .one mapped.result mapped.reports)
  | .mapInto r row =>
    let (m', mapped) := m.mapInto r row
    (m', .merged mapped)
  | .mapAll rows =>
    let (m', mapped) := m.mapAll rows
    (m', .all mapped)

/-- Does one job after the other. -/
def workAll (m : RowMapper τ) : List Job → RowMapper τ × List Answer
  | [] => (m, [])
  | job :: jobs =>
    let (m', answer) := m.work job
    let (m'', answers) := m'.workAll jobs
    (m'', answer :: answers)

/-- The mapper after some jobs. -/
def after (m : RowMapper τ) (jobs : List Job) : RowMapper τ := (m.workAll jobs).1

/-! ## What a mapper has learnt -/

/-- The mapper has learnt nothing but plans of its type since it was made. -/
structure Since (config : Config) (t : τ) (m : RowMapper τ) : Prop where
  of : m.Of config t
  strict : m.strict = config.strict
  logUnmapped : m.logUnmapped = config.logUnmapped

theorem since_ofConfig (config : Config) (t : τ) : (ofConfig config t).Since config t :=
  ⟨of_ofConfig config t, rfl, rfl⟩

@[simp] theorem logUnmapped_learn (m : RowMapper τ) (column : String) :
    (m.learn column).logUnmapped = m.logUnmapped := by
  unfold learn
  split <;> rfl

@[simp] theorem logUnmapped_learnAll (m : RowMapper τ) (columns : List String) :
    (m.learnAll columns).logUnmapped = m.logUnmapped := by
  unfold learnAll
  induction columns generalizing m with
  | nil => rfl
  | cons column columns ih => exact (ih (m.learn column)).trans (logUnmapped_learn m column)

theorem Since.learnAll (h : m.Since config t) (columns : List String) :
    (m.learnAll columns).Since config t where
  of := h.of.learnAll columns
  strict := (strict_learnAll m columns).trans h.strict
  logUnmapped := (logUnmapped_learnAll m columns).trans h.logUnmapped

theorem Since.mapInto (h : m.Since config t) (r : Record) (row : Row) :
    (m.mapInto r row).1.Since config t := h.learnAll row.columns

/-- What a mapper does to a record depends on its configuration only. -/
theorem Since.fill_eq (h : m.Since config t) (r : Record)
    (cells : List ((String × Value) × ColumnPlan)) :
    m.fill r cells = (ofConfig config t).fill r cells := by
  have hreport (column : String) (a : Anomaly) :
      m.report column a = (ofConfig config t).report column a := by
    simp only [report, h.logUnmapped, h.of.owner, ofConfig]
    rfl
  induction cells generalizing r with
  | nil => rfl
  | cons cell cells ih =>
    obtain ⟨⟨column, v⟩, plan⟩ := cell
    have howner : (ofConfig config t).owner = t := rfl
    have hstrict : (ofConfig config t).strict = config.strict := rfl
    unfold fill
    simp only [h.of.owner, h.strict, howner, hstrict, hreport, ih]

/-! ## Rows on their own -/

/-- What a row makes of a record, by its own columns and the configuration. -/
def mapping (config : Config) (t : τ) (r : Record) (row : Row) : Mapped :=
  (ofConfig config t).fill r (plannedCells config t row)

theorem Since.mapInto_eq (h : m.Since config t) (r : Record) (row : Row) :
    (m.mapInto r row).2 = mapping config t r row := by
  rw [h.of.mapInto_eq, (h.mapInto r row).fill_eq]
  rfl

theorem Since.map_eq (h : m.Since config t) (row : Row) :
    (m.map row).2 = mapping config t (freshRecord t) row := by
  rw [RowMapper.map, h.mapInto_eq, h.of.owner]

/-- Maps rows one after the other, each on its own, until one fails. -/
def mapEach (f : Row → Mapped) : List Row → MappedAll
  | [] => ⟨[], .ok []⟩
  | row :: rows =>
    match (f row).failure with
    | some e => ⟨(f row).reports, .error e⟩
    | none =>
      let later := mapEach f rows
      ⟨(f row).reports ++ later.reports, later.records.map ((f row).record :: ·)⟩

/-- To map a row after others is to map it on its own, whether it has their columns or not. -/
theorem Since.mapRows_eq (h : m.Since config t) (columns : List String) (rows : List Row) :
    (RowMapper.mapRows columns (columns.map (columnPlan config.typeIdAlias t)) m rows).2 =
      mapEach (mapping config t (freshRecord t)) rows := by
  induction rows generalizing m with
  | nil => rfl
  | cons row rows ih =>
    have hrow : ∃ m', Since config t m' ∧
        (if row.columns = columns then
            (m, m.fillRow (freshRecord m.owner) row (columns.map (columnPlan config.typeIdAlias t)))
          else m.map row) = (m', mapping config t (freshRecord t) row) := by
      by_cases hc : row.columns = columns
      · subst hc
        refine ⟨m, h, ?_⟩
        rw [if_pos rfl, fillRow, h.fill_eq, h.of.owner]
        rfl
      · refine ⟨(m.map row).1, h.mapInto _ row, ?_⟩
        rw [if_neg hc, ← h.map_eq]
    obtain ⟨m', h', hrow⟩ := hrow
    simp only [RowMapper.mapRows, mapEach, hrow]
    cases (mapping config t (freshRecord t) row).failure with
    | some e => rfl
    | none => simp only [ih h']

theorem Since.mapAll_eq (h : m.Since config t) (rows : List Row) :
    (m.mapAll rows).2 = mapEach (mapping config t (freshRecord t)) rows := by
  cases rows with
  | nil => rfl
  | cons row rows =>
    have hp := (h.learnAll row.columns).of.map_planOf row.columns
    simp only [RowMapper.mapAll, hp]
    exact (h.learnAll row.columns).mapRows_eq row.columns (row :: rows)

/-! ## Several rows -/

section

variable {f : Row → Mapped} {rows before after : List Row} {row : Row}

theorem mapEach_ok (h : ∀ row ∈ rows, (f row).failure = none) :
    mapEach f rows = ⟨rows.flatMap fun row => (f row).reports,
      .ok (rows.map fun row => (f row).record)⟩ := by
  induction rows with
  | nil => rfl
  | cons row rows ih =>
    obtain ⟨hrow, hrows⟩ := List.forall_mem_cons.1 h
    rw [mapEach, hrow, ih hrows]
    rfl

theorem mapEach_error (hbefore : ∀ row ∈ before, (f row).failure = none)
    (he : (f row).failure = some e) :
    mapEach f (before ++ row :: after) =
      ⟨(before.flatMap fun row => (f row).reports) ++ (f row).reports, .error e⟩ := by
  induction before with
  | nil =>
    rw [List.nil_append, mapEach, he]
    rfl
  | cons first before ih =>
    obtain ⟨hfirst, hbefore⟩ := List.forall_mem_cons.1 hbefore
    rw [List.cons_append, mapEach, hfirst, ih hbefore, List.flatMap_cons, List.append_assoc]
    rfl

end

/-! ## Rows that fail -/

/-- What fails is one cell, after those before it have been dealt with. -/
theorem fill_failed {cells : List ((String × Value) × ColumnPlan)}
    (h : (m.fill r cells).failure = some e) : ∃ before cell after, cells = before ++ cell :: after ∧
      m.fill r before = ⟨(m.fill r cells).record, (m.fill r cells).reports, none⟩ ∧
      m.fill r (before ++ [cell]) = m.fill r cells := by
  induction cells generalizing r with
  | nil => cases h
  | cons first cells ih =>
    obtain ⟨⟨column, v⟩, plan⟩ := first
    cases hp : placeCell m.owner r plan v with
    | skipped =>
      rw [fill_skipped hp] at h ⊢
      obtain ⟨before, cell, after, rfl, hbefore, hcell⟩ := ih h
      refine ⟨((column, v), plan) :: before, cell, after, rfl, ?_, ?_⟩
      · rw [fill_skipped hp, hbefore]
      · rw [List.cons_append, fill_skipped hp, hcell]
    | written r' =>
      rw [fill_placed hp] at h ⊢
      obtain ⟨before, cell, after, rfl, hbefore, hcell⟩ := ih h
      refine ⟨((column, v), plan) :: before, cell, after, rfl, ?_, ?_⟩
      · rw [fill_placed hp, hbefore]
      · rw [List.cons_append, fill_placed hp, hcell]
    | anomaly a =>
      cases hs : m.strict with
      | true =>
        rw [fill_stopped hs hp]
        exact ⟨[], ((column, v), plan), cells, rfl, rfl, fill_stopped hs hp⟩
      | false =>
        rw [fill_passed hs hp] at h ⊢
        obtain ⟨before, cell, after, rfl, hbefore, hcell⟩ := ih h
        refine ⟨((column, v), plan) :: before, cell, after, rfl, ?_, ?_⟩
        · rw [fill_passed hs hp, hbefore]
        · rw [List.cons_append, fill_passed hs hp, hcell]

/-- A row that fails does so at one of its columns, and what was reported by then is what the
    columns before it report. -/
theorem mapping_failed {row : Row} (h : (mapping config t r row).failure = some e) :
    ∃ before cell after, row.cells = before ++ cell :: after ∧
      mapping config t r ⟨before⟩ =
        ⟨(mapping config t r row).record, (mapping config t r row).reports, none⟩ ∧
      mapping config t r ⟨before ++ [cell]⟩ = mapping config t r row := by
  obtain ⟨before, cell, after, hcells, hbefore, hcell⟩ := fill_failed h
  rw [plannedCells_eq] at hcells
  obtain ⟨before', rest, hrow, rfl, hrest⟩ := List.map_eq_append_iff.1 hcells
  obtain ⟨cell', after', rfl, rfl, rfl⟩ := List.map_eq_cons_iff.1 hrest
  refine ⟨before', cell', after', hrow, ?_, ?_⟩
  · rw [mapping, plannedCells_eq]
    exact hbefore
  · rw [mapping, plannedCells_eq, List.map_append]
    exact hcell

/-! ## Histories -/

/-- A job adds plans of the type to the memory, and nothing else. -/
theorem Since.work (h : m.Since config t) (job : Job) : (m.work job).1.Since config t := by
  cases job with
  | map row => exact h.mapInto (freshRecord m.owner) row
  | mapInto r row => exact h.mapInto r row
  | mapAll rows => exact mapAll_keeps (fun _ hm => hm.learnAll) h rows

/-- The answer to a job does not depend on what the mapper has learnt. -/
theorem Since.answer (h : m.Since config t) (job : Job) :
    (m.work job).2 = ((ofConfig config t).work job).2 := by
  have hfresh := since_ofConfig config t
  cases job with
  | map row => simp only [RowMapper.work, h.map_eq, hfresh.map_eq]
  | mapInto r row => simp only [RowMapper.work, h.mapInto_eq, hfresh.mapInto_eq]
  | mapAll rows => simp only [RowMapper.work, h.mapAll_eq, hfresh.mapAll_eq]

theorem Since.after (h : m.Since config t) (jobs : List Job) : (m.after jobs).Since config t := by
  induction jobs generalizing m with
  | nil => exact h
  | cons job jobs ih => exact ih (h.work job)

theorem Since.answers (h : m.Since config t) (jobs : List Job) :
    (m.workAll jobs).2 = jobs.map fun job => ((ofConfig config t).work job).2 := by
  induction jobs generalizing m with
  | nil => rfl
  | cons job jobs ih =>
    rw [List.map_cons, ← h.answer job, ← ih (h.work job)]
    rfl

/-- Whatever a mapper has done before, it answers as a new one.  Several rows are mapped as each
    of them is alone, up to the first that fails, which does so at one of its columns. -/
theorem answers_fresh (config : Config) (t : τ) :
    let mapper := ofConfig config t
    let alone (row : Row) := (mapper.map row).2
    (∀ jobs, (mapper.workAll jobs).2 = jobs.map fun job => (mapper.work job).2) ∧
    (∀ rows, (∀ row ∈ rows, (alone row).failure = none) →
      (mapper.mapAll rows).2 = ⟨rows.flatMap fun row => (alone row).reports,
        .ok (rows.map fun row => (alone row).record)⟩) ∧
    ∀ before row after e, (∀ row ∈ before, (alone row).failure = none) →
      (alone row).failure = some e →
      (mapper.mapAll (before ++ row :: after)).2 =
        ⟨(before.flatMap fun row => (alone row).reports) ++ (alone row).reports, .error e⟩ ∧
      ∃ cells cell cells', row.cells = cells ++ cell :: cells' ∧
        alone ⟨cells⟩ = ⟨(alone row).record, (alone row).reports, none⟩ ∧
        alone ⟨cells ++ [cell]⟩ = alone row := by
  intro mapper alone
  have hfresh : mapper.Since config t := since_ofConfig config t
  have halone : alone = mapping config t (freshRecord t) := funext hfresh.map_eq
  simp only [halone, hfresh.mapAll_eq]
  exact ⟨hfresh.answers, fun rows hrows => mapEach_ok hrows,
    fun before row after e hbefore he => ⟨mapEach_error hbefore he, mapping_failed he⟩⟩

/-- Customers are mapped from rows with other columns than the first one, until one has a column
    that no customer has. -/
theorem customers_until_nickname :
    let mapper := ofConfig { Sample.config with strict := true } Sample.customer
    let ada : Row := ⟨[("Id", .int 1), ("Name", .text "Ada")]⟩
    let bob : Row := ⟨[("Name", .text "Bob"), ("CompanyId", .int 4)]⟩
    let bad : Row := ⟨[("CustomerId", .int 3), ("Nickname", .text "C"), ("Name", .text "Cyd")]⟩
    (mapper.mapAll [ada, bob]).2 = ⟨[], .ok [(mapper.map ada).2.record, (mapper.map bob).2.record]⟩ ∧
    (mapper.mapAll [ada, bob, bad, ada]).2 = ⟨[], .error (.mapping "Customer" "Nickname")⟩ := by
  intro mapper ada bob bad
  have hrows : ∀ row ∈ [ada, bob], (mapper.map row).2.failure = none := by decide +kernel
  have hbad : (mapper.map bad).2.failure = some (.mapping "Customer" "Nickname") := by
    decide +kernel
  obtain ⟨-, hall, hfailed⟩ := answers_fresh { Sample.config with strict := true } Sample.customer
  exact ⟨hall [ada, bob] hrows, (hfailed [ada, bob] bad [ada] _ hrows hbad).1⟩

end RowMapper

end RecordGraph
