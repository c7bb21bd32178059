/-
  The save of one child in a table of children.

  `ChildTable` is a database with such a table: statements on a key act on the row with
  that key, and an insert adds a row under a new one.  The save of a child then leaves a row
  of its own that points at the parent, and all rows with other keys as they are
  (`RowSaved`).
-/
import RecordGraph.Proofs.Mapping.KeyColumn
import RecordGraph.Proofs.Row
import RecordGraph.Proofs.Samples
import RecordGraph.Proofs.Session.Master
import RecordGraph.Proofs.Session.Rows

namespace RecordGraph

namespace Session

variable {τ δ : Type} [Model τ] {env : Env δ} {w w' : World τ δ} {r r' c c' : Record}
  {m : TableMap τ}

/-! ## Tables of children -/

variable {names : ChildColumns} {master : Value} {taken : List Value} {table : δ → List Row}

/-- The children have one key, which the database makes and the row mapper reads, they store
    the key of their parent, and there is nothing below them. -/
structure PlainChild (config : Config) (m : TableMap τ) (names : ChildColumns)
    (master : Value) : Prop where
  field : KeyField m.owner names.key names.type
  keys : m.keys = [names.key]
  generated : m.generatedKey = true
  relations : m.relations = []
  reads : ReadsKey config m.owner names.key names.all
  stores : StoresMaster m names.parent master
  present : names.parent ∈ names.all
  other : names.parent ≠ names.key

/-- The database has a table for the children.  Selects, updates and deletes by key act on the
    row with the key, and an insert adds a row under a key that is neither in the table
    nor taken. -/
structure ChildTable (env : Env δ) (m : TableMap τ) (names : ChildColumns) (taken : List Value)
    (table : δ → List Row) : Prop where
  probe : ∀ v s d rows, m.probe env.config.dialect [v] = .ok s →
    (env.executor.query s d).1 = .ok rows → table (env.executor.query s d).2 = table d ∧
    rows.Perm ((table d).filter fun row => row.holds names.key v)
  reload : ∀ v s d rows, names.Rows (table d) →
    m.selectByKeys env.config.dialect .short [v] = .ok s →
    (env.executor.query s d).1 = .ok rows → table (env.executor.query s d).2 = table d ∧
    ∀ shown ∈ rows, ReadsKey env.config m.owner names.key shown.columns ∧
      ∃ row ∈ table d, row.holds names.key v ∧ shown.get? names.key = row.get? names.key
  delete : ∀ v s d n, m.deleteByKeys env.config.dialect [v] = .ok s →
    (env.executor.execute s d).1 = .ok n →
    (table (env.executor.execute s d).2).Perm
      ((table d).filter fun row => !row.holds names.key v)
  update : ∀ r v s d n, m.keyValues r = [v] →
    m.update env.config.dialect r names.all = .ok (some s) →
    (env.executor.execute s d).1 = .ok n →
    (table (env.executor.execute s d).2).Perm ((table d).map fun row =>
      if row.holds names.key v then row.overwritten (m.updateValues r names.all) else row)
  describe : ∀ s d columns, m.describe env.config.dialect = .ok s →
    (env.executor.describe s d).1 = .ok columns →
    table (env.executor.describe s d).2 = table d ∧ columns = names.all
  insert : ∀ r s d rows, m.insert env.config.dialect r names.all = .ok s →
    (env.executor.query s d).1 = .ok rows →
    ∃ row v, (table (env.executor.query s d).2).Perm (row :: table d) ∧
      (rows.head?.bind fun row => row.value? 0) = some v ∧ row.columns = names.all ∧
      row.get? names.key = some v ∧ IsKey names.type v ∧
      (∀ row ∈ table d, row.holds names.key v = false) ∧ (∀ u ∈ taken, u.eqv v = false) ∧
      ∀ column ∈ names.all, column ≠ names.key →
        ∀ u, (m.writeValues r names.all).lookup column = some u → row.get? column = some u

theorem PlainChild.keyValues (hm : PlainChild env.config m names master) (r : Record) :
    m.keyValues r = [keyIn m.owner names.key r] := by
  rw [TableMap.keyValues, hm.keys]
  rfl

theorem PlainChild.isKey (hm : PlainChild env.config m names master) (column : String) :
    m.isKey column = (column == names.key) := by
  rw [TableMap.isKey, hm.keys, List.contains_cons, List.contains_nil, Bool.or_false]

/-! ## One child -/

/-- The rows of a table after the save of a child.  The child has the key of a row that points
    at the parent; this is the row that it had before, or one under a new key. -/
structure RowSaved (t : τ) (names : ChildColumns) (master : Value) (taken : List Value)
    (rows rows' : List Row) (c c' : Record) : Prop where
  keyed : names.Rows rows'
  row : ∃ row ∈ rows', row.holds names.key (keyIn t names.key c') ∧ row.holds names.parent master
  stored : isNew t c' = false
  others : ∀ row, row.holds names.key (keyIn t names.key c') = false → (row ∈ rows' ↔ row ∈ rows)
  identity : (isNew t c = false ∧ (keyIn t names.key c').eqv (keyIn t names.key c)) ∨
    (isNew t c = false → ∀ row ∈ rows, row.holds names.key (keyIn t names.key c) = false) ∧
      (∀ row ∈ rows, row.holds names.key (keyIn t names.key c') = false) ∧
      ∀ u ∈ taken, u.eqv (keyIn t names.key c') = false

/-- The rows after an update point at the parent, or are what they were. -/
theorem PlainChild.overwritten (hm : PlainChild env.config m names master)
    (hw : m.writeValue? r names.parent = some master) (row : Row) :
    (row.overwritten (m.updateValues r names.all)).get? names.key = row.get? names.key ∧
    (row.columns = names.all →
      (row.overwritten (m.updateValues r names.all)).get? names.parent = some master) := by
  have hkey : m.isKey names.key = true := by rw [hm.isKey]; exact beq_self_eq_true _
  have hparent : m.isKey names.parent = false := by
    rw [hm.isKey]
    exact beq_false_of_ne hm.other
  refine ⟨?_, fun hcolumns => ?_⟩
  · rw [Row.get?_overwritten, TableMap.lookup_updateValues_key hkey]
    cases row.get? names.key <;> rfl
  · obtain ⟨u, hu⟩ := Row.get?_eq_some_of_mem (hcolumns ▸ hm.present)
    rw [Row.get?_overwritten, hu,
      TableMap.lookup_updateValues hm.present hm.stores.written hparent hw]
    rfl

variable [DecidableEq τ]

/-- A record that was read back has the key of the row that was read. -/
theorem ChildTable.reloaded (ht : ChildTable env m names taken table) (hτ : Model.Sound τ)
    (hm : PlainChild env.config m names master) (hc : w.catalog.Sound env.config)
    (hk : names.Rows (table w.database)) (hr : Typed m.owner r)
    (h : reloadOf m env w r = ⟨.ok (), w', r'⟩) :
    table w'.database = table w.database ∧ ∃ row ∈ table w.database,
      row.holds names.key (keyIn m.owner names.key r) ∧
      row.get? names.key = some (keyIn m.owner names.key r') := by
  obtain ⟨s, shown, rows, hs, hq, hmap⟩ := reloadOf_ok h
  obtain ⟨hdb, mapper, hof, rfl, hok⟩ := mapInto_ok (w := w.queried env s) hc hmap
  rw [hm.keyValues] at hs
  obtain ⟨hsame, hshown⟩ := ht.reload _ s w.database _ hk hs hq
  obtain ⟨hreads, row, hrow, hholds, hget⟩ := hshown shown (by simp)
  obtain ⟨v, hv, hkey⟩ := hk.keys row hrow
  refine ⟨by rw [hdb, World.queried_database, hsame], row, hrow, hholds, ?_⟩
  rw [hv, hof.fill_keyIn hτ hm.field hreads (hget.trans hv) hkey.stored hkey.notNull hr hok]

omit [DecidableEq τ] in
theorem ChildTable.updated (ht : ChildTable env m names taken table)
    (hm : PlainChild env.config m names master) (hw : m.writeValue? r names.parent = some master)
    {row : Row} (hrow : row.columns = names.all)
    (h : updateRow m row env w r = ⟨.ok (), w', r'⟩) :
    (table w'.database).Perm ((table w.database).map fun row =>
      if row.holds names.key (keyIn m.owner names.key r) then
        row.overwritten (m.updateValues r names.all) else row) := by
  obtain ⟨-, update, hu, ⟨rfl, -⟩ | ⟨s, n, rfl, hn, rfl⟩⟩ := updateRow_ok h
  · have hparent : m.isKey names.parent = false := by
      rw [hm.isKey]
      exact beq_false_of_ne hm.other
    have hlookup := TableMap.lookup_updateValues hm.present hm.stores.written hparent hw
    rw [← hrow, TableMap.update_none hu] at hlookup
    cases hlookup
  · rw [hrow] at hu
    exact ht.update r _ s w.database n (hm.keyValues r) hu hn

omit [DecidableEq τ] in
theorem ChildTable.inserted (ht : ChildTable env m names taken table) (hτ : Model.Sound τ)
    (hm : PlainChild env.config m names master) (hw : m.writeValue? r names.parent = some master)
    (hr : Typed m.owner r) (h : Inserted env m w r w' r') :
    ∃ row, (table w'.database).Perm (row :: table w.database) ∧ row.columns = names.all ∧
      row.get? names.key = some (keyIn m.owner names.key r') ∧
      IsKey names.type (keyIn m.owner names.key r') ∧ row.holds names.parent master ∧
      (∀ row ∈ table w.database, row.holds names.key (keyIn m.owner names.key r') = false) ∧
      ∀ u ∈ taken, u.eqv (keyIn m.owner names.key r') = false := by
  cases h with
  | given _ _ _ hgiven _ => rw [hm.generated] at hgiven; cases hgiven
  | @generated d s columns rows key field keys _ hd hcolumns hs _ hq hscalar hkeys hset =>
    rw [hm.keys, List.cons.injEq] at hkeys
    obtain ⟨rfl, -⟩ := hkeys
    obtain ⟨hsame, rfl⟩ := ht.describe d w.database columns hd hcolumns
    obtain ⟨row, v, hperm, hv, hall, hget, hkey, hfresh, hfree, hwritten⟩ :=
      ht.insert r s _ rows hs hq
    rw [World.described_database, hsame] at hperm hfresh
    rw [hscalar, Option.some.injEq] at hv
    subst hv
    have hself := hm.field.setPath_self hτ hr hset
    rw [hkey.stored, Except.ok.injEq] at hself
    subst hself
    have hparent := hwritten names.parent hm.present hm.other master
      (TableMap.lookup_writeValues hm.present hm.stores.written hw)
    refine ⟨row, hperm, hall, hget, hkey, ?_, hfresh, hfree⟩
    rw [Row.holds_of_get hparent]
    exact hm.stores.self

omit [DecidableEq τ] in
/-- An update keeps the keys of the rows, and makes the row of its key point at the parent. -/
theorem PlainChild.updated_rows (hm : PlainChild env.config m names master)
    (hw : m.writeValue? r names.parent = some master) {rows rows' : List Row} {u : Value}
    (hk : names.Rows rows) (hp : rows'.Perm (rows.map fun row =>
      if row.holds names.key u then row.overwritten (m.updateValues r names.all) else row)) :
    names.Rows rows' ∧
    (∀ row ∈ rows', row.holds names.key u → row.holds names.parent master) ∧
    ∀ row, row.holds names.key u = false → (row ∈ rows' ↔ row ∈ rows) := by
  have hkey (row : Row) : (if row.holds names.key u then
      row.overwritten (m.updateValues r names.all) else row).get? names.key =
        row.get? names.key := by
    split
    · exact (hm.overwritten hw row).1
    · rfl
  have hholds (row : Row) (v : Value) : (if row.holds names.key u then
      row.overwritten (m.updateValues r names.all) else row).holds names.key v =
        row.holds names.key v := Row.holds_of_get_eq (hkey row)
  refine ⟨(hk.map (fun row => ?_) hkey).perm hp.symm, fun row hr hru => ?_, fun row hru => ?_⟩
  · split
    · exact Row.columns_overwritten
    · rfl
  · obtain ⟨row₀, hr₀, rfl⟩ := List.mem_map.1 (hp.mem_iff.1 hr)
    rw [hholds] at hru
    rw [if_pos hru, Row.holds_of_get ((hm.overwritten hw row₀).2 (hk.shape row₀ hr₀))]
    exact hm.stores.self
  · rw [hp.mem_iff, List.mem_map]
    constructor
    · rintro ⟨row₀, hr₀, rfl⟩
      rw [hholds] at hru
      rwa [if_neg (by rw [hru]; simp)]
    · intro hr
      exact ⟨row, hr, if_neg (by rw [hru]; simp)⟩

variable {w₁ w₂ : World τ δ} {c₂ : Record} {row : Row}

omit [DecidableEq τ] in
/-- The probe finds the row of a stored child, if it has one. -/
theorem ChildTable.probed (ht : ChildTable env m names taken table)
    (hm : PlainChild env.config m names master) {stored : Option Row}
    (h : storedRow m env w c = ⟨.ok stored, w₁, c'⟩) :
    table w₁.database = table w.database ∧
    (∀ row, stored = some row → isNew m.owner c = false ∧ row ∈ table w.database) ∧
    (stored = none → isNew m.owner c = false →
      ∀ row ∈ table w.database, row.holds names.key (keyIn m.owner names.key c) = false) := by
  obtain ⟨-, ⟨hnew, rfl, rfl⟩ | ⟨hnew, s, rows, hs, hq, rfl, rfl⟩⟩ := storedRow_ok.1 h
  · refine ⟨rfl, nofun, fun _ hn => ?_⟩
    rw [hn] at hnew
    cases hnew
  · rw [hm.keyValues] at hs
    obtain ⟨hsame, hperm⟩ := ht.probe _ s w.database rows hs hq
    refine ⟨hsame, fun row hhead => ⟨hnew, ?_⟩, fun hnone _ row hr => ?_⟩
    · exact (List.mem_filter.1 (hperm.mem_iff.1 (List.mem_of_mem_head? hhead))).1
    · rw [List.head?_eq_none_iff.1 hnone] at hperm
      simpa using List.filter_eq_nil_iff.1 hperm.nil_eq.symm row hr

/-- A child that has a row keeps it, and the row is updated. -/
theorem ChildTable.saved_updated (ht : ChildTable env m names taken table) (hτ : Model.Sound τ)
    (hm : PlainChild env.config m names master) (hk : names.Rows (table w.database))
    (hr : Typed m.owner c) (hw : m.writeValue? c names.parent = some master)
    (hnew : isNew m.owner c = false) (hrow : row ∈ table w.database)
    (hsame : table w₁.database = table w.database)
    (hupdate : updateRow m row env w₁ c = ⟨.ok (), w₂, c⟩) (hc₂ : w₂.catalog.Sound env.config)
    (hreload : reloadOf m env w₂ c = ⟨.ok (), w', c'⟩) :
    RowSaved m.owner names master taken (table w.database) (table w'.database) c c' := by
  have hupdated := ht.updated hm hw (hk.shape row hrow) hupdate
  rw [hsame] at hupdated
  obtain ⟨hk₂, hparent, hothers⟩ := hm.updated_rows hw hk hupdated
  obtain ⟨hdb, row', hrow', hholds', hget⟩ := ht.reloaded hτ hm hc₂ hk₂ hr hreload
  have hself := hk₂.isKey hrow' hget
  have heqv : (keyIn m.owner names.key c').eqv (keyIn m.owner names.key c) := by
    rwa [Row.holds_of_get hget] at hholds'
  rw [hdb]
  refine ⟨hk₂, ⟨row', hrow', ?_, hparent row' hrow' hholds'⟩, ?_, fun row hne => ?_,
    .inl ⟨hnew, heqv⟩⟩
  · rw [Row.holds_of_get hget]
    exact hself.self
  · rw [hm.field.isNew]
    exact hself.set
  · rw [Row.holds_congr heqv] at hne
    exact hothers row hne

/-- A child that has no row gets one under a new key. -/
theorem ChildTable.saved_inserted (ht : ChildTable env m names taken table) (hτ : Model.Sound τ)
    (hm : PlainChild env.config m names master) (hk : names.Rows (table w.database))
    (hr : Typed m.owner c) (hw : m.writeValue? c names.parent = some master)
    (habsent : isNew m.owner c = false →
      ∀ row ∈ table w.database, row.holds names.key (keyIn m.owner names.key c) = false)
    (hsame : table w₁.database = table w.database) (hinserted : Inserted env m w₁ c w₂ c₂)
    (hr₂ : Typed m.owner c₂) (hc₂ : w₂.catalog.Sound env.config)
    (hreload : reloadOf m env w₂ c₂ = ⟨.ok (), w', c'⟩) :
    RowSaved m.owner names master taken (table w.database) (table w'.database) c c' := by
  obtain ⟨row, hperm, hall, hget, hkey, hparent, hfresh, hfree⟩ :=
    ht.inserted hτ hm hw hr hinserted
  rw [hsame] at hperm hfresh
  have hk₂ : names.Rows (table w₂.database) := (hk.cons hall hget hkey hfresh).perm hperm.symm
  obtain ⟨hdb, row', hrow', hholds', hget'⟩ := ht.reloaded hτ hm hc₂ hk₂ hr₂ hreload
  -- The row that was read back is the one that was inserted.
  have hrow : row ∈ table w₂.database := hperm.mem_iff.2 (by simp)
  have hself : row.holds names.key (keyIn m.owner names.key c₂) := by
    rw [Row.holds_of_get hget]
    exact hkey.self
  obtain rfl := hk₂.eq_of_holds hrow hrow' hself hholds'
  rw [hget, Option.some.injEq] at hget'
  rw [hdb]
  rw [hget'] at hself hfresh hfree hkey
  refine ⟨hk₂, ⟨row, hrow, hself, hparent⟩, ?_, fun other hne => ?_,
    .inr ⟨habsent, hfresh, hfree⟩⟩
  · rw [hm.field.isNew]
    exact hkey.set
  · rw [hperm.mem_iff, List.mem_cons]
    refine ⟨fun hor => hor.resolve_left ?_, .inr⟩
    rintro rfl
    rw [hself] at hne
    cases hne

/-- The save of a child leaves a row of its own that points at the parent. -/
theorem ChildTable.saved (ht : ChildTable env m names taken table) (hτ : Model.Sound τ)
    (hm : PlainChild env.config m names master) (hmap : w.catalog.map? m.owner = some m)
    (hc : w.catalog.Sound env.config) (hk : names.Rows (table w.database))
    (hr : Typed m.owner c) (hw : m.writeValue? c names.parent = some master)
    {saveChild : τ → Session τ δ Record Unit}
    (h : saveUsing saveChild m.owner env w c = ⟨.ok (), w', c'⟩) :
    RowSaved m.owner names master taken (table w.database) (table w'.database) c c' := by
  obtain ⟨m', w₁, c₁, htable, h⟩ := bind_ok.1 h
  obtain ⟨old, w₂, c₂, hwrite, h⟩ := bind_ok.1 h
  obtain ⟨_, w₃, c₃, hreload, hrels⟩ := bind_ok.1 h
  obtain ⟨k, hcat, rfl, rfl⟩ := tableMap_ok.1 htable
  rw [Catalog.tableMap_of_map hmap] at hcat
  cases hcat
  rw [hm.relations] at hrels
  obtain ⟨rfl, rfl⟩ := forM_nil_ok.1 hrels
  have hc₂ := ((Grows.writeRow m).later hwrite).sound hc
  have hr₂ : Typed m.owner c₂ := (writeRow_written hτ hwrite).typed hr
  obtain ⟨stored, w₄, hstored, hcases⟩ := writeRow_ok hwrite
  obtain ⟨hsame, hfound, habsent⟩ := ht.probed hm hstored
  rcases hcases with ⟨row, w₅, rfl, hupdate, hold, rfl⟩ | ⟨rfl, -, hinserted⟩
  · obtain ⟨hnew, hrow⟩ := hfound row rfl
    obtain ⟨-, hnothing⟩ := storedRecord_ok hold
    obtain ⟨-, rfl⟩ := hnothing hm.relations
    exact ht.saved_updated hτ hm hk hr hw hnew hrow hsame hupdate hc₂ hreload
  · exact ht.saved_inserted hτ hm hk hr hw (habsent rfl) hsame hinserted hr₂ hc₂ hreload

/-! ## Order lines -/

theorem plainChild_line : PlainChild Sample.config Sample.lineMap Sample.lineNames (.int 7) where
  field := ⟨⟨0, rfl⟩, by decide +kernel, fun _ => rfl⟩
  keys := rfl
  generated := rfl
  relations := rfl
  reads := ⟨by decide, by decide +kernel, by decide +kernel⟩
  stores := ⟨rfl, .inl ⟨1, _, rfl, Sample.normalize_number 7⟩, rfl, rfl⟩
  present := by decide
  other := by decide

theorem childTable_lines (taken : List Value) :
    ChildTable (Sample.keeping taken) Sample.lineMap Sample.lineNames taken id where
  probe v s d rows hs hq := by
    obtain ⟨hkind, hparams⟩ := TableMap.probe_ok hs
    simp only [Sample.keeping, Sample.lines, hkind, hparams, Except.ok.injEq] at hq ⊢
    subst hq
    exact ⟨trivial, .refl _⟩
  reload v s d rows hk hs hq := by
    obtain ⟨hkind, hparams⟩ := TableMap.selectByKeys_ok hs
    simp only [Sample.keeping, Sample.lines, hkind, hparams, Except.ok.injEq] at hq ⊢
    subst hq
    refine ⟨trivial, fun row hr => ?_⟩
    obtain ⟨hrow, hholds⟩ := List.mem_filter.1 hr
    refine ⟨?_, row, hrow, hholds, rfl⟩
    rw [hk.shape row hrow]
    exact plainChild_line.reads
  delete v s d n hs _ := by
    obtain ⟨hkind, hparams⟩ := TableMap.deleteByKeys_ok hs
    simp only [Sample.keeping, Sample.lines, hkind, hparams]
    exact .refl _
  update r v s d n hv hs _ := by
    obtain ⟨hkind, hparams⟩ := TableMap.update_ok hs
    rw [hv, Sample.updateValues_line] at hparams
    simp only [Sample.keeping, Sample.lines, hkind, hparams]
    exact .refl _
  describe s d columns _ hcolumns := by
    cases hcolumns
    exact ⟨rfl, rfl⟩
  insert r s d rows hs hq := by
    obtain ⟨hkind, hparams⟩ := TableMap.insert_ok hs
    rw [Sample.writeValues_line] at hparams
    simp only [Sample.keeping, Sample.lines, hkind, hparams, List.map_cons, List.map_nil] at hq ⊢
    split at hq
    · cases hq
    · rename_i hfree
      cases hq
      rw [if_neg hfree]
      simp only [Bool.or_eq_true, not_or, Bool.not_eq_true, List.any_eq_false] at hfree
      obtain ⟨⟨hset, htaken⟩, hfresh⟩ := hfree
      refine ⟨_, Sample.nextLine d, .refl _, rfl, rfl, rfl,
        ⟨Sample.normalize_number _, hset, by simp [Sample.nextLine, Value.eqv]⟩,
        fun row hr => hfresh row hr, fun u hu => htaken u hu, ?_⟩
      intro column _ hne u hu
      rw [Sample.writeValues_line] at hu
      have hid : (column == "Id") = false := beq_false_of_ne hne
      rw [Row.get?, Sample.lineRow, List.lookup_cons, hid]
      exact hu

end Session

end RecordGraph
