/-
  Row mappers and keys: a mapper that reads the key column, and no other, into the key of a
  record makes records with the keys of their rows.
-/
import RecordGraph.Proofs.Mapping.RowMapper
import RecordGraph.Proofs.Record.Key

namespace RecordGraph

variable {τ : Type} [Model τ] {t : τ} {key column : String} {ft : FieldType} {r r' : Record}
  {v : Value} {config : Config}

/-- Rows with the given columns have the key in one of them, and the mapper reads this one
    into the key and no other. -/
structure ReadsKey (config : Config) (t : τ) (key : String) (columns : List String) : Prop where
  nodup : columns.Nodup
  read : columnPlan config.typeIdAlias t key = .field key
  only : ∀ column ∈ columns, columnPlan config.typeIdAlias t column = .field key → column = key

theorem isDotted_of_columnPlan {typeIdAlias : Bool} {path : String}
    (h : columnPlan typeIdAlias t column = .path path) : FieldName.isDotted path := by
  unfold columnPlan at h
  dsimp only at h
  split at h
  · rename_i hd; cases h; exact hd
  · split at h
    · cases h; exact FieldName.isDotted_keyPath _
    · split at h <;> cases h

theorem path_ne_of_columnPlan {typeIdAlias : Bool} {path : List String}
    (hp : columnPlan typeIdAlias t column ≠ .field key)
    (hpath : (columnPlan typeIdAlias t column).path? = some path) : path ≠ [key] := by
  cases hplan : columnPlan typeIdAlias t column with
  | field name =>
    rw [hplan] at hpath
    cases hpath
    rintro ⟨⟩
    exact hp hplan
  | path p =>
    rw [hplan] at hpath
    cases hpath
    exact FieldName.segments_dotted (isDotted_of_columnPlan hplan) key
  | unmapped => rw [hplan] at hpath; cases hpath

theorem placeCell_keyIn (hτ : Model.Sound τ) (hk : KeyField t key ft) {typeIdAlias : Bool}
    (hp : columnPlan typeIdAlias t column ≠ .field key)
    (h : placeCell t r (columnPlan typeIdAlias t column) v = .written r') :
    keyIn t key r' = keyIn t key r := by
  obtain ⟨path, hpath, hset⟩ := setAt_of_placeCell h
  exact hk.setAt_ne hτ (path_ne_of_columnPlan hp hpath) hset

theorem placeCell_key (hk : KeyField t key ft) (hv : ft.normalize v = .ok v)
    (hnull : v.isNull = false) (r : Record) :
    ∃ r', placeCell t r (.field key) v = .written r' ∧ setField t r key v = .ok (some r') := by
  obtain ⟨r', hr'⟩ := hk.setField_of_normalize hv r
  exact ⟨r', placeCell_of_path rfl hnull (setAt_single.2 hr'), hr'⟩

theorem lookup_eq_none_of_notMem {cells : List (String × Value)}
    (h : key ∉ cells.map Prod.fst) : cells.lookup key = none := by
  rw [List.lookup_eq_none_iff]
  intro cell hc
  simp only [bne_iff_ne, ne_eq]
  rintro rfl
  exact h (List.mem_map_of_mem hc)

namespace RowMapper

variable {m : RowMapper τ}

/-- The key of a filled record is the one in the cells, if there is one. -/
theorem filled_key (hτ : Model.Sound τ) (hk : KeyField t key ft) {typeIdAlias : Bool}
    (hkey : columnPlan typeIdAlias t key = .field key) {cells : List (String × Value)}
    (hn : (cells.map Prod.fst).Nodup)
    (honly : ∀ cell ∈ cells, columnPlan typeIdAlias t cell.1 = .field key → cell.1 = key)
    (hv : ∀ v, cells.lookup key = some v → ft.normalize v = .ok v ∧ v.isNull = false)
    (hr : Typed t r) :
    keyIn t key (filled t r (cells.map fun cell => (cell, columnPlan typeIdAlias t cell.1))) =
      (cells.lookup key).getD (keyIn t key r) := by
  induction cells generalizing r with
  | nil => rfl
  | cons cell cells ih =>
    obtain ⟨column, v⟩ := cell
    obtain ⟨hnot, hn⟩ := List.nodup_cons.1 hn
    have honly' := fun cell hc => honly cell (List.mem_cons_of_mem _ hc)
    rw [List.map_cons, filled]
    by_cases hc : column = key
    · subst hc
      have hnone := lookup_eq_none_of_notMem hnot
      obtain ⟨hnorm, hnull⟩ := hv v (List.lookup_cons_self ..)
      obtain ⟨r₁, hplace, hset⟩ := placeCell_key hk hnorm hnull r
      have hself := hk.setField_self hτ hr hset
      rw [hnorm, Except.ok.injEq] at hself
      simp only [hkey, hplace]
      rw [ih hn honly' (fun v hl => by rw [hnone] at hl; cases hl)
        ((setField_written hτ hset).typed hr), hnone, List.lookup_cons_self]
      exact hself.symm
    · have hlookup : ((column, v) :: cells).lookup key = cells.lookup key := by
        rw [List.lookup_cons, beq_false_of_ne (Ne.symm hc)]
      rw [hlookup] at hv ⊢
      have hplan : columnPlan typeIdAlias t column ≠ .field key :=
        fun hp => hc (honly (column, v) (by simp) hp)
      split
      · rename_i r₁ hp
        rw [ih hn honly' hv ((placeCell_written hτ hp).typed hr), placeCell_keyIn hτ hk hplan hp]
      · exact ih hn honly' hv hr

theorem plannedCells_eq (row : Row) : plannedCells config t row =
    row.cells.map fun cell => (cell, columnPlan config.typeIdAlias t cell.1) := by
  rw [plannedCells, Row.columns, List.map_map, ← List.map_prod_left_eq_zip]
  rfl

theorem Of.fill_keyIn (hτ : Model.Sound τ) (hm : m.Of config t) (hk : KeyField t key ft)
    {row : Row} (hc : ReadsKey config t key row.columns) (hget : row.get? key = some v)
    (hv : ft.normalize v = .ok v) (hnull : v.isNull = false) (hr : Typed t r)
    (h : (m.fill r (plannedCells config t row)).failure = none) :
    keyIn t key (m.fill r (plannedCells config t row)).record = v := by
  rw [fill_eq_filled h, hm.owner, plannedCells_eq, filled_key hτ hk hc.read hc.nodup
    (fun cell hmem => hc.only cell.1 (List.mem_map_of_mem hmem)) (fun u hl => ?_) hr]
  · rw [show row.cells.lookup key = some v from hget, Option.getD_some]
  · rw [show row.cells.lookup key = some v from hget, Option.some.injEq] at hl
    rw [← hl]
    exact ⟨hv, hnull⟩

theorem MapsTo.keyIn_eq (hτ : Model.Sound τ) (hk : KeyField t key ft) {row : Row}
    (hc : ReadsKey config t key row.columns) (hget : row.get? key = some v)
    (hv : ft.normalize v = .ok v) (hnull : v.isNull = false) (h : MapsTo config t row r) :
    keyIn t key r = v := by
  obtain ⟨m, hm, rfl, hok⟩ := h
  exact hm.fill_keyIn hτ hk hc hget hv hnull (typed_freshRecord t) hok

end RowMapper

end RecordGraph
