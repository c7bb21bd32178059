/-
  The keys of children that are loaded.

  Besides the column `Id` the column that is named after a type and `Id` stands for the key of a
  record, if the configuration says so, and the last value that the key takes stays.  A row has
  an `OwnId` if no column after the column `Id` takes it away.  `loadRelation_ids`: the children
  of a parent are loaded one from each row, in the order of the rows, and each has the own `Id`
  of its row.
-/
import RecordGraph.Proofs.Mapping.Columns
import RecordGraph.Proofs.Mapping.KeyColumn
import RecordGraph.Proofs.Session.Unchanged

namespace RecordGraph

variable {τ : Type} [Model τ] {t : τ} {r r' : Record} {config : Config} {typeIdAlias : Bool}
  {column : String} {v : Value} {ft : FieldType} {slot : Nat}

/-- The row has the key in a column `Id`, and no later column that stands for `Id` has another
    value that the key takes. -/
def OwnId (config : Config) (t : τ) (ft : FieldType) (row : Row) (id : Value) : Prop :=
  ∃ before v after, row.cells = before ++ ("Id", v) :: after ∧ v.isNull = false ∧
    ft.normalize v = .ok id ∧
    ∀ cell ∈ after, columnName config.typeIdAlias t cell.1 = "Id" →
      cell.2.isNull = true ∨ ∀ w, ft.normalize cell.2 = .ok w → w = id

/-! ## Columns that stand for the key -/

theorem columnPlan_id (hid : (fieldsOf t).get? "Id" = some (.stored slot ft))
    (hname : columnName typeIdAlias t column = "Id") :
    columnPlan typeIdAlias t column = .field "Id" := by
  have hwritable : isWritable t "Id" = true := by simp only [isWritable, hid]
  exact columnPlan_eq_field.2 ⟨hname, rfl, rfl, hwritable⟩

/-- The key of a record stays if a column that stands for it has no other value. -/
theorem placeCell_id (hτ : Model.Sound τ) (hid : (fieldsOf t).get? "Id" = some (.stored slot ft))
    (ht : Typed t r) (hv : columnName typeIdAlias t column = "Id" →
      v.isNull = true ∨ ∀ w, ft.normalize v = .ok w → w = r.scalar slot)
    (h : placeCell t r (columnPlan typeIdAlias t column) v = .written r') :
    r'.scalar slot = r.scalar slot := by
  obtain ⟨path, hp, hset⟩ := setAt_of_placeCell h
  by_cases hname : columnName typeIdAlias t column = "Id"
  · rcases hv hname with hnull | hsame
    · rw [placeCell_null hnull] at h
      cases h
    · rw [columnPlan_id hid hname] at hp
      cases hp
      obtain ⟨slot', ft', w, hid', hn, rfl⟩ := setField_eq_some.1 (setAt_single.1 hset)
      rw [hid] at hid'
      cases hid'
      rw [Record.scalar_setSlot (ht.lt ((hτ t).fits_get hid)), hsame w hn]
  · have hplan : columnPlan typeIdAlias t column ≠ .field "Id" :=
      fun hplan => hname (columnPlan_eq_field.1 hplan).1
    exact scalar_setAt_ne hτ hid (path_ne_of_columnPlan hplan hp) hset

/-! ## Filled records -/

namespace RowMapper

theorem filled_append (t : τ) (r : Record) (cells cells' : List ((String × Value) × ColumnPlan)) :
    filled t r (cells ++ cells') = filled t (filled t r cells) cells' := by
  induction cells generalizing r with
  | nil => rfl
  | cons cell cells ih =>
    obtain ⟨⟨column, v⟩, plan⟩ := cell
    rw [List.cons_append, filled, filled]
    split <;> exact ih _

theorem filled_written (hτ : Model.Sound τ) (t : τ) (r : Record)
    (cells : List ((String × Value) × ColumnPlan)) : Written t r (filled t r cells) := by
  induction cells generalizing r with
  | nil => exact .refl
  | cons cell cells ih =>
    obtain ⟨⟨column, v⟩, plan⟩ := cell
    rw [filled]
    split
    · rename_i r' hp
      exact (placeCell_written hτ hp).trans (ih r')
    · exact ih r

theorem filled_id (hτ : Model.Sound τ) (hid : (fieldsOf t).get? "Id" = some (.stored slot ft))
    {cells : List (String × Value)} (ht : Typed t r)
    (hcells : ∀ cell ∈ cells, columnName typeIdAlias t cell.1 = "Id" →
      cell.2.isNull = true ∨ ∀ w, ft.normalize cell.2 = .ok w → w = r.scalar slot) :
    (filled t r (cells.map fun cell => (cell, columnPlan typeIdAlias t cell.1))).scalar slot =
      r.scalar slot := by
  induction cells generalizing r with
  | nil => rfl
  | cons cell cells ih =>
    obtain ⟨hcell, hcells⟩ := List.forall_mem_cons.1 hcells
    rw [List.map_cons, filled]
    split
    · rename_i r' hp
      have hkept := placeCell_id hτ hid ht hcell hp
      rw [ih ((placeCell_written hτ hp).typed ht) (by rwa [hkept]), hkept]
    · exact ih ht hcells

theorem MapsTo.id_eq (hτ : Model.Sound τ) (hid : (fieldsOf t).get? "Id" = some (.stored slot ft))
    {row : Row} {id : Value} (h : MapsTo config t row r) (hrow : OwnId config t ft row id) :
    fieldValue t r "Id" = some id := by
  obtain ⟨before, v, after, hcells, hnull, hnorm, hafter⟩ := hrow
  rw [h.eq_filled, plannedCells_eq, hcells, List.map_append, filled_append, List.map_cons, filled]
  set r₀ := filled t (freshRecord t)
    (before.map fun cell => (cell, columnPlan config.typeIdAlias t cell.1))
  have ht : Typed t r₀ := (filled_written hτ t _ _).typed (typed_freshRecord t)
  have hname : columnName config.typeIdAlias t "Id" = "Id" := by
    unfold columnName
    split <;> rfl
  have hset : setAt t r₀ v ["Id"] = .ok (.set (r₀.setSlot slot (.scalar id))) :=
    setAt_single.2 (setField_eq_some.2 ⟨slot, ft, id, hid, hnorm, rfl⟩)
  have hplace : placeCell t r₀ (columnPlan config.typeIdAlias t "Id") v =
      .written (r₀.setSlot slot (.scalar id)) :=
    placeCell_of_path (by rw [columnPlan_id hid hname]; rfl) hnull hset
  have hlt : slot < r₀.slots.length := ht.lt ((hτ t).fits_get hid)
  have hscalar : (r₀.setSlot slot (.scalar id)).scalar slot = id := Record.scalar_setSlot hlt id
  have htyped : Typed t (r₀.setSlot slot (.scalar id)) := (setAt_written hτ hset).typed ht
  have hpath : FieldName.segments "Id" = ["Id"] := rfl
  have hflat (r : Record) : fieldValue t r "Id" = some (r.scalar slot) := by
    simp only [fieldValue, hpath, valueAt, flatValue, hid]
  rw [hplace]
  dsimp only
  rw [hflat, filled_id hτ hid htyped (by rwa [hscalar]), hscalar]

end RowMapper

/-! ## Loading -/

namespace Session

variable {δ : Type} [DecidableEq τ] {env : Env δ} {w w' : World τ δ} {m : TableMap τ}
  {rel : Relation τ} {rows : List Row}

/-- The children of a parent are loaded from the rows of the read, one from each, and a child
    has the own `Id` of its row. -/
theorem loadRelation_ids (hτ : Model.Sound τ) (hc : w.catalog.Sound env.config) (hm : m.Of t)
    (hrel : rel ∈ m.relations) (hk : rel.kind = .oneToMany) (hr : Typed t r)
    (hid : (fieldsOf rel.child).get? "Id" = some (.stored slot ft))
    (hrows : relationRows m rel env w r = some rows)
    (h : loadRelation m rel env w r = ⟨.ok (), w', r'⟩) :
    ∃ children, r'.many? rel.slot = some children ∧
      List.Forall₂ (fun row child => ∀ id, OwnId env.config rel.child ft row id →
        fieldValue rel.child child "Id" = some id) rows children := by
  have hto {α : Type} {x : Result α} {a : α} : x.toOption = some a ↔ x = .ok a := by
    cases x <;> simp [Except.toOption]
  simp only [relationRows, bind, Option.bind_eq_some_iff, hto] at hrows
  obtain ⟨master, hmaster, s, hs, hquery⟩ := hrows
  obtain ⟨read, w₁, r₁, hread, h⟩ := bind_ok.1 h
  obtain ⟨s', rows', children, hs', hquery', hmapped, rfl, -, rfl⟩ :=
    readChildren_ok hc hmaster hread
  rw [hs] at hs'; cases hs'
  rw [hquery] at hquery'; cases hquery'
  simp only [hk] at h
  cases h
  have hids (row : Row) (child : Record) (hmaps : RowMapper.MapsTo env.config rel.child row child)
      (id : Value) (hown : OwnId env.config rel.child ft row id) :
      fieldValue rel.child child "Id" = some id := hmaps.id_eq hτ hid hown
  refine ⟨children, ?_, hmapped.imp hids⟩
  rw [Record.many_of_slot (Record.slot_setSlot (hr.lt (hm.shape hτ rel hrel))),
    List.map_snd_zip (by rw [hmapped.length_eq])]

/-- Kids are loaded with their own keys from rows in which the key of the parent comes first. -/
theorem kids_keep_ids :
    let rows : List Row := [⟨[("OddId", .int 1), ("Id", .int 2)]⟩,
      ⟨[("OddId", .int 1), ("Id", .int 3)]⟩]
    let loaded := loadRelation Sample.kidsMap Sample.kidsRelation Sample.scripted
      (Sample.answering [.rows rows]) (Sample.numberedOdd 1)
    loaded.result.isOk = true ∧ ∃ children, loaded.focus.many? 8 = some children ∧
      children.map (fun c => fieldValue Sample.odd c "Id") = [some (.int 2), some (.int 3)] := by
  intro rows loaded
  have hok : loaded.result.isOk = true := by decide +kernel
  have hrows : relationRows Sample.kidsMap Sample.kidsRelation Sample.scripted
      (Sample.answering [.rows rows]) (Sample.numberedOdd 1) = some rows := by decide +kernel
  have hown (i : Int64) : OwnId Sample.config Sample.odd (.plain (.int .i64))
      ⟨[("OddId", .int 1), ("Id", .int i)]⟩ (.int i) :=
    ⟨[("OddId", .int 1)], .int i, [], rfl, rfl, Sample.normalize_number i,
      fun _ hcell => (List.not_mem_nil hcell).elim⟩
  obtain ⟨children, hmany, hids⟩ := loadRelation_ids Sample.sound Catalog.sound_empty
    Sample.kidsMap_of (List.mem_singleton.2 rfl) rfl (Sample.typed_numberedOdd 1) rfl hrows
    (run_of_isOk hok)
  refine ⟨hok, children, hmany, ?_⟩
  obtain ⟨c, cs, hc, hcs, rfl⟩ := List.forall₂_cons_left_iff.1 hids
  obtain ⟨c', cs', hc', hcs', rfl⟩ := List.forall₂_cons_left_iff.1 hcs
  obtain rfl := List.forall₂_nil_left_iff.1 hcs'
  have hfirst : fieldValue Sample.odd c "Id" = some (.int 2) := hc _ (hown 2)
  have hsecond : fieldValue Sample.odd c' "Id" = some (.int 3) := hc' _ (hown 3)
  rw [List.map_cons, List.map_cons, List.map_nil, hfirst, hsecond]

/-- A kid is loaded with the key of its parent if this comes after its own key in the row, since
    the column has the name of the type of the kid too. -/
theorem kid_takes_parent_id :
    let loaded := loadRelation Sample.kidsMap Sample.kidsRelation Sample.scripted
      (Sample.answering [.rows [⟨[("Id", .int 2), ("OddId", .int 1)]⟩]]) (Sample.numberedOdd 1)
    Sample.kids.finish Sample.config = .ok Sample.kidsMap ∧ loaded.result.isOk = true ∧
      (loaded.focus.many? 8).map (List.map fun c => fieldValue Sample.odd c "Id") =
        some [some (.int 1)] :=
  ⟨rfl, by decide +kernel, by decide +kernel⟩

end Session

end RecordGraph
