/-
  Children that store the key of their parent.

  A child stores it in the field named after the column, or as the key of the nested record
  that the column refers to; either way a child that points at its parent writes the key
  of the parent to the column.
-/
import RecordGraph.Proofs.Mapping.Statements
import RecordGraph.Proofs.Record.Key
import RecordGraph.Proofs.Session.Relations

namespace RecordGraph

variable {τ : Type} [Model τ] {m : TableMap τ} {r r' : Record} {column key : String}
  {master v : Value} {columns : List String} {ft : FieldType}

/-- The children of the map store the key of their parent under a column, and the column is
    written.  The key equals itself, so that it can be looked for. -/
structure StoresMaster (m : TableMap τ) (column : String) (master : Value) : Prop where
  self : master.eqv master
  field : (∃ slot ft, (fieldsOf m.owner).get? column = some (.stored slot ft) ∧
      ft.normalize master = .ok master) ∨
    (isScalar m.owner column = false ∧ ∃ x ft, FieldName.stem? column = some x ∧
      isNested m.owner x ∧ typeAt m.owner (FieldName.segments (FieldName.keyPath x)) = some ft ∧
      ft.normalize master = .ok master)
  written : m.skipsOnWrite column = false
  direct : m.reference? column = none

namespace Session

theorem attached_keyIn (hτ : Model.Sound τ) {t : τ} (hk : KeyField t key ft) (hne : column ≠ key)
    (h : attached t column master r = .ok r') : keyIn t key r' = keyIn t key r := by
  rcases attached_ok h with hfield | ⟨x, hwrite⟩ | rfl
  · exact hk.setField_ne hτ hne hfield
  · exact hk.setPath_dotted hτ (FieldName.isDotted_keyPath x) hwrite
  · rfl

theorem attached_writeValue (hτ : Model.Sound τ) (hm : StoresMaster m column master)
    (ht : Typed m.owner r) (h : attached m.owner column master r = .ok r') :
    m.writeValue? r' column = some master := by
  obtain ⟨field, hf, h⟩ := result_bind_ok.1 h
  rw [TableMap.writeValue?, hm.direct]
  rcases hm.field with ⟨slot, ft, hs, hn⟩ | ⟨hscalar, x, ft, hx, hnested, hft, hn⟩
  · have hfield : setField m.owner r column master =
        .ok (some (r.setSlot slot (.scalar master))) :=
      setField_eq_some.2 ⟨slot, ft, master, hs, hn, rfl⟩
    rw [hf, Except.ok.injEq] at hfield
    subst hfield
    cases h
    have hlt : slot < r.slots.length := ht.lt ((hτ m.owner).fits_get hs)
    simp only [flatValue, hs, Record.scalar_setSlot hlt]
  · have hflat (r : Record) : flatValue m.owner r column = none := by
      unfold flatValue
      unfold isScalar at hscalar
      split <;> first | rfl | simp_all
    cases field with
    | some r₁ =>
      obtain ⟨slot, ft', w, hs, -⟩ := setField_eq_some.1 hf
      simp [isScalar, hs] at hscalar
    | none =>
      simp only [hx] at h
      obtain ⟨write, hw, h⟩ := result_bind_ok.1 h
      obtain ⟨r₁, hr₁⟩ := setAt_of_typeAt (r := r) hft hn
      rw [setPath, hr₁, Except.ok.injEq] at hw
      subst hw
      cases h
      obtain ⟨ft', w, hft', hn', hv⟩ := fieldValue_setPath hτ ht hr₁
      rw [hft] at hft'; cases hft'
      rw [hn] at hn'; cases hn'
      simp only [hflat, hx, Option.filter_some, hnested, if_true, Option.map_some, hv,
        Option.getD_some]

end Session

end RecordGraph
