/-
  The order of columns.

  * `setAt_comm`: two writes to different paths can be exchanged.  They may share nested records,
    which the first of them creates, be it the one or the other.
  * `place_comm`: so can two cells with different targets, for a cell that something is wrong with
    leaves the record alone, whatever is in it.
  * `mapInto_perm`: a lenient mapper makes the same of a row in whatever order its columns are.
-/
import RecordGraph.Proofs.Mapping.Anomalies

namespace RecordGraph

variable {τ : Type} [Model τ] {t : τ} {r r₁ r₂ : Record} {v w : Value} {p q : List String}
  {typeIdAlias : Bool}

/-! ## Exchanging writes -/

/-- A write changes the slot of the first field on its way, and depends on nothing else. -/
theorem setAt_slot {name : String} (h : setAt t r v (name :: p) = .ok (.set r₁)) :
    ∃ access slot s, (fieldsOf t).get? name = some access ∧ access.slot? = some slot ∧
      r₁ = r.setSlot slot s ∧ ∀ r₀ : Record, r₀.slots[slot]? = r.slots[slot]? →
        setAt t r₀ v (name :: p) = .ok (.set (r₀.setSlot slot s)) := by
  by_cases hp : p = []
  · subst hp
    obtain ⟨slot, ft, w, hg, hn, rfl⟩ := setField_eq_some.1 (setAt_single.1 h)
    exact ⟨_, slot, _, hg, rfl, rfl, fun r₀ _ =>
      setAt_single.2 (setField_eq_some.2 ⟨slot, ft, w, hg, hn, rfl⟩)⟩
  · obtain ⟨slot, target, n, hg, hn, rfl⟩ := (setAt_cons hp).1 h
    refine ⟨_, slot, _, hg, rfl, rfl, fun r₀ hr₀ => (setAt_cons hp).2 ⟨slot, target, n, hg, ?_, rfl⟩⟩
    rwa [Record.nested?, hr₀]

/-- Two writes to different paths can be exchanged. -/
theorem setAt_comm (hτ : Model.Sound τ) (hne : p ≠ q) (hp : setAt t r v p = .ok (.set r₁))
    (hq : setAt t r₁ w q = .ok (.set r₂)) :
    ∃ r₃, setAt t r w q = .ok (.set r₃) ∧ setAt t r₃ v p = .ok (.set r₂) := by
  induction p generalizing t r r₁ r₂ q with
  | nil => cases hp
  | cons name rest ih =>
    obtain _ | ⟨name', rest'⟩ := q
    · cases hq
    by_cases hname : name = name'
    · subst hname
      have hrest : rest ≠ rest' := fun heq => hne (by rw [heq])
      have hnil : rest ≠ [] ∧ rest' ≠ [] := by
        -- A field that holds a nested record does not hold a value.
        constructor <;> rintro rfl
        · obtain ⟨slot, ft, _, hg, -⟩ := setField_eq_some.1 (setAt_single.1 hp)
          obtain ⟨slot', target, _, hg', -⟩ := (setAt_cons hrest.symm).1 hq
          rw [hg] at hg'
          cases hg'
        · obtain ⟨slot, ft, _, hg, -⟩ := setField_eq_some.1 (setAt_single.1 hq)
          obtain ⟨slot', target, _, hg', -⟩ := (setAt_cons hrest).1 hp
          rw [hg] at hg'
          cases hg'
      obtain ⟨slot, target, n₁, hg, hn₁, rfl⟩ := (setAt_cons hnil.1).1 hp
      rcases Nat.lt_or_ge slot r.slots.length with hlt | hge
      · obtain ⟨slot', target', n₂, hg', hn₂, rfl⟩ := (setAt_cons hnil.2).1 hq
        rw [hg] at hg'
        cases hg'
        rw [Record.nested_setSlot hlt, Option.getD_some] at hn₂
        obtain ⟨n₃, hn₃, hn₂'⟩ := ih hrest hn₁ hn₂
        refine ⟨_, (setAt_cons hnil.2).2 ⟨slot, target, n₃, hg, hn₃, rfl⟩,
          (setAt_cons hnil.1).2 ⟨slot, target, n₂, hg, ?_, ?_⟩⟩
        · rwa [Record.nested_setSlot hlt, Option.getD_some]
        · rw [Record.setSlot_setSlot, Record.setSlot_setSlot]
      · -- Without such a slot neither write changes anything.
        rw [Record.setSlot_of_le hge] at hp hq
        obtain ⟨slot', target', n₂, hg', -, rfl⟩ := (setAt_cons hnil.2).1 hq
        rw [hg] at hg'
        cases hg'
        rw [Record.setSlot_of_le hge] at hq ⊢
        exact ⟨r, hq, hp⟩
    · obtain ⟨access, slot, s, hg, ha, rfl, hfirst⟩ := setAt_slot hp
      obtain ⟨access', slot', s', hg', ha', rfl, hsecond⟩ := setAt_slot hq
      have hslot : slot ≠ slot' := by
        rintro rfl
        exact (hτ t).apart_get hg hg' hname slot ha ha'
      refine ⟨_, hsecond r (Record.slot_setSlot_ne hslot).symm, ?_⟩
      rw [Record.setSlot_comm hslot]
      exact hfirst _ (Record.slot_setSlot_ne hslot.symm)

/-! ## Exchanging cells -/

/-- The columns go to the same field, or along the same path. -/
def SameTarget (typeIdAlias : Bool) (t : τ) (column column' : String) : Prop :=
  ∃ path ∈ (columnPlan typeIdAlias t column).path?,
    (columnPlan typeIdAlias t column').path? = some path

instance (typeIdAlias : Bool) (t : τ) (column column' : String) :
    Decidable (SameTarget typeIdAlias t column column') :=
  inferInstanceAs (Decidable (∃ path ∈ (columnPlan typeIdAlias t column).path?,
    (columnPlan typeIdAlias t column').path? = some path))

namespace RowMapper

/-- The record with a cell in it, or as it was. -/
def place (typeIdAlias : Bool) (t : τ) (r : Record) (cell : String × Value) : Record :=
  match placeCell t r (columnPlan typeIdAlias t cell.1) cell.2 with
  | .written r' => r'
  | _ => r

theorem filled_eq_foldl (r : Record) (cells : List (String × Value)) :
    filled t r (planned typeIdAlias t cells) = cells.foldl (place typeIdAlias t) r := by
  induction cells generalizing r with
  | nil => rfl
  | cons cell cells ih =>
    unfold planned at ih ⊢
    rw [List.map_cons, filled, List.foldl_cons, place]
    cases placeCell t r (columnPlan typeIdAlias t cell.1) cell.2 <;> exact ih _

variable {x y : String × Value}

theorem place_of_not_fits (h : fits t (columnPlan typeIdAlias t x.1) x.2 = false) (r : Record) :
    place typeIdAlias t r x = r := by
  unfold place
  rcases anomaly_cases t (columnPlan typeIdAlias t x.1) x.2 with
    ⟨hnull, -⟩ | ⟨a, ha, -⟩ | ⟨-, hf⟩
  · rw [placeCell_null hnull]
  · rw [placeCell_anomaly ha]
  · rw [h] at hf
    cases hf

/-- A cell that fits is written to the target of its column. -/
theorem place_of_fits (h : fits t (columnPlan typeIdAlias t x.1) x.2 = true) :
    ∃ path, (columnPlan typeIdAlias t x.1).path? = some path ∧
      ∀ r, setAt t r x.2 path = .ok (.set (place typeIdAlias t r x)) := by
  obtain ⟨path, -, hpath, -⟩ := placeCell_fits h (freshRecord t)
  refine ⟨path, hpath, fun r => ?_⟩
  obtain ⟨path', r', hpath', hset, hplace⟩ := placeCell_fits h r
  rw [hpath] at hpath'
  cases hpath'
  rw [hset, place, hplace]

/-- Two cells with different targets can be exchanged. -/
theorem place_comm (hτ : Model.Sound τ) (h : ¬SameTarget typeIdAlias t x.1 y.1) (r : Record) :
    place typeIdAlias t (place typeIdAlias t r x) y =
      place typeIdAlias t (place typeIdAlias t r y) x := by
  cases hx : fits t (columnPlan typeIdAlias t x.1) x.2 with
  | false => rw [place_of_not_fits hx, place_of_not_fits hx]
  | true =>
    cases hy : fits t (columnPlan typeIdAlias t y.1) y.2 with
    | false => rw [place_of_not_fits hy, place_of_not_fits hy]
    | true =>
      obtain ⟨p, hp, hwritten⟩ := place_of_fits hx
      obtain ⟨q, hq, hwritten'⟩ := place_of_fits hy
      have hne : p ≠ q := fun heq => h ⟨p, hp, by rw [hq, heq]⟩
      obtain ⟨r₃, hfirst, hsecond⟩ := setAt_comm hτ hne (hwritten r) (hwritten' _)
      rw [hwritten' r, Except.ok.injEq, PathWrite.set.injEq] at hfirst
      subst hfirst
      rw [hwritten, Except.ok.injEq, PathWrite.set.injEq] at hsecond
      exact hsecond.symm

/-! ## Rows in another order -/

theorem foldl_place_perm (hτ : Model.Sound τ) {cells cells' : List (String × Value)}
    (hperm : cells.Perm cells')
    (hapart : cells.Pairwise fun x y => ¬SameTarget typeIdAlias t x.1 y.1) (r : Record) :
    cells.foldl (place typeIdAlias t) r = cells'.foldl (place typeIdAlias t) r := by
  let Exchangeable (x y : String × Value) : Prop := ∀ r,
    place typeIdAlias t (place typeIdAlias t r x) y = place typeIdAlias t (place typeIdAlias t r y) x
  have : Std.Symm Exchangeable := ⟨fun _ _ h r => (h r).symm⟩
  have hcomm : cells.Pairwise Exchangeable := hapart.imp (place_comm hτ)
  exact hperm.foldl_eq' (fun x hx y hy => hcomm.forall_of_forall (fun _ _ _ => rfl) hx hy) r

/-- A lenient mapper puts the cells into the record one after the other, and stops at none. -/
theorem Since.mapInto_eq_foldl {m : RowMapper τ} {config : Config} (h : m.Since config t)
    (hlenient : config.strict = false) (r : Record) (row : Row) :
    (m.mapInto r row).2 = ⟨row.cells.foldl (place config.typeIdAlias t) r,
      (anomalies config.typeIdAlias t row.cells).flatMap fun b =>
        (ofConfig config t).report b.1 b.2, none⟩ := by
  have hfill : (m.mapInto r row).2 = _ := (h.mapInto_eq r row).trans
    ((mapping_eq config t r row).trans (fill_lenient rfl hlenient r row.cells))
  have hrecord : (m.mapInto r row).2.record = row.cells.foldl (place config.typeIdAlias t) r := by
    have hnone : (m.mapInto r row).2.failure = none := by rw [hfill]
    rw [h.mapInto_eq, mapping_eq] at hnone ⊢
    exact (fill_eq_filled hnone).trans (filled_eq_foldl r row.cells)
  rw [hfill] at hrecord ⊢
  exact congrArg (Mapped.mk · _ none) hrecord

end RowMapper

end RecordGraph
