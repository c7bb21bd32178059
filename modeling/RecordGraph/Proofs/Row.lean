/-
  Rows of a table with a key.

  `Keyed`: every row has a key of its own.  Taking rows out, overwriting other columns of
  them, and putting in a row with a new key keep a table keyed.
-/
import Mathlib.Data.List.Pairwise
import Mathlib.Data.List.Perm.Basic
import RecordGraph.Proofs.Value.Equality
import RecordGraph.Row
import RecordGraph.Value.Conversion

namespace RecordGraph

/-! ## Rows -/

namespace Row

variable {row : Row} {column : String} {u v : Value} {values : List (String × Value)}

/-- The column has the value. -/
def holds (row : Row) (column : String) (v : Value) : Bool :=
  (row.get? column).any fun u => u.eqv v

theorem holds_of_get (h : row.get? column = some u) : row.holds column v = u.eqv v := by
  rw [holds, h, Option.any_some]

theorem holds_iff : row.holds column v ↔ ∃ u, row.get? column = some u ∧ u.eqv v := by
  simp [holds, Option.any_eq_true]

theorem holds_congr (h : u.eqv v) : row.holds column u = row.holds column v := by
  simp only [holds, Value.eqv_congr_right h]

theorem holds_of_get_eq {a b : Row} (h : a.get? column = b.get? column) :
    a.holds column v = b.holds column v := by rw [holds, holds, h]

/-- Values that are both in one column are equal. -/
theorem eqv_of_holds (hu : row.holds column u) (hv : row.holds column v) : u.eqv v := by
  obtain ⟨x, hx, hxu⟩ := holds_iff.1 hu
  rw [holds_of_get hx] at hv
  exact Value.eqv_trans (by rwa [Value.eqv_comm]) hv

theorem get?_eq_some_of_mem (h : column ∈ row.columns) : ∃ v, row.get? column = some v := by
  obtain ⟨⟨c, v⟩, hmem, rfl⟩ := List.mem_map.1 h
  have hs : (row.cells.lookup c).isSome := by
    rw [Option.isSome_iff_ne_none]
    intro hnone
    exact absurd (List.lookup_eq_none_iff.1 hnone (c, v) hmem) (by simp)
  exact Option.isSome_iff_exists.1 hs

/-- The row with new values in some of its columns. -/
def overwritten (row : Row) (values : List (String × Value)) : Row :=
  ⟨row.cells.map fun cell => (cell.1, (values.lookup cell.1).getD cell.2)⟩

@[simp] theorem columns_overwritten : (row.overwritten values).columns = row.columns := by
  simp [overwritten, columns, Function.comp_def]

theorem get?_overwritten :
    (row.overwritten values).get? column = (row.get? column).map (values.lookup column).getD := by
  unfold overwritten get?
  induction row.cells with
  | nil => rfl
  | cons cell cells ih =>
    obtain ⟨c, v⟩ := cell
    rw [List.map_cons, List.lookup_cons, List.lookup_cons]
    by_cases hc : column = c
    · subst hc; simp
    · rw [beq_false_of_ne hc]
      exact ih

end Row

/-! ## Keyed tables -/

/-- The value may be the key of a row: it is set, it equals itself, and fields of the type
    store it as it is. -/
structure IsKey (ft : FieldType) (v : Value) : Prop where
  stored : ft.normalize v = .ok v
  set : v.isUnsetKey = false
  self : v.eqv v

theorem IsKey.notNull {ft : FieldType} {v : Value} (h : IsKey ft v) : v.isNull = false := by
  have hset := h.set
  cases v <;> first | rfl | cases hset

/-- The rows have the given columns and a key each, no two the same. -/
structure Keyed (key : String) (ft : FieldType) (columns : List String) (rows : List Row) :
    Prop where
  shape : ∀ row ∈ rows, row.columns = columns
  keys : ∀ row ∈ rows, ∃ v, row.get? key = some v ∧ IsKey ft v
  distinct : rows.Pairwise fun a b => Value.optionEqv (a.get? key) (b.get? key) = false

namespace Keyed

variable {key : String} {ft : FieldType} {columns : List String} {rows rows' : List Row}
  {a b row : Row} {v : Value}

theorem perm (h : Keyed key ft columns rows) (hp : rows.Perm rows') :
    Keyed key ft columns rows' where
  shape row hr := h.shape row (hp.mem_iff.2 hr)
  keys row hr := h.keys row (hp.mem_iff.2 hr)
  distinct := (hp.pairwise_iff fun hab => by rwa [Value.optionEqv_comm]).1 h.distinct

theorem filter (h : Keyed key ft columns rows) (p : Row → Bool) :
    Keyed key ft columns (rows.filter p) where
  shape row hr := h.shape row (List.mem_of_mem_filter hr)
  keys row hr := h.keys row (List.mem_of_mem_filter hr)
  distinct := h.distinct.sublist List.filter_sublist

theorem cons (h : Keyed key ft columns rows) (hs : row.columns = columns)
    (hv : row.get? key = some v) (hk : IsKey ft v) (hf : ∀ row ∈ rows, row.holds key v = false) :
    Keyed key ft columns (row :: rows) where
  shape := List.forall_mem_cons.2 ⟨hs, h.shape⟩
  keys := List.forall_mem_cons.2 ⟨⟨v, hv, hk⟩, h.keys⟩
  distinct := by
    refine List.pairwise_cons.2 ⟨fun b hb => ?_, h.distinct⟩
    obtain ⟨u, hu, -⟩ := h.keys b hb
    have hfresh := hf b hb
    rw [Row.holds_of_get hu] at hfresh
    rw [hv, hu, Value.optionEqv, Value.eqv_comm, hfresh]

/-- Rows may change in columns other than the key. -/
theorem map (h : Keyed key ft columns rows) {f : Row → Row}
    (hs : ∀ row, (f row).columns = row.columns) (hk : ∀ row, (f row).get? key = row.get? key) :
    Keyed key ft columns (rows.map f) where
  shape row hr := by
    obtain ⟨a, ha, rfl⟩ := List.mem_map.1 hr
    rw [hs, h.shape a ha]
  keys row hr := by
    obtain ⟨a, ha, rfl⟩ := List.mem_map.1 hr
    rw [hk]
    exact h.keys a ha
  distinct := by
    refine List.pairwise_map.2 (h.distinct.imp fun hab => ?_)
    rwa [hk, hk]

theorem isKey (h : Keyed key ft columns rows) (hr : row ∈ rows) (hv : row.get? key = some v) :
    IsKey ft v := by
  obtain ⟨u, hu, hk⟩ := h.keys row hr
  rw [hv] at hu; cases hu
  exact hk

/-- Two rows with one key are the same row. -/
theorem eq_of_holds (h : Keyed key ft columns rows) (ha : a ∈ rows) (hb : b ∈ rows)
    (hav : a.holds key v) (hbv : b.holds key v) : a = b := by
  by_contra hne
  have hsymm : Std.Symm fun a b : Row => Value.optionEqv (a.get? key) (b.get? key) = false :=
    ⟨fun _ _ hab => by rwa [Value.optionEqv_comm]⟩
  have hd := h.distinct.forall ha hb hne
  obtain ⟨x, hx, hxv⟩ := Row.holds_iff.1 hav
  obtain ⟨y, hy, hyv⟩ := Row.holds_iff.1 hbv
  rw [hx, hy, Value.optionEqv, Value.eqv_congr_left hxv, Value.eqv_comm, hyv] at hd
  cases hd

/-- A keyed table has each row once. -/
theorem nodup (h : Keyed key ft columns rows) : rows.Nodup := by
  refine h.distinct.imp_of_mem fun {a b} ha _ hab heq => ?_
  obtain ⟨v, hv, hk⟩ := h.keys a ha
  rw [← heq, hv, Value.optionEqv, hk.self] at hab
  cases hab

end Keyed

/-! ## Tables of children -/

/-- The columns of a table of children. -/
structure ChildColumns where
  /-- The column with the key, which is also the name of the key field. -/
  key : String
  /-- The type of the key field. -/
  type : FieldType
  /-- All columns, in their order. -/
  all : List String
  /-- The column with the key of the parent. -/
  parent : String

/-- The rows have the columns of the table, and a key each. -/
abbrev ChildColumns.Rows (names : ChildColumns) (rows : List Row) : Prop :=
  Keyed names.key names.type names.all rows

end RecordGraph
