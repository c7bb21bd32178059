/-
  What the statements of a map bind.

  Names of tables and columns are text, so the parameters of a statement are the values it
  was made for, in their order.
-/
import RecordGraph.Mapping.Statements

namespace RecordGraph

theorem result_bind_ok {ε α β : Type} {x : Except ε α} {f : α → Except ε β} {b : β} :
    (x >>= f) = .ok b ↔ ∃ a, x = .ok a ∧ f a = .ok b := by
  cases x with
  | error e => exact ⟨nofun, nofun⟩
  | ok a =>
    constructor
    · intro h; exact ⟨a, rfl, h⟩
    · rintro ⟨_, ha, h⟩; cases ha; exact h

/-! ## Fragments -/

namespace Fragment

@[simp] theorem params_text (s : String) (f : Fragment) : params (.text s :: f) = f.params := rfl

@[simp] theorem params_name (s : String) (f : Fragment) : params (.name s :: f) = f.params := rfl

@[simp] theorem params_bind (v : Value) (f : Fragment) : params (.bind v :: f) = v :: f.params :=
  rfl

@[simp] theorem params_nil : params [] = [] := rfl

@[simp] theorem params_append (f g : Fragment) : params (f ++ g) = f.params ++ g.params := by
  induction f with
  | nil => rfl
  | cons p f ih => cases p <;> simp [ih]

@[simp] theorem params_joined (between : String) (fs : List Fragment) :
    (joined between fs).params = fs.flatMap params := by
  fun_induction joined between fs with
  | case1 => rfl
  | case2 f => simp
  | case3 f fs h ih => simp [ih]

end Fragment

@[simp] theorem Ident.params_fragment (i : Ident) : i.fragment.params = [] := by
  rw [fragment, Fragment.params_joined, List.flatMap_map]
  simp

namespace TableMap

variable {τ : Type} [Model τ] {m : TableMap τ} {d : Dialect} {s : Statement} {keys : List Value}
  {columns : List String} {r : Record} {spec : RelationSpec} {child : String} {master key : Value}

/-! ## Statements on one row -/

theorem keyFragment_ok {f : Fragment} (h : m.keyFragment keys = .ok f) :
    keys.length = m.keys.length ∧ f.params = keys := by
  unfold keyFragment at h
  split at h
  · rename_i hl
    cases h
    refine ⟨hl, ?_⟩
    rw [Fragment.params_joined, List.flatMap_map]
    simp only [Fragment.params_name, Fragment.params_text, Fragment.params_bind,
      Fragment.params_nil]
    rw [← List.map_eq_flatMap, List.map_snd_zip (by omega)]
  · cases h

theorem deleteByKeys_ok (h : m.deleteByKeys d keys = .ok s) :
    s.kind = .delete ∧ s.params = keys := by
  obtain ⟨table, -, h⟩ := result_bind_ok.1 h
  obtain ⟨f, hk, h⟩ := result_bind_ok.1 h
  cases h
  exact ⟨rfl, by simp [Statement.of, (keyFragment_ok hk).2]⟩

theorem probe_ok (h : m.probe d keys = .ok s) : s.kind = .select ∧ s.params = keys := by
  obtain ⟨table, -, h⟩ := result_bind_ok.1 h
  obtain ⟨f, hk, h⟩ := result_bind_ok.1 h
  cases h
  exact ⟨rfl, by simp [Statement.of, (keyFragment_ok hk).2]⟩

theorem selectByKeys_ok {variant : Variant} (h : m.selectByKeys d variant keys = .ok s) :
    s.kind = .select ∧ s.params = keys := by
  obtain ⟨source, -, h⟩ := result_bind_ok.1 h
  obtain ⟨f, hk, h⟩ := result_bind_ok.1 h
  cases h
  exact ⟨rfl, by simp [Statement.of, (keyFragment_ok hk).2]⟩

omit [Model τ] in
theorem describe_kind (h : m.describe d = .ok s) : s.kind = .describe := by
  obtain ⟨table, -, h⟩ := result_bind_ok.1 h
  cases h
  rfl

/-! ## Writing -/

theorem params_returningFragment {f : Fragment} (h : m.returningFragment d = .ok f) :
    f.params = [] := by
  unfold returningFragment at h
  split at h
  · split at h
    · cases h
    · obtain ⟨column, -, h⟩ := result_bind_ok.1 h
      cases h
      simp
    · cases h
      rfl
  · cases h
    rfl

/-- An insert binds the values of the written columns. -/
theorem insert_ok (h : m.insert d r columns = .ok s) :
    s.kind = .insert ∧ s.params = (m.writeValues r columns).map Prod.snd := by
  obtain ⟨table, -, h⟩ := result_bind_ok.1 h
  obtain ⟨f, hf, h⟩ := result_bind_ok.1 h
  cases h
  refine ⟨rfl, ?_⟩
  simp only [Statement.of, Fragment.params_text, Fragment.params_append, Ident.params_fragment,
    params_returningFragment hf, List.nil_append, List.append_nil]
  split
  · rename_i hempty
    rw [List.isEmpty_iff.1 hempty]
    rfl
  · simp [List.flatMap_map, ← List.map_eq_flatMap]

/-- What an update of a record writes to the columns of its row. -/
def updateValues (m : TableMap τ) (r : Record) (columns : List String) : List (String × Value) :=
  (m.writeValues r columns).filter fun p => !m.isKey p.1

/-- An update binds the values of the written columns, and then the keys. -/
theorem update_ok (h : m.update d r columns = .ok (some s)) : s.kind = .update ∧
    s.params = (m.updateValues r columns).map Prod.snd ++ m.keyValues r := by
  unfold update at h
  dsimp only at h
  split at h
  · cases h
  obtain ⟨table, -, h⟩ := result_bind_ok.1 h
  obtain ⟨f, hf, h⟩ := result_bind_ok.1 h
  cases h
  refine ⟨rfl, ?_⟩
  simp [Statement.of, updateValues, (keyFragment_ok hf).2, List.flatMap_map,
    ← List.map_eq_flatMap]

/-- An update is left out only if no column is written. -/
theorem update_none {d : Dialect} (h : m.update d r columns = .ok none) :
    m.updateValues r columns = [] := by
  unfold update at h
  dsimp only at h
  split at h
  · rename_i hempty
    exact List.isEmpty_iff.1 hempty
  · obtain ⟨table, -, h⟩ := result_bind_ok.1 h
    obtain ⟨f, -, h⟩ := result_bind_ok.1 h
    cases h

/-! ## Written values -/

variable {column : String} {v : Value}

theorem lookup_writeValues (hc : column ∈ columns) (hs : m.skipsOnWrite column = false)
    (hv : m.writeValue? r column = some v) :
    (m.writeValues r columns).lookup column = some v := by
  induction columns with
  | nil => cases hc
  | cons c columns ih =>
    by_cases heq : c = column
    · subst heq
      rw [writeValues, List.filterMap_cons_some (b := (c, v)), List.lookup_cons_self]
      rw [hs, hv]
      rfl
    · have hmem : column ∈ columns := (List.mem_cons.1 hc).resolve_left (Ne.symm heq)
      have hrest := ih hmem
      rw [writeValues, List.filterMap_cons]
      split
      · exact hrest
      · rename_i cell hcell
        split at hcell
        · cases hcell
        · obtain ⟨u, -, rfl⟩ := Option.map_eq_some_iff.1 hcell
          rw [List.lookup_cons, beq_false_of_ne (Ne.symm heq)]
          exact hrest

theorem lookup_filter_names {p : String → Bool} (hp : p column = true)
    (values : List (String × Value)) :
    (values.filter fun e => p e.1).lookup column = values.lookup column := by
  induction values with
  | nil => rfl
  | cons e values ih =>
    obtain ⟨c, u⟩ := e
    rw [List.filter_cons]
    by_cases hc : column = c
    · subst hc
      rw [if_pos hp, List.lookup_cons_self, List.lookup_cons_self]
    · rw [List.lookup_cons, beq_false_of_ne hc]
      by_cases hpc : p c = true
      · rw [if_pos hpc, List.lookup_cons, beq_false_of_ne hc, ih]
      · rw [if_neg hpc, ih]

theorem lookup_updateValues (hc : column ∈ columns) (hs : m.skipsOnWrite column = false)
    (hk : m.isKey column = false) (hv : m.writeValue? r column = some v) :
    (m.updateValues r columns).lookup column = some v := by
  rw [updateValues, lookup_filter_names (p := fun c => !m.isKey c) (by simp [hk])]
  exact lookup_writeValues hc hs hv

theorem lookup_updateValues_key (hk : m.isKey column = true) :
    (m.updateValues r columns).lookup column = none := by
  rw [List.lookup_eq_none_iff]
  intro e he
  have hne := (List.mem_filter.1 he).2
  simp only [bne_iff_ne, ne_eq]
  rintro rfl
  rw [hk] at hne
  cases hne

/-! ## Relations -/

theorem params_of_objectIdent {schema name : String} {f : Fragment}
    (h : ((objectIdent schema name).map Ident.fragment).mapError Ident.Fault.toError = .ok f) :
    f.params = [] := by
  cases hi : objectIdent schema name with
  | error e => rw [hi] at h; cases h
  | ok ident => rw [hi] at h; cases h; exact ident.params_fragment

theorem relationRead_ok (h : m.relationRead d spec master = .ok s) : s.params = [master] := by
  unfold relationRead at h
  dsimp only at h
  split at h
  · obtain ⟨source, hs, h⟩ := result_bind_ok.1 h
    obtain ⟨column, -, h⟩ := result_bind_ok.1 h
    cases h
    simp [Statement.of, params_of_objectIdent hs]
  · obtain ⟨procedure, hs, h⟩ := result_bind_ok.1 h
    cases h
    cases d <;> simp [Statement.of, params_of_objectIdent hs]
  · obtain ⟨function, hs, h⟩ := result_bind_ok.1 h
    cases h
    simp [Statement.of, params_of_objectIdent hs]

/-- Children are read by a select, or by the call of a procedure or function. -/
theorem relationRead_kind (h : m.relationRead d spec master = .ok s) :
    s.kind = .select ∨ s.kind = .procedure := by
  unfold relationRead at h
  dsimp only at h
  split at h
  · obtain ⟨source, -, h⟩ := result_bind_ok.1 h
    obtain ⟨column, -, h⟩ := result_bind_ok.1 h
    cases h
    exact .inl rfl
  · obtain ⟨procedure, -, h⟩ := result_bind_ok.1 h
    cases h
    exact .inr rfl
  · obtain ⟨function, -, h⟩ := result_bind_ok.1 h
    cases h
    exact .inr rfl

theorem linkFragments_ok {table masterColumn childColumn : Fragment}
    (h : m.linkFragments spec child = .ok (table, masterColumn, childColumn)) :
    table.params = [] ∧ masterColumn.params = [] ∧ childColumn.params = [] := by
  obtain ⟨ident, -, h⟩ := result_bind_ok.1 h
  cases ident with
  | none => cases h
  | some ident =>
    obtain ⟨master, -, h⟩ := result_bind_ok.1 h
    obtain ⟨childIdent, -, h⟩ := result_bind_ok.1 h
    cases h
    exact ⟨ident.params_fragment, master.params_fragment, childIdent.params_fragment⟩

theorem linkInsert_ok (h : m.linkInsert d spec child master key = .ok s) :
    s.kind = .insert ∧ s.params = [master, key] := by
  obtain ⟨⟨table, masterColumn, childColumn⟩, hf, h⟩ := result_bind_ok.1 h
  obtain ⟨h₁, h₂, h₃⟩ := linkFragments_ok hf
  cases h
  exact ⟨rfl, by simp [Statement.of, h₁, h₂, h₃]⟩

theorem linkDelete_ok (h : m.linkDelete d spec child master key = .ok s) :
    s.kind = .delete ∧ s.params = [master, key] := by
  obtain ⟨⟨table, masterColumn, childColumn⟩, hf, h⟩ := result_bind_ok.1 h
  obtain ⟨h₁, h₂, h₃⟩ := linkFragments_ok hf
  cases h
  exact ⟨rfl, by simp [Statement.of, h₁, h₂, h₃]⟩

end TableMap

end RecordGraph
