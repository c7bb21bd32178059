/-
  What the update of an unchanged child would have written.

  A child whose fields are the same as those of its stored counterpart is not updated.  Nested
  records are compared by their keys.

  * `TableMap.Compares`: the value of a column is settled by what is compared, a field of the
    record or the key of a nested record.
  * `Changes.unchanged_writes`: the stored record and the new one of an unchanged pair write the
    same columns, and the same value to each that is compared; if all are, the update that is
    skipped is the one the stored record would have had.
  * `Changes.unchanged_retitled`: a reference may lead to another field of a nested record, which
    is not compared.
-/
import RecordGraph.Proofs.Graph.Changes
import RecordGraph.Proofs.Mapping.Masks

namespace RecordGraph

variable {τ : Type} [Model τ] {t target : τ} {m : TableMap τ} {a b o n : Record}
  {name column : String} {path rest : List String} {columns : List String} {access : Access τ}

/-! ## Fields of records that do not differ -/

theorem FieldTable.mem_map_of_get {α : Type} {fields : FieldTable α} {entry : α}
    (h : fields.get? name = some entry) : entry ∈ fields.entries.map Prod.snd := by
  unfold get? at h
  obtain ⟨i, -, hi⟩ := Option.bind_eq_some_iff.1 h
  rw [← List.getElem?_map] at hi
  exact List.mem_of_getElem? hi

theorem same_of_differs (h : differs t a b = false) (hg : (fieldsOf t).get? name = some access) :
    accessDiffers access a b = false := by
  obtain ⟨e, he, rfl⟩ := List.mem_map.1 (FieldTable.mem_map_of_get hg)
  have hsame := List.any_eq_false.1 h e he
  rwa [Bool.not_eq_true] at hsame

theorem Value.optionEqv_getD {x y : Option Value} (h : optionEqv x y) :
    (x.getD .null).eqv (y.getD .null) := by
  cases x with
  | none =>
    cases y with
    | none => rfl
    | some w => cases h
  | some v =>
    cases y with
    | none => cases h
    | some w => exact h

theorem flatValue_same (h : differs t a b = false) (name : String) :
    Value.optionEqv (flatValue t a name) (flatValue t b name) := by
  unfold flatValue
  cases hg : (fieldsOf t).get? name with
  | none => rfl
  | some access =>
    have hsame := same_of_differs h hg
    cases access with
    | stored slot ft => simpa [accessDiffers, Value.optionEqv] using hsame
    | computed get => simpa [accessDiffers, Value.optionEqv] using hsame
    | nested slot target => rfl
    | many slot child => rfl

/-- Of two records that do not differ, both have a nested record or neither, and the keys of
    the nested records are the same. -/
theorem nested_same (h : differs t a b = false) {slot : Nat}
    (hg : (fieldsOf t).get? name = some (.nested slot target)) :
    (a.nested? slot = none ∧ b.nested? slot = none) ∨
      ∃ x y, a.nested? slot = some x ∧ b.nested? slot = some y ∧
        (keyOf target x).eqv (keyOf target y) := by
  have hsame := same_of_differs h hg
  simp only [accessDiffers, Bool.not_eq_false'] at hsame
  cases ha : a.nested? slot with
  | none =>
    cases hb : b.nested? slot with
    | none => exact .inl ⟨rfl, rfl⟩
    | some y => rw [ha, hb] at hsame; cases hsame
  | some x =>
    cases hb : b.nested? slot with
    | none => rw [ha, hb] at hsame; cases hsame
    | some y =>
      rw [ha, hb] at hsame
      exact .inr ⟨x, y, rfl, rfl, hsame⟩

/-! ## Columns that are compared -/

/-- The type of the nested record that a path leads into, and where the path leads there. -/
def inside? (t : τ) : List String → Option (τ × List String)
  | name :: step :: rest =>
    match (fieldsOf t).get? name with
    | some (.nested _ target) => some (target, step :: rest)
    | _ => none
  | _ => none

/-- Records of the type with the same key have the same value at the end of a path. -/
def KeyTells (t : τ) (path : List String) : Prop :=
  ∀ a b, (keyOf t a).eqv (keyOf t b) →
    ((valueAt t a path).getD .null).eqv ((valueAt t b path).getD .null)

/-- The key tells what is in the field that holds it. -/
theorem keyTells_key {slot : Nat} {ft : FieldType}
    (hg : (fieldsOf t).get? name = some (.stored slot ft))
    (hkey : ∀ r, keyOf t r = r.scalar slot) : KeyTells t [name] := by
  intro a b h
  have hread (r : Record) : (valueAt t r [name]).getD .null = keyOf t r := by
    simp only [valueAt, flatValue, hg, hkey, Option.getD_some]
  rwa [hread, hread]

theorem valueAt_same (h : differs t a b = false)
    (hk : ∀ target rest, inside? t path = some (target, rest) → KeyTells target rest) :
    ((valueAt t a path).getD .null).eqv ((valueAt t b path).getD .null) := by
  match path with
  | [] => rfl
  | [name] => exact Value.optionEqv_getD (flatValue_same h name)
  | name :: step :: rest =>
    simp only [valueAt, nestedRecord]
    cases hg : (fieldsOf t).get? name with
    | none => rfl
    | some access =>
      cases access with
      | stored slot ft => rfl
      | computed get => rfl
      | many slot child => rfl
      | nested slot target =>
        have htells : KeyTells target (step :: rest) := hk _ _ (by simp only [inside?, hg])
        rcases nested_same h hg with ⟨ha, hb⟩ | ⟨x, y, ha, hb, hkey⟩
        · simp only [ha, hb]
          rfl
        · simp only [ha, hb]
          exact htells x y hkey

namespace TableMap

/-- Where the value that is written to a column is read from. -/
def writePath? (m : TableMap τ) (column : String) : Option (List String) :=
  match m.reference? column with
  | some path => some (FieldName.segments path)
  | none => sourcePath m.owner column

theorem writeValue_eq_writePath (r : Record) : m.writeValue? r column =
    (m.writePath? column).map fun path => (valueAt m.owner r path).getD .null := by
  unfold writePath?
  cases hr : m.reference? column with
  | none => exact writeValue_eq hr r
  | some path =>
    unfold writeValue?
    simp only [hr]
    rfl

/-- What is written to the column changes only with what is compared: it is read from a field
    of the record, or from inside a nested record where the key of that tells it. -/
def Compares (m : TableMap τ) (column : String) : Prop :=
  ∀ path target rest, m.writePath? column = some path →
    inside? m.owner path = some (target, rest) → KeyTells target rest

theorem compares_scalar (hr : m.reference? column = none) (hs : isScalar m.owner column = true) :
    m.Compares column := by
  intro path target rest hp hin
  rw [writePath?, hr] at hp
  simp only [sourcePath, hs, if_true] at hp
  cases hp
  cases hin

/-- The key of a nested record is compared. -/
theorem compares_path (hp : m.writePath? column = some path)
    (hin : inside? m.owner path = some (target, rest)) (hk : KeyTells target rest) :
    m.Compares column := by
  intro path' target' rest' hp' hin'
  rw [hp] at hp'
  cases hp'
  rw [hin] at hin'
  cases hin'
  exact hk

theorem writeValue_same (h : differs m.owner o n = false) (hc : m.Compares column) :
    Value.optionEqv (m.writeValue? o column) (m.writeValue? n column) := by
  rw [writeValue_eq_writePath, writeValue_eq_writePath]
  cases hp : m.writePath? column with
  | none => rfl
  | some path => exact valueAt_same h fun target rest hin => hc path target rest hp hin

/-! ## Written values -/

/-- Two lists of values for the same columns, with the same value in the given ones. -/
def SameIn (P : String → Prop) (as bs : List (String × Value)) : Prop :=
  List.Forall₂ (fun p q => p.1 = q.1 ∧ (P p.1 → p.2.eqv q.2)) as bs

theorem SameIn.filter {P : String → Prop} {as bs : List (String × Value)} (h : SameIn P as bs)
    (p : String → Bool) : SameIn P (as.filter fun e => p e.1) (bs.filter fun e => p e.1) := by
  induction h with
  | nil => exact .nil
  | @cons e e' as bs hhead _ ih =>
    rw [List.filter_cons, List.filter_cons, ← hhead.1]
    split
    · exact .cons hhead ih
    · exact ih

theorem SameIn.values {P : String → Prop} {as bs : List (String × Value)} (h : SameIn P as bs)
    (hP : ∀ e ∈ as, P e.1) :
    List.Forall₂ (fun v w => v.eqv w = true) (as.map Prod.snd) (bs.map Prod.snd) := by
  induction h with
  | nil => exact .nil
  | @cons e e' as bs hhead _ ih =>
    have hrest := ih fun e he => hP e (List.mem_cons_of_mem _ he)
    exact .cons (hhead.2 (hP e List.mem_cons_self)) hrest

theorem writeValues_same (h : differs m.owner o n = false) (columns : List String) :
    SameIn m.Compares (m.writeValues o columns) (m.writeValues n columns) := by
  induction columns with
  | nil => exact .nil
  | cons column columns ih =>
    rw [writeValues, writeValues, List.filterMap_cons, List.filterMap_cons]
    by_cases hskip : m.skipsOnWrite column = true
    · rw [if_pos hskip, if_pos hskip]
      exact ih
    · rw [if_neg hskip, if_neg hskip]
      have hsome := isSome_writeValue (m := m) o n column
      have hvalue : m.Compares column → _ := writeValue_same h
      cases ho : m.writeValue? o column with
      | none =>
        rw [ho, Option.isSome_none, eq_comm, Option.isSome_eq_false_iff,
          Option.isNone_iff_eq_none] at hsome
        rw [hsome]
        exact ih
      | some v =>
        rw [ho, Option.isSome_some, eq_comm, Option.isSome_iff_exists] at hsome
        obtain ⟨w, hn⟩ := hsome
        rw [hn]
        refine .cons ⟨rfl, fun hc => ?_⟩ ih
        have hvw := hvalue hc
        rwa [ho, hn] at hvw

theorem keyValues_same (h : sameKeys m.owner m.keys o n) :
    List.Forall₂ (fun v w => v.eqv w = true) (m.keyValues o) (m.keyValues n) := by
  have hkeys := List.all_eq_true.1 h
  refine List.forall₂_map_left_iff.2 (List.forall₂_map_right_iff.2 ?_)
  exact List.forall₂_same.2 fun k hk => Value.optionEqv_getD (hkeys k hk)

/-! ## Updates -/

/-- The statements have the same kind and text, and parameters with the same values. -/
def SameStatement (s s' : Statement) : Prop :=
  s.text = s'.text ∧ List.Forall₂ (fun v w => v.eqv w = true) s.params s'.params

/-- Both are the same statement, or there is none, or both fail alike. -/
inductive SameUpdate : Result (Option Statement) → Result (Option Statement) → Prop
  | failed (e : Error) : SameUpdate (.error e) (.error e)
  | nothing : SameUpdate (.ok none) (.ok none)
  | statement {s s' : Statement} : SameStatement s s' → SameUpdate (.ok (some s)) (.ok (some s'))

theorem update_same (d : Dialect) (h : differs m.owner o n = false)
    (hkeys : sameKeys m.owner m.keys o n) (hc : ∀ e ∈ m.updateValues o columns, m.Compares e.1) :
    SameUpdate (m.update d o columns) (m.update d n columns) := by
  have htext : (m.update d o columns).map (Option.map Statement.text) =
      (m.update d n columns).map (Option.map Statement.text) := update_mask o n
  cases ho : m.update d o columns with
  | error e =>
    cases hn : m.update d n columns with
    | error e' =>
      rw [ho, hn] at htext
      cases htext
      exact .failed e
    | ok u => rw [ho, hn] at htext; cases htext
  | ok u =>
    cases hn : m.update d n columns with
    | error e => rw [ho, hn] at htext; cases htext
    | ok u' =>
      rw [ho, hn] at htext
      have htext := Except.ok.inj htext
      cases u with
      | none =>
        cases u' with
        | none => exact .nothing
        | some s' => cases htext
      | some s =>
        cases u' with
        | none => cases htext
        | some s' =>
          refine .statement ⟨Option.some.inj htext, ?_⟩
          obtain ⟨-, hs⟩ := update_ok ho
          obtain ⟨-, hs'⟩ := update_ok hn
          have hvalues : SameIn m.Compares (m.updateValues o columns)
              (m.updateValues n columns) :=
            (writeValues_same h columns).filter fun c => !m.isKey c
          rw [hs, hs']
          exact List.rel_append (hvalues.values hc) (keyValues_same hkeys)

end TableMap

/-! ## Unchanged children -/

namespace Changes

/-- The stored record and the new one of an unchanged pair write the same columns, and the same
    value to each column that is compared.  If all columns of the update are, then the update of
    the new record is that of the stored one. -/
theorem unchanged_writes {old new : List Record} {e : Nat × Nat}
    (he : e ∈ (between m.owner m.keys old new).unchanged) (d : Dialect) (columns : List String) :
    ∃ n o, new[e.1]? = some n ∧ old[e.2]? = some o ∧
      TableMap.SameIn m.Compares (m.writeValues o columns) (m.writeValues n columns) ∧
      ((∀ p ∈ m.updateValues o columns, m.Compares p.1) →
        TableMap.SameUpdate (m.update d o columns) (m.update d n columns)) := by
  rw [unchanged_eq] at he
  obtain ⟨⟨n, o⟩, hp, rfl⟩ := List.mem_map.1 he
  obtain ⟨hn, ho, hsame, hd⟩ := mem_pairsOf hp
  have hkeys := (sameIdentity_iff.1 hsame).2.2
  exact ⟨n.2, o.2, hn, ho, TableMap.writeValues_same hd columns,
    TableMap.update_same d hd hkeys⟩

/-- The title of a task and the key of its project are compared, and a task with other steps
    has the update that is stored. -/
theorem unchanged_task_writes :
    let o := Sample.taskOf 5 1 "t" none
    let n := Sample.taskOf 5 1 "t" (some [Sample.stepOf 0 0])
    (0, 0) ∈ (between Sample.taskMap.owner Sample.taskMap.keys [o] [n]).unchanged ∧
      TableMap.SameUpdate (Sample.taskMap.update .postgres o ["Id", "Title", "ProjectId"])
        (Sample.taskMap.update .postgres n ["Id", "Title", "ProjectId"]) := by
  intro o n
  have he : (0, 0) ∈ (between Sample.taskMap.owner Sample.taskMap.keys [o] [n]).unchanged := by
    decide
  have htitle : Sample.taskMap.Compares "Title" := TableMap.compares_scalar rfl rfl
  have hkey : KeyTells Sample.project ["Id"] := keyTells_key rfl fun _ => rfl
  have hproject : Sample.taskMap.Compares "ProjectId" := TableMap.compares_path rfl rfl hkey
  obtain ⟨_, _, hn, ho, -, hupdate⟩ :=
    unchanged_writes he .postgres ["Id", "Title", "ProjectId"]
  cases hn
  cases ho
  refine ⟨he, hupdate fun p hp => ?_⟩
  have hvalues : Sample.taskMap.updateValues o ["Id", "Title", "ProjectId"] =
      [("Title", .text "t"), ("ProjectId", .int 1)] := rfl
  rw [hvalues, List.mem_cons, List.mem_singleton] at hp
  rcases hp with rfl | rfl
  · exact htitle
  · exact hproject

/-- Tasks that also store the title of their project. -/
def titledTasks : MapDraft Sample :=
  (MapDraft.ofType Sample.task).tellAll [.reference "ProjectTitle" "Project.Title"]

/-- A task of project 1, under the title that the project has there. -/
def titledTask (title : String) : Record :=
  (Sample.taskOf 5 1 "t" none).setSlot 2
    (.nested (some ((Sample.projectOf 1 none).setSlot 1 (.scalar (.text title)))))

/-- The other title of the project is written by an update, and is not compared. -/
theorem unchanged_retitled : ∃ m, titledTasks.finish Sample.config = .ok m ∧
    (0, 0) ∈ (between m.owner m.keys [titledTask "p"] [titledTask "q"]).unchanged ∧
    m.writeValues (titledTask "p") ["ProjectTitle"] = [("ProjectTitle", .text "p")] ∧
    m.writeValues (titledTask "q") ["ProjectTitle"] = [("ProjectTitle", .text "q")] ∧
    (m.update .postgres (titledTask "p") ["ProjectTitle"]).map (Option.map Statement.params) =
      .ok (some [.text "p", .int 5]) ∧
    (m.update .postgres (titledTask "q") ["ProjectTitle"]).map (Option.map Statement.params) =
      .ok (some [.text "q", .int 5]) :=
  ⟨_, rfl, by decide, rfl, rfl, rfl, rfl⟩

end Changes

end RecordGraph
