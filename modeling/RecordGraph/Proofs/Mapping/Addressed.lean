/-
  Updates and deletes change the rows that they address.

  * The statements that write to the rows of a map restrict them by `RowTest`s: one for every key
    field (`keyTests`), or for every field of a filter, where null is a test of its own
    (`filterTests`).
  * The text of such a statement is read in one way only, as a row change, and `writes_addressed`
    says what becomes of the content of any database: in the table of the map the rows that pass
    every test are changed, and nothing else is.
-/
import Mathlib.Data.List.Nodup
import RecordGraph.Proofs.Mapping.Registration
import RecordGraph.Proofs.Sql.RowChanges

namespace RecordGraph

variable {d : Dialect}

/-! ## Addressed rows -/

/-- A row with values in the columns that have been given one. -/
def overwritten {α : Type} (stored : Value → Option α) (value? : String → Option Value)
    (row : String → Option α) : String → Option α :=
  fun column => match value? column with
    | some v => stored v
    | none => row column

section

variable {α : Type} [DecidableEq α] (content : Content α) (table : Ident)
  (stored : Value → Option α) (ts : List RowTest)

/-- The content with values in the rows of a table that pass some tests. -/
def Content.updated (value? : String → Option Value) : Content α :=
  content.alter table fun rows => rows.map fun row =>
    if ts.all (RowTest.passes stored row) then overwritten stored value? row else row

/-- The content without the rows of a table that pass some tests. -/
def Content.deleted : Content α :=
  content.alter table fun rows => rows.filter fun row => !ts.all (RowTest.passes stored row)

end

/-! ## Assignments -/

namespace RowChange

/-- Assignments of values to columns, the first of which is the `k`-th parameter. -/
def sets (k : Nat) (values : List (String × Value)) : List (String × Nat) :=
  (values.map Prod.fst).zipIdx k

theorem text_sets (values : List (String × Value)) (k : Nat) :
    ((Fragment.joined ", " (values.map fun p => [.name p.1, .text " = ", .bind p.2])).sqlFrom d
      (k + 1)).toList = setsText d (sets k values) := by
  induction values generalizing k with
  | nil => rfl
  | cons p values ih =>
    cases values with
    | nil =>
      simp [Fragment.joined, Fragment.sqlFrom, sets, setsText]
    | cons q values =>
      have hrest := ih (k + 1)
      simp only [List.map_cons] at hrest
      simp only [List.map_cons, Fragment.joined, List.cons_append, List.nil_append,
        toList_sqlFrom_name, toList_sqlFrom_text, toList_sqlFrom_bind, hrest]
      rfl

theorem assigned_sets {α : Type} {param : Nat → Option α} {stored : Value → Option α}
    (row : String → Option α) {values : List (String × Value)} {k : Nat}
    (hparam : ∀ j (h : j < values.length), param (k + j) = stored values[j].2) :
    assigned param (sets k values) row =
      overwritten stored (fun column => values.lookup column) row := by
  funext column
  induction values generalizing k with
  | nil => rfl
  | cons p values ih =>
    obtain ⟨c, v⟩ := p
    have hfirst : param k = stored v := hparam 0 (Nat.zero_lt_succ _)
    have hrest := ih (k := k + 1) fun j h => by
      rw [Nat.add_assoc, Nat.add_comm 1 j]
      exact hparam (j + 1) (Nat.succ_lt_succ h)
    simp only [assigned, overwritten, sets, List.map_cons, List.zipIdx_cons,
      List.lookup_cons] at hrest ⊢
    by_cases hc : column = c
    · subst hc
      simpa using hfirst
    · rw [beq_false_of_ne hc]
      exact hrest

end RowChange

/-! ## Statements of row changes -/

/-- A delete from a table with some restriction. -/
def deleteOf (d : Dialect) (table : Ident) (restricted : Fragment) : Statement :=
  .of d .delete (.text "delete from " :: table.fragment ++ .text " where " :: restricted)

/-- An update of columns of a table with some restriction. -/
def updateOf (d : Dialect) (table : Ident) (values : List (String × Value))
    (restricted : Fragment) : Statement :=
  .of d .update (.text "update " :: table.fragment ++ .text " set " ::
    Fragment.joined ", " (values.map fun p => [.name p.1, .text " = ", .bind p.2]) ++
    .text " where " :: restricted)

theorem params_deleteOf (table : Ident) (restricted : Fragment) :
    (deleteOf d table restricted).params = restricted.params := by
  simp [deleteOf, Statement.of]

theorem params_updateOf (table : Ident) (values : List (String × Value)) (restricted : Fragment) :
    (updateOf d table values restricted).params = values.map Prod.snd ++ restricted.params := by
  simp [updateOf, Statement.of, List.flatMap_map, ← List.map_eq_flatMap]

/-- The parameters of a statement, as a database stores them. -/
def Statement.bound {α : Type} (s : Statement) (stored : Value → Option α) (k : Nat) : Option α :=
  (s.params[k]?).bind stored

section

variable {ts : List RowTest} {piece : RowTest → Fragment} (hne : ts ≠ [])
  (hmeans : ∀ t ∈ ts, RowTest.Means d (piece t) t)

/-- The restriction to the rows that pass some tests. -/
def RowTest.restriction (k : Nat) (hne : ts ≠ []) : Restriction d :=
  .all (RowTest.predicates k ts) (RowTest.predicates_ne_nil k hne)

/-- The restriction to the rows that pass some tests holds on those. -/
theorem RowTest.truth_restriction {α : Type} [LinearOrder α] {db : Database α}
    {param : Nat → Option α} {stored : Value → Option α} {row : String → Option α} {k : Nat}
    (hparam : ∀ j, param (k + j) = ((values ts)[j]?).bind stored) :
    (restriction (d := d) k hne).truth db param row = .holds ↔
      ts.all (passes stored row) = true :=
  (Restriction.truth_all _).trans (predicates_hold hparam)

include hmeans in
theorem RowTest.text_restriction (k : Nat) :
    (restriction (d := d) k hne).text =
      ((Fragment.joined " and " (ts.map piece)).sqlFrom d (k + 1)).toList :=
  (Restriction.text_all _).trans (RowTest.text_joined hmeans k).symm

include hmeans in
/-- A delete of the rows that pass some tests. -/
theorem delete_reads (table : Ident) :
    (RowChange.delete (d := d) table (RowTest.restriction 0 hne)).Reads
      (deleteOf d table (Fragment.joined " and " (ts.map piece))).sql := by
  refine RowChange.reads_iff.2 ?_
  change _ = (Fragment.sqlFrom d 1 (.text "delete from " :: (table.fragment ++
    .text " where " :: Fragment.joined " and " (ts.map piece)))).toList
  rw [toList_sqlFrom_text, Fragment.toList_sqlFrom_append, toList_sqlFrom_text,
    Ident.params_fragment, RowChange.text_delete, RowTest.text_restriction hne hmeans]
  rfl

include hmeans in
/-- An update of the rows that pass some tests. -/
theorem update_reads (table : Ident) (values : List (String × Value)) :
    (RowChange.update (d := d) table (RowChange.sets 0 values)
      (RowTest.restriction values.length hne)).Reads
      (updateOf d table values (Fragment.joined " and " (ts.map piece))).sql := by
  have hplaces : (Fragment.joined ", "
      (values.map fun p => [.name p.1, .text " = ", .bind p.2])).params.length = values.length := by
    simp [List.flatMap_map, ← List.map_eq_flatMap]
  refine RowChange.reads_iff.2 ?_
  change _ = (Fragment.sqlFrom d 1 (.text "update " :: (table.fragment ++ .text " set " ::
    Fragment.joined ", " (values.map fun p => [.name p.1, .text " = ", .bind p.2]) ++
    .text " where " :: Fragment.joined " and " (ts.map piece)))).toList
  rw [toList_sqlFrom_text, List.append_assoc, Fragment.toList_sqlFrom_append, List.cons_append,
    toList_sqlFrom_text, Ident.params_fragment, Fragment.toList_sqlFrom_append, hplaces,
    toList_sqlFrom_text, RowChange.text_update, RowTest.text_restriction hne hmeans,
    ← RowChange.text_sets, Nat.add_comm values.length]
  rfl

variable {α : Type} [LinearOrder α] (db : Database α) (stored : Value → Option α)
  (content : Content α) {s : Statement}

/-- A delete takes the rows that pass all tests. -/
theorem delete_run (table : Ident) (hs : s.params = RowTest.values ts) :
    (RowChange.delete (d := d) table (RowTest.restriction 0 hne)).run db (s.bound stored) content =
      some (content.deleted table stored ts) := by
  have hparam : ∀ j, s.bound stored (0 + j) = ((RowTest.values ts)[j]?).bind stored := by
    intro j
    rw [Nat.zero_add, Statement.bound, hs]
  simp only [RowChange.run, RowTest.truth_restriction hne hparam, Bool.decide_eq_true]
  rfl

/-- An update writes its values to the rows that pass all tests. -/
theorem update_run (table : Ident) {values : List (String × Value)}
    (hs : s.params = values.map Prod.snd ++ RowTest.values ts)
    (honce : (values.map Prod.fst).Nodup) :
    (RowChange.update (d := d) table (RowChange.sets 0 values)
      (RowTest.restriction values.length hne)).run db (s.bound stored) content =
      some (content.updated table stored ts fun column => values.lookup column) := by
  have hsets : ∀ j (h : j < values.length), s.bound stored (0 + j) = stored values[j].2 := by
    intro j h
    have hj : j < (values.map Prod.snd).length := by simpa using h
    rw [Nat.zero_add, Statement.bound, hs, List.getElem?_append_left hj,
      List.getElem?_eq_getElem hj, List.getElem_map, Option.bind_some]
  have htests : ∀ j, s.bound stored (values.length + j) =
      ((RowTest.values ts)[j]?).bind stored := by
    intro j
    rw [Statement.bound, hs, List.getElem?_append_right (by simp), List.length_map,
      Nat.add_sub_cancel_left]
  have hcolumns : (RowChange.sets 0 values).map Prod.fst = values.map Prod.fst := by
    simp [RowChange.sets]
  simp only [RowChange.run, hcolumns, honce, if_true, RowChange.assigned_sets _ hsets,
    RowTest.truth_restriction hne htests]
  rfl

/-- An update that writes to a column twice is refused. -/
theorem update_refused {table : Ident} {values : List (String × Value)} {rows : Restriction d}
    {param : Nat → Option α} (h : ¬ (values.map Prod.fst).Nodup) :
    (RowChange.update table (RowChange.sets 0 values) rows).run db param content = none := by
  have hcolumns : (RowChange.sets 0 values).map Prod.fst = values.map Prod.fst := by
    simp [RowChange.sets]
  simp only [RowChange.run, hcolumns, h, if_false]

end

/-! ## Tests of keys and filters -/

/-- A test for a value, as it is written for a key field. -/
def keyPiece (t : RowTest) : Fragment := [.name t.column, .text " = ", .bind (t.value.getD .null)]

/-- A test as it is written for a field of a filter. -/
def filterPiece (t : RowTest) : Fragment :=
  match t.value with
  | some v => [.name t.column, .text " =", .text " ", .bind v]
  | none => [.name t.column, .text " is null"]

theorem text_equal (d : Dialect) (column : String) (k : Nat) :
    (Predicate.compares column (.order .equal) (.one k)).text d =
      (d.quote column).toList ++ (" = ".toList ++ (d.placeholder (k + 1)).toList) := by
  have hword : (Comparator.order .equal).word = " = ".toList := by decide +kernel
  rw [← hword]
  rfl

theorem keyPiece_means (d : Dialect) (column : String) (v : Value) :
    RowTest.Means d (keyPiece ⟨column, some v⟩) ⟨column, some v⟩ where
  text k := by
    rw [keyPiece, toList_sqlFrom_name, toList_sqlFrom_text, toList_sqlFrom_bind]
    rw [Fragment.sqlFrom, String.toList_empty, List.append_nil]
    exact (text_equal d column k).symm
  params := rfl

theorem filterPiece_means (d : Dialect) (t : RowTest) : RowTest.Means d (filterPiece t) t where
  text k := by
    obtain ⟨column, _ | v⟩ := t
    · rw [filterPiece, toList_sqlFrom_name, toList_sqlFrom_text]
      rfl
    · have hword : " = ".toList = " =".toList ++ " ".toList := by decide +kernel
      rw [filterPiece, toList_sqlFrom_name, toList_sqlFrom_text, toList_sqlFrom_text,
        toList_sqlFrom_bind, Fragment.sqlFrom, String.toList_empty, List.append_nil,
        ← List.append_assoc " =".toList, ← hword]
      exact (text_equal d column k).symm
  params := by
    obtain ⟨column, _ | v⟩ := t <;> rfl

/-- The comparisons of a filter, in which null is a test of its own. -/
def filterTests (filter : List (String × Value)) : List RowTest :=
  filter.map fun p => ⟨p.1, if p.2.isNull then none else some p.2⟩

section

variable {field : String} {v : Value} {filter : List (String × Value)}

theorem filterCondition_eq (field : String) (v : Value) : TableMap.filterCondition field v =
    if v.isNull then .node ⟨field, .isNull, .nothing, false⟩ false []
    else .node ⟨field, .equal, .single v, false⟩ false [] := rfl

theorem fragment_leaf (l : Leaf) (orJoined : Bool) :
    (Condition.node l orJoined []).fragment d = l.fragment d := by
  rw [Condition.fragment]
  cases l.fragment d <;> rfl

theorem joiner_filterCondition (field : String) (v : Value) :
    (TableMap.filterCondition field v).joiner = " and " := by
  rw [filterCondition_eq]
  split <;> rfl

theorem fragment_filterCondition (h : field ≠ "") (v : Value) :
    (TableMap.filterCondition field v).fragment d =
      .ok (filterPiece ⟨field, if v.isNull then none else some v⟩) := by
  have hempty : ¬ field.isEmpty = true := by simpa using h
  rw [filterCondition_eq]
  cases hv : v.isNull
  · rw [if_neg nofun, fragment_leaf, Leaf.fragment, if_neg hempty]
    simp only [hv]
    rfl
  · rw [if_pos rfl, fragment_leaf, Leaf.fragment, if_neg hempty]
    rfl

theorem fragment_unnamed (v : Value) :
    (TableMap.filterCondition "" v).fragment d = .error .noField := by
  rw [filterCondition_eq]
  split <;> rfl

/-- A filter whose fields all have names is written as its tests, and any other is not written. -/
theorem joinedFragment_filter (filter : List (String × Value)) :
    Condition.joinedFragment d (filter.map fun p => TableMap.filterCondition p.1 p.2) =
      if ∀ p ∈ filter, p.1 ≠ "" then
        .ok ((filterTests filter).flatMap fun t => .text " and " :: filterPiece t)
      else .error .noField := by
  induction filter with
  | nil => rfl
  | cons p filter ih =>
    obtain ⟨field, v⟩ := p
    rw [List.map_cons, Condition.joinedFragment, ih, joiner_filterCondition]
    by_cases hfield : field = ""
    · subst hfield
      have hsome : ¬ ∀ p ∈ ("", v) :: filter, p.1 ≠ "" := fun h => h ("", v) (.head _) rfl
      rw [fragment_unnamed, if_neg hsome]
      rfl
    · rw [fragment_filterCondition hfield]
      by_cases hrest : ∀ p ∈ filter, p.1 ≠ ""
      · have hall : ∀ p ∈ (field, v) :: filter, p.1 ≠ "" := List.forall_mem_cons.2 ⟨hfield, hrest⟩
        rw [if_pos hrest, if_pos hall]
        rfl
      · rw [if_neg hrest, if_neg fun h => hrest (List.forall_mem_cons.1 h).2]
        rfl

theorem joined_cons (between : String) (f : Fragment) (fs : List Fragment) :
    Fragment.joined between (f :: fs) = f ++ fs.flatMap fun g => .text between :: g := by
  induction fs generalizing f with
  | nil => simp [Fragment.joined]
  | cons g fs ih =>
    rw [Fragment.joined, ih, List.flatMap_cons, List.cons_append]
    exact List.cons_ne_nil g fs

theorem allFragment_filter (hne : filter ≠ []) :
    Condition.allFragment d (filter.map fun p => TableMap.filterCondition p.1 p.2) =
      if ∀ p ∈ filter, p.1 ≠ "" then
        .ok (Fragment.joined " and " ((filterTests filter).map filterPiece))
      else .error .noField := by
  obtain ⟨⟨field, v⟩, filter, rfl⟩ := List.exists_cons_of_ne_nil hne
  rw [List.map_cons, Condition.allFragment, joinedFragment_filter]
  by_cases hfield : field = ""
  · subst hfield
    have hsome : ¬ ∀ p ∈ ("", v) :: filter, p.1 ≠ "" := fun h => h ("", v) (.head _) rfl
    rw [fragment_unnamed, if_neg hsome]
    rfl
  · rw [fragment_filterCondition hfield]
    by_cases hrest : ∀ p ∈ filter, p.1 ≠ ""
    · have hall : ∀ p ∈ (field, v) :: filter, p.1 ≠ "" := List.forall_mem_cons.2 ⟨hfield, hrest⟩
      have htests : filterTests ((field, v) :: filter) =
          ⟨field, if v.isNull then none else some v⟩ :: filterTests filter := rfl
      rw [if_pos hrest, if_pos hall, htests, List.map_cons, joined_cons, List.flatMap_map]
      rfl
    · rw [if_neg hrest, if_neg fun h => hrest (List.forall_mem_cons.1 h).2]
      rfl

/-- What a delete by a filter is restricted to. -/
theorem whereFragment_filter (hne : filter ≠ []) :
    whereFragment d (filter.map fun p => TableMap.filterCondition p.1 p.2) =
      if ∀ p ∈ filter, p.1 ≠ "" then
        .ok (.text " where " :: Fragment.joined " and " ((filterTests filter).map filterPiece))
      else .error Condition.Fault.noField.toError := by
  rw [whereFragment, if_neg (by simpa using hne), allFragment_filter hne]
  split <;> rfl

end

/-! ## Statements of a map -/

namespace TableMap

variable {τ : Type} [Model τ] {m : TableMap τ}

/-- The comparisons of the key fields with some values. -/
def keyTests (m : TableMap τ) (keys : List Value) : List RowTest :=
  (m.keys.zip keys).map fun p => ⟨p.1, some p.2⟩

/-- The value that an update writes to a column: it is one of those given, no key field and not
    read only, and the record has a value for it. -/
def assigned? (m : TableMap τ) (r : Record) (columns : List String) (column : String) :
    Option Value :=
  if column ∈ columns ∧ m.isKey column = false ∧ m.isReadOnly column = false then
    m.writeValue? r column
  else none

theorem lookup_filterMap_names {f : String → Option Value} (columns : List String)
    (column : String) :
    (columns.filterMap fun c => (f c).map fun v => (c, v)).lookup column =
      if column ∈ columns then f column else none := by
  induction columns with
  | nil => rfl
  | cons c columns ih =>
    rw [List.filterMap_cons]
    by_cases hc : column = c
    · subst hc
      rw [if_pos (.head _)]
      cases hf : f column with
      | none =>
        rw [Option.map_none, ih, hf, ite_self]
      | some v => rw [Option.map_some, List.lookup_cons_self]
    · have hmem : column ∈ c :: columns ↔ column ∈ columns := by simp [hc]
      rw [if_congr hmem rfl rfl, ← ih]
      cases f c with
      | none => rfl
      | some v => rw [Option.map_some, List.lookup_cons, beq_false_of_ne hc]

/-- The values of an update are those of the columns that it writes. -/
theorem lookup_updateValues_eq (r : Record) (columns : List String) (column : String) :
    (m.updateValues r columns).lookup column = m.assigned? r columns column := by
  have hvalues : m.updateValues r columns = columns.filterMap fun c =>
      (if m.isKey c = false ∧ m.isReadOnly c = false then m.writeValue? r c else none).map
        fun v => (c, v) := by
    rw [updateValues, writeValues, List.filter_filterMap]
    refine List.filterMap_congr fun c _ => ?_
    cases hk : m.isKey c <;> cases hr : m.isReadOnly c <;> cases hv : m.writeValue? r c <;>
      simp [skipsOnWrite, hk, hr]
  rw [hvalues, lookup_filterMap_names, assigned?, ← ite_and]

/-- No column is written twice unless it is given twice. -/
theorem nodup_updateValues (r : Record) {columns : List String} (h : columns.Nodup) :
    ((m.updateValues r columns).map Prod.fst).Nodup := by
  have hwritten : ((m.writeValues r columns).map Prod.fst).Nodup := by
    rw [writeValues, List.map_filterMap]
    refine h.filterMap fun c c' column hc hc' => ?_
    have hname {c : String} (hc : column ∈ Option.map Prod.fst
        (if m.skipsOnWrite c then none else (m.writeValue? r c).map fun v => (c, v))) :
        c = column := by
      split at hc
      · cases hc
      · cases hv : m.writeValue? r c <;> simp_all
    rw [hname hc, hname hc']
  exact hwritten.sublist (List.filter_sublist.map _)

theorem keyFragment_eq {keys : List Value} (h : keys.length = m.keys.length) :
    m.keyFragment keys = .ok (.joined " and " ((m.keyTests keys).map keyPiece)) := by
  rw [keyFragment, if_pos h, keyTests, List.map_map]
  rfl

omit [Model τ] in
theorem keyTests_means (keys : List Value) :
    ∀ t ∈ m.keyTests keys, RowTest.Means d (keyPiece t) t := by
  intro t ht
  obtain ⟨p, -, rfl⟩ := List.mem_map.1 ht
  exact keyPiece_means d p.1 p.2

omit [Model τ] in
theorem keyTests_ne_nil (hm : m.keys ≠ []) {keys : List Value} (h : keys.length = m.keys.length) :
    m.keyTests keys ≠ [] := by
  obtain ⟨k, ks, hk⟩ := List.exists_cons_of_ne_nil hm
  rw [hk] at h
  cases keys with
  | nil => cases h
  | cons v vs => simp [keyTests, hk]

end TableMap

/-- The text of a statement is read as one row change and as no other, and with the parameters of
    the statement that makes of the content of any database what `f` says.  Unless `once`, it may
    be refused. -/
def Statement.Makes (s : Statement) (d : Dialect) (once : Prop)
    (f : ∀ {α : Type} [DecidableEq α], (Value → Option α) → Content α → Content α) : Prop :=
  ∃ w : RowChange d, w.Reads s.sql ∧
    ∀ {α : Type} [LinearOrder α] (db : Database α) (stored : Value → Option α)
      (content : Content α),
      w.run db (s.bound stored) content = some (f stored content) ∨
        ¬ once ∧ w.run db (s.bound stored) content = none

namespace TableMap

variable {τ : Type} [Model τ] {m : TableMap τ} {table : Ident}

theorem update_makes (ht : m.tableIdent = .ok table) (hkeys : m.keys ≠ []) (r : Record)
    (columns : List String) :
    (m.update d r columns = .ok none ∧ ∀ column, m.assigned? r columns column = none) ∨
    ∃ s, m.update d r columns = .ok (some s) ∧ s.Makes d columns.Nodup fun stored content =>
      content.updated table stored (m.keyTests (m.keyValues r)) (m.assigned? r columns) := by
  have hvalues : (fun column => (m.updateValues r columns).lookup column) =
      m.assigned? r columns := funext (lookup_updateValues_eq r columns)
  by_cases hempty : (m.updateValues r columns).isEmpty
  · refine .inl ⟨if_pos hempty, fun column => ?_⟩
    rw [← hvalues, List.isEmpty_iff.1 hempty]
    rfl
  · have hlength : (m.keyValues r).length = m.keys.length := List.length_map _
    have hmeans : ∀ t ∈ m.keyTests (m.keyValues r), RowTest.Means d (keyPiece t) t :=
      keyTests_means _
    have hne := keyTests_ne_nil hkeys hlength
    have hstatement : m.update d r columns = .ok (some (updateOf d table (m.updateValues r columns)
        (.joined " and " ((m.keyTests (m.keyValues r)).map keyPiece)))) :=
      (if_neg hempty).trans (result_bind_ok.2 ⟨table, ht,
        result_bind_ok.2 ⟨_, keyFragment_eq hlength, rfl⟩⟩)
    refine .inr ⟨_, hstatement, _, update_reads hne hmeans table _, fun db stored content => ?_⟩
    have hparams := params_updateOf (d := d) table (m.updateValues r columns)
      (.joined " and " ((m.keyTests (m.keyValues r)).map keyPiece))
    rw [RowTest.params_joined hmeans] at hparams
    by_cases honce : ((m.updateValues r columns).map Prod.fst).Nodup
    · exact .inl (hvalues ▸ update_run hne db stored content table hparams honce)
    · exact .inr ⟨fun h => honce (nodup_updateValues r h), update_refused db content honce⟩

theorem deleteByKeys_makes (ht : m.tableIdent = .ok table) (hkeys : m.keys ≠ [])
    {keys : List Value} (h : keys.length = m.keys.length) :
    ∃ s, m.deleteByKeys d keys = .ok s ∧ s.Makes d True fun stored content =>
      content.deleted table stored (m.keyTests keys) := by
  have hmeans : ∀ t ∈ m.keyTests keys, RowTest.Means d (keyPiece t) t := keyTests_means keys
  have hne := keyTests_ne_nil hkeys h
  have hstatement : m.deleteByKeys d keys =
      .ok (deleteOf d table (.joined " and " ((m.keyTests keys).map keyPiece))) :=
    result_bind_ok.2 ⟨table, ht, result_bind_ok.2 ⟨_, keyFragment_eq h, rfl⟩⟩
  refine ⟨_, hstatement, _, delete_reads hne hmeans table, fun db stored content =>
    .inl (delete_run hne db stored content table ?_)⟩
  rw [params_deleteOf, RowTest.params_joined hmeans]

theorem deleteWhere_makes (ht : m.tableIdent = .ok table) {filter : List (String × Value)}
    (hne : filter ≠ []) (h : ∀ p ∈ filter, p.1 ≠ "") :
    ∃ s, m.deleteWhere d filter = .ok s ∧ s.Makes d True fun stored content =>
      content.deleted table stored (filterTests filter) := by
  have hmeans : ∀ t ∈ filterTests filter, RowTest.Means d (filterPiece t) t :=
    fun t _ => filterPiece_means d t
  have htests : filterTests filter ≠ [] := by simpa [filterTests] using hne
  have hstatement : m.deleteWhere d filter =
      .ok (deleteOf d table (.joined " and " ((filterTests filter).map filterPiece))) := by
    have hrestricted := whereFragment_filter (d := d) hne
    rw [if_pos h] at hrestricted
    exact (if_neg (by simpa using hne)).trans (result_bind_ok.2 ⟨_, hrestricted,
      result_bind_ok.2 ⟨table, ht, rfl⟩⟩)
  refine ⟨_, hstatement, _, delete_reads htests hmeans table, fun db stored content =>
    .inl (delete_run htests db stored content table ?_)⟩
  rw [params_deleteOf, RowTest.params_joined hmeans]

/-- A statement that writes to the rows of a map which has been finished changes the rows that it
    addresses, and nothing else.  An update writes to the rows whose key fields all equal the keys
    of the record, and there to the columns that are given, no key fields and not read only; it is
    left out if there are none.  A delete takes the rows whose key fields all equal the given keys,
    or whose fields all are as in the given filter.  Keys in a wrong number, a filter without
    fields and one with a nameless field are refused. -/
theorem writes_addressed {draft : MapDraft τ} {config : Config}
    (hfinish : draft.finish config = .ok m) (d : Dialect) :
    ∃ table, m.tableIdent = .ok table ∧
      (∀ (r : Record) (columns : List String),
        (m.update d r columns = .ok none ∧ ∀ column, m.assigned? r columns column = none) ∨
        ∃ s, m.update d r columns = .ok (some s) ∧ s.Makes d columns.Nodup fun stored content =>
          content.updated table stored (m.keyTests (m.keyValues r)) (m.assigned? r columns)) ∧
      (∀ keys : List Value,
        (keys.length ≠ m.keys.length → m.deleteByKeys d keys =
          .error (.keyCardinality (typeName m.owner) m.keys.length keys.length)) ∧
        (keys.length = m.keys.length → ∃ s, m.deleteByKeys d keys = .ok s ∧
          s.Makes d True fun stored content =>
            content.deleted table stored (m.keyTests keys))) ∧
      (m.deleteWhere d [] = .error (unfilteredDelete (typeName m.owner))) ∧
      ∀ filter : List (String × Value), filter ≠ [] →
        ((∃ p ∈ filter, p.1 = "") →
          m.deleteWhere d filter = .error Condition.Fault.noField.toError) ∧
        ((∀ p ∈ filter, p.1 ≠ "") → ∃ s, m.deleteWhere d filter = .ok s ∧
          s.Makes d True fun stored content =>
            content.deleted table stored (filterTests filter)) := by
  obtain ⟨hkeys, htable, -, -⟩ := MapDraft.finish_ok hfinish
  obtain ⟨table, ht⟩ := eq_of_isOk htable
  refine ⟨table, ht, update_makes ht hkeys, fun keys => ⟨fun h => ?_, deleteByKeys_makes ht hkeys⟩,
    rfl, fun filter hne => ⟨fun ⟨p, hp, hname⟩ => ?_, deleteWhere_makes ht hne⟩⟩
  · simp only [deleteByKeys, ht, keyFragment, if_neg h]
    rfl
  · have hrestricted := whereFragment_filter (d := d) hne
    rw [if_neg fun h => h p hp hname] at hrestricted
    have hne' : ¬ filter.isEmpty = true := by simpa using hne
    simp only [deleteWhere, hne', hrestricted]
    rfl

/-- An update of a project, whose key is not written, and a delete by a filter with a null. -/
theorem projects_addressed :
    (MapDraft.ofType Sample.project).finish Sample.config = .ok Sample.projectMap ∧
    (∃ s, Sample.projectMap.update .postgres (Sample.projectOf 7 none) ["Title", "Id"] =
        .ok (some s) ∧
      s.sql = "update \"work\".\"Projects\" set \"Title\" = $1 where \"Id\" = $2" ∧
      s.Makes .postgres (["Title", "Id"].Nodup) fun stored content =>
        content.updated ⟨["work", "Projects"]⟩ stored [⟨"Id", some (.int 7)⟩]
          (Sample.projectMap.assigned? (Sample.projectOf 7 none) ["Title", "Id"])) ∧
    Sample.projectMap.assigned? (Sample.projectOf 7 none) ["Title", "Id"] "Title" =
      some (.text "p") ∧
    Sample.projectMap.assigned? (Sample.projectOf 7 none) ["Title", "Id"] "Id" = none ∧
    ∃ s, Sample.projectMap.deleteWhere .postgres [("Title", .null), ("Id", .int 7)] = .ok s ∧
      s.sql = "delete from \"work\".\"Projects\" where \"Title\" is null and \"Id\" = $1" ∧
      s.Makes .postgres True fun stored content =>
        content.deleted ⟨["work", "Projects"]⟩ stored [⟨"Title", none⟩, ⟨"Id", some (.int 7)⟩] := by
  have hfinish : (MapDraft.ofType Sample.project).finish Sample.config =
      .ok Sample.projectMap := rfl
  obtain ⟨table, ht, hupdate, -, -, hwhere⟩ := writes_addressed hfinish .postgres
  cases ht
  refine ⟨hfinish, ?_, by decide +kernel, by decide +kernel, ?_⟩
  · rcases hupdate (Sample.projectOf 7 none) ["Title", "Id"] with ⟨hnone, -⟩ | ⟨s, hs, hmakes⟩
    · cases hnone
    · cases hs
      exact ⟨_, rfl, by decide +kernel, hmakes⟩
  · obtain ⟨s, hs, hmakes⟩ := (hwhere [("Title", .null), ("Id", .int 7)] nofun).2 (by decide)
    cases hs
    exact ⟨_, rfl, by decide +kernel, hmakes⟩

end TableMap

end RecordGraph
