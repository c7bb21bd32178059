/-
  The caps of selects.

  A select from a table or view is made of fixed words, quoted names and parameter marks.  Each of
  its parts is `Steady`, so that whatever the names are the text is not taken for one with a cap,
  and what is put on it is its only one (`select_capped_once`).  A select that is given as a text
  with a cap is compiled to this text unless the map has an order (`select_capped_raw`).
-/
import RecordGraph.Proofs.Mapping.Calls
import RecordGraph.Proofs.Mapping.Registration
import RecordGraph.Proofs.Sql.Uncapped

namespace RecordGraph

variable {d : Dialect} {f : Fragment}

/-- A name whose quotes end where it does, or a value. -/
def Item.Shut (d : Dialect) : Item → Prop
  | .name s => d.Shut s
  | .value _ => True

instance : (item : Item) → Decidable (item.Shut d)
  | .name s => inferInstanceAs (Decidable (d.Shut s))
  | .value _ => .isTrue trivial

/-! ## Parts of selects -/

theorem Ident.steady (i : Ident) (h : ∀ item ∈ i.parts.map Item.name, item.Shut d) :
    Steady d i.fragment :=
  .joined (by decide) i.parts fun _ hp => .name (h _ (List.mem_map_of_mem hp))

theorem OrderBy.steady (o : OrderBy) (h : ∀ item ∈ o.items, item.Shut d) :
    Steady d o.fragment := by
  have hkey (k : OrderKey) (hk : k ∈ o.keys) : Steady d (keyFragment k) := by
    have hname : Steady d [.name k.field] := .name (h _ (List.mem_map_of_mem hk))
    unfold keyFragment
    split
    · exact hname.append (.text (by decide) .nil)
    · exact hname
  unfold fragment
  split
  · exact .nil
  · exact .text (by decide) (.joined (by decide) o.keys hkey)

theorem Operator.rendered_quiet (op : Operator) (inverted : Bool) :
    Quiet (" " ++ op.rendered inverted).toList := by
  cases op <;> cases inverted <;> decide

theorem Dialect.booleanTest_steady {column : Fragment} (h : Steady d column) (expected : Bool) :
    Steady d (d.booleanTest column expected) := by
  have hopen : Leads 0 1 "coalesce(".toList := .opening (show Quiet "coalesce".toList by decide)
  rw [booleanTest_eq]
  refine .grouped hopen h ?_
  have hfalse : Quiet ",false".toList := by decide
  have hzero : Quiet ",0".toList := by decide
  cases d <;> cases expected
  · exact .closing hfalse (show Quiet "=false".toList by decide)
  · exact .closing hfalse (show Quiet "=true".toList by decide)
  · exact .closing hzero (show Quiet "=0".toList by decide)
  · exact .closing hzero (show Quiet "=1".toList by decide)

theorem Leaf.steady {l : Leaf} (h : l.fragment d = .ok f) (hs : ∀ item ∈ l.items, item.Shut d) :
    Steady d f := by
  obtain ⟨field, op, operand, inverted⟩ := l
  have hstart (hname : d.Shut field) {rest : Fragment} (hrest : Steady d rest) :
      Steady d (.name field :: .text (" " ++ op.rendered inverted) :: rest) :=
    (Steady.name hname).append (.text (op.rendered_quiet inverted) hrest)
  have hvalue (v : Value) : Steady d [.text " ", .bind v] := .text (by decide) (.bind v)
  have hlist (inner : Fragment) (hinner : Steady d inner) :
      Steady d (.text " (" :: (inner ++ [.text ")"])) :=
    .grouped (.opening (show Quiet " ".toList by decide)) hinner Leads.groupEnd
  cases (writes h).2 with
  | isNull => exact hstart (hs _ (.head _)) .nil
  | isTrue => exact d.booleanTest_steady (.name (hs _ (.head _))) _
  | isFalse => exact d.booleanTest_steady (.name (hs _ (.head _))) _
  | @bounds low high =>
    exact hstart (hs _ (.head _)) ((hvalue low).append (.text (by decide) (.bind high)))
  | noValues =>
    cases inverted
    · exact .text (s := "1=0") (by decide) .nil
    · exact .text (s := "1=1") (by decide) .nil
  | values v vs =>
    have hvalues : Steady d (Fragment.joined ", " ((v :: vs).map fun v => [.bind v])) :=
      .joined (by decide) (v :: vs) fun v _ => .bind v
    exact hstart (hs _ (.head _)) (hlist _ hvalues)
  | member v => exact hstart (hs _ (.head _)) (hlist [.bind v] (.bind v))
  | @value op v hop => cases op <;> cases hop <;> exact hstart (hs _ (.head _)) (hvalue v)

namespace Condition

theorem joiner_quiet (c : Condition) : Quiet c.joiner.toList := by
  unfold joiner
  split <;> decide

mutual

/-- A tree is steady if its comparisons are. -/
theorem steady : ∀ (c : Condition) {f : Fragment}, c.fragment d = .ok f →
    (∀ item ∈ c.leaves.flatMap Leaf.items, item.Shut d) → Steady d f
  | .node l b cs, f, h, hs => by
    rw [leaves, List.flatMap_cons, List.forall_mem_append] at hs
    obtain ⟨own, hl, ⟨rfl, rfl⟩ | ⟨below, hb, rfl⟩⟩ := fragment_ok h
    · exact Leaf.steady hl hs.1
    · have hgroup := (Leaf.steady hl hs.1).append (joinedSteady cs hb hs.2)
      rw [← List.append_assoc]
      exact .grouped Leads.group hgroup Leads.groupEnd

theorem joinedSteady : ∀ (cs : List Condition) {f : Fragment}, joinedFragment d cs = .ok f →
    (∀ item ∈ conditionItems cs, item.Shut d) → Steady d f
  | [], f, h, _ => by
    cases h
    exact .nil
  | c :: cs, f, h, hs => by
    rw [conditionItems, leavesOf, List.flatMap_append, List.forall_mem_append] at hs
    obtain ⟨first, others, hc, hcs, rfl⟩ := joinedFragment_cons h
    exact .text c.joiner_quiet ((steady c hc hs.1).append (joinedSteady cs hcs hs.2))

end

theorem allSteady {cs : List Condition} (h : allFragment d cs = .ok f)
    (hs : ∀ item ∈ conditionItems cs, item.Shut d) : Steady d f := by
  cases cs with
  | nil =>
    cases h
    exact .nil
  | cons c cs =>
    rw [conditionItems, leavesOf, List.flatMap_append, List.forall_mem_append] at hs
    obtain ⟨first, hc, h⟩ := result_bind_ok.1 h
    obtain ⟨others, hcs, h⟩ := result_bind_ok.1 h
    cases h
    exact (steady c hc hs.1).append (joinedSteady cs hcs hs.2)

end Condition

theorem whereFragment_steady {cs : List Condition} (h : (Condition.allFragment d cs).isOk = true)
    (hs : ∀ item ∈ conditionItems cs, item.Shut d) :
    ∃ f, whereFragment d cs = .ok f ∧ Steady d f := by
  obtain ⟨f, hf⟩ := eq_of_isOk h
  unfold whereFragment
  split
  · exact ⟨[], rfl, .nil⟩
  · rw [hf]
    exact ⟨_, rfl, .text (by decide) (Condition.allSteady hf hs)⟩

/-! ## The place of a cap -/

namespace Dialect

/-- A select without and with a cap: the cap is at the end, or after the first word. -/
inductive Capped (n : Nat) : Dialect → String → String → Prop
  | atEnd (sql : String) : Capped n postgres sql (sql ++ postgres.capText n)
  | atSelect (rest : String) :
      Capped n sqlServer ("select " ++ rest) ("select " ++ sqlServer.capText n ++ rest)

/-- A select without a cap gets one, and no other after it. -/
theorem capped_applyRowLimit {sql rest : String} {n : Nat} (hsql : sql = "select * from " ++ rest)
    (hclosed : Closed sql.toList) (hlimit : d.hasRowLimit sql.toList = false) (hn : n ≠ 0) :
    d.Capped n sql (d.applyRowLimit sql n) ∧
      d.hasRowLimit (d.applyRowLimit sql n).toList = true := by
  cases d with
  | postgres =>
    rw [applyRowLimit_postgres hn hlimit, String.toList_append]
    exact ⟨.atEnd sql, hasRowLimit_limit hclosed n⟩
  | sqlServer =>
    have hput : sqlServer.applyRowLimit sql n =
        "select " ++ sqlServer.capText n ++ ("* from " ++ rest) := by
      rw [applyRowLimit_sqlServer hn hlimit, hsql, ← String.toList_inj, String.toList_ofList,
        String.toList_append, insertTop_select]
      simp [capText]
    have hselect : "select * from " ++ rest = "select " ++ ("* from " ++ rest) := by
      rw [← String.append_assoc]
      rfl
    have hempty : Closed [] := rfl
    have hfound : sqlServer.hasRowLimit ([] ++ ("select ".toList ++
        ((sqlServer.capText n).toList ++ ("* from " ++ rest).toList))) = true :=
      hasRowLimit_top hempty (.inl rfl) n
    rw [hput, hsql, hselect]
    refine ⟨.atSelect _, ?_⟩
    simpa using hfound

end Dialect

/-! ## Selects -/

namespace TableMap

variable {τ : Type} {m : TableMap τ} {spec : QuerySpec} {variant : Variant}

theorem selectBase_steady [Model τ] {source : Source} (hc : m.Checked) (hv : variant ≠ .count)
    (hn : ∀ text, source ≠ .sql text)
    (hs : ∀ item ∈ Call.sourceItems m variant source, item.Shut d) :
    ∃ f, m.selectBase variant source = .ok (.text "select * from " :: f) ∧ Steady d f := by
  have hwords : selectBase.selectWords variant = "select * from " := if_neg hv
  cases source with
  | sql text => exact absurd rfl (hn text)
  | object ident =>
    rw [selectBase, hwords]
    exact ⟨_, rfl, ident.steady hs⟩
  | map =>
    obtain ⟨ident, hi⟩ := eq_of_isOk (hc.source variant)
    rw [Call.sourceItems, hi] at hs
    rw [selectBase, hi, hwords]
    exact ⟨_, rfl, ident.steady hs⟩

theorem orderFragment_steady {order : OrderBy} (hv : variant ≠ .count)
    (hs : ∀ item ∈ Call.orderItems m variant order, item.Shut d) :
    Steady d (m.orderFragment order) := by
  rw [Call.orderItems, if_neg hv, ← apply_ite OrderBy.items] at hs
  unfold orderFragment
  generalize (if order.keys.isEmpty then m.order else order) = used at hs ⊢
  dsimp only
  split
  · exact .nil
  · exact .text (by decide) (used.steady hs)

/-- A select from names is steady, apart from its cap. -/
theorem select_steady [Model τ] (hc : m.Checked) (hv : variant ≠ .count)
    (hn : (Call.select spec variant).FromNames)
    (hr : (Condition.allFragment d spec.conditions).isOk = true)
    (hs : ∀ item ∈ (Call.select spec variant).items m d, item.Shut d) :
    ∃ f, Steady d f ∧ ∀ n, m.select d { spec with take := n } variant = .ok
      ⟨.select, d.applyRowLimit ("select * from " ++ f.sql d) n, f.params⟩ := by
  rw [Call.items, List.forall_mem_append, List.forall_mem_append] at hs
  obtain ⟨base, hbase, hbs⟩ := selectBase_steady hc hv hn hs.1.1
  obtain ⟨restricted, hrestricted, hrs⟩ := whereFragment_steady hr hs.1.2
  refine ⟨base ++ restricted ++ m.orderFragment spec.order,
    (hbs.append hrs).append (orderFragment_steady hv hs.2), fun n => ?_⟩
  refine result_bind_ok.2 ⟨_, hbase, result_bind_ok.2 ⟨_, hrestricted, ?_⟩⟩
  rw [if_neg hv]
  rfl

/-- The text of a select from names has no cap, whatever the names are.  With a cap it is this
    text and one cap, and stays as it is when another is put on it. -/
theorem select_capped_once [Model τ] {draft : MapDraft τ} {config : Config}
    (hm : draft.finish config = .ok m) (hv : variant ≠ .count)
    (hn : (Call.select spec variant).FromNames)
    (hr : (Condition.allFragment d spec.conditions).isOk = true)
    (hs : ∀ item ∈ (Call.select spec variant).items m d, item.Shut d) :
    ∃ s, m.select d { spec with take := 0 } variant = .ok s ∧
      d.hasRowLimit s.sql.toList = false ∧
      ∀ n, n ≠ 0 → ∃ sql, m.select d { spec with take := n } variant = .ok ⟨s.kind, sql, s.params⟩ ∧
        d.Capped n s.sql sql ∧ ∀ k, d.applyRowLimit sql k = sql := by
  obtain ⟨f, hf, hselect⟩ := select_steady (MapDraft.finish_ok hm) hv hn hr hs
  have hsql : "select * from " ++ f.sql d = Fragment.sql d (.text "select * from " :: f) := rfl
  have hwhole : Steady d (.text "select * from " :: f) := hf.text (by decide)
  have hlimit := hwhole.hasRowLimit
  have hclosed := hwhole.closed
  rw [← hsql] at hlimit hclosed
  have hfree := hselect 0
  rw [Dialect.applyRowLimit_zero] at hfree
  refine ⟨_, hfree, hlimit, fun n hpos => ⟨_, hselect n, ?_⟩⟩
  obtain ⟨hcapped, hfound⟩ := Dialect.capped_applyRowLimit rfl hclosed hlimit hpos
  exact ⟨hcapped, Dialect.applyRowLimit_limited hfound⟩

/-- A select of names that look like caps and open groups. -/
def capNames (n : Nat) : QuerySpec where
  source := .object ⟨["select top (", "a\" limit ["]⟩
  conditions := [.ofLeaf "limit 3 '" .isIn (.list [.int 1, .int 2])]
  order := .none
  take := n

theorem capNames_capped :
    ∃ s, Sample.projectMap.select .sqlServer (capNames 0) .full = .ok s ∧
      s.sql = "select * from [select top (].[a\" limit [] where [limit 3 '] in (@p0, @p1) " ++
        "order by [Title], [Id] desc" ∧
      Dialect.sqlServer.hasRowLimit s.sql.toList = false ∧
      ∀ n, n ≠ 0 → ∃ sql,
        Sample.projectMap.select .sqlServer (capNames n) .full = .ok ⟨s.kind, sql, s.params⟩ ∧
        Dialect.sqlServer.Capped n s.sql sql ∧
        ∀ k, Dialect.sqlServer.applyRowLimit sql k = sql := by
  have hfinish : (MapDraft.ofType Sample.project).finish Sample.config =
      .ok Sample.projectMap := rfl
  have hnames : (Call.select (capNames 0) .full).FromNames := nofun
  have hshut : ∀ item ∈ (Call.select (capNames 0) .full).items Sample.projectMap .sqlServer,
      item.Shut .sqlServer := by decide +kernel
  obtain ⟨s, hs, hlimit, hcapped⟩ := select_capped_once hfinish (by decide) hnames rfl hshut
  refine ⟨s, hs, ?_, hlimit, hcapped⟩
  cases hs
  decide +kernel

/-! ## Selects given as texts -/

theorem params_orderFragment (m : TableMap τ) (order : OrderBy) :
    (m.orderFragment order).params = [] := by
  have hnames (o : OrderBy) : valuesOf o.items = [] := by
    simp [valuesOf, OrderBy.items]
  rw [(orderFragment_continues (d := .postgres) order).params, ← apply_ite OrderBy.items, hnames]

/-- A text with a cap is compiled to itself exactly if the map has no order.  The order of the map
    is put after the cap. -/
theorem select_capped_raw (m : TableMap τ) {raw : String} (hv : variant ≠ .count)
    (hsource : spec.source = .sql raw) (hconditions : spec.conditions = [])
    (horder : spec.order.keys = []) (hraw : d.hasRowLimit raw.toList = true) :
    (m.select d spec variant = .ok (.raw raw []) ↔ m.order.keys = []) ∧
    (m.order.keys ≠ [] → m.select d spec variant =
      .ok (.raw (raw ++ " " ++ m.order.fragment.sql d) [])) := by
  have hselect : m.select d spec variant = .ok (.raw
      (d.applyRowLimit (raw ++ (m.orderFragment spec.order).sql d) spec.take) []) := by
    rw [← params_orderFragment m spec.order, select, hsource, hconditions, selectBase, if_neg hv]
    exact if_neg hv
  by_cases hkeys : m.order.keys = []
  · have hclause : m.orderFragment spec.order = [] := by
      simp [orderFragment, OrderBy.fragment, horder, hkeys]
    rw [hclause, Fragment.sql, Fragment.sqlFrom, String.append_empty,
      Dialect.applyRowLimit_limited hraw] at hselect
    exact ⟨iff_of_true hselect hkeys, fun hne => absurd hkeys hne⟩
  · have hclause : m.orderFragment spec.order = .text " " :: m.order.fragment := by
      simp [orderFragment, OrderBy.fragment, horder, hkeys]
    have htext : raw ++ (m.orderFragment spec.order).sql d =
        raw ++ " " ++ m.order.fragment.sql d := by
      rw [hclause, Fragment.sql, Fragment.sqlFrom, ← String.append_assoc]
      rfl
    have hlimit : d.hasRowLimit (raw ++ " " ++ m.order.fragment.sql d).toList = true := by
      simpa using Dialect.hasRowLimit_space hraw (m.order.fragment.sql d).toList
    rw [htext, Dialect.applyRowLimit_limited hlimit] at hselect
    refine ⟨iff_of_false (fun heq => ?_) hkeys, fun _ => hselect⟩
    rw [hselect] at heq
    have hlength := congrArg String.length (congrArg Statement.sql (Except.ok.inj heq))
    have hspace : " ".length = 1 := rfl
    simp only [Statement.raw, String.length_append] at hlength
    omega

/-- A text with a cap. -/
def firstThree : QuerySpec := ⟨.sql "select * from t limit 3", [], .none, 5⟩

theorem firstThree_lines :
    Dialect.postgres.hasRowLimit "select * from t limit 3".toList = true ∧
    Sample.lineMap.select .postgres firstThree .short =
      .ok (.raw "select * from t limit 3" []) := by
  have hlimit : Dialect.postgres.hasRowLimit "select * from t limit 3".toList = true := by
    decide +kernel
  exact ⟨hlimit, (select_capped_raw Sample.lineMap (by decide) rfl rfl rfl hlimit).1.2 rfl⟩

/-- The rows of projects are ordered after they have been capped. -/
theorem firstThree_projects :
    Dialect.postgres.hasRowLimit "select * from t limit 3".toList = true ∧
    Sample.projectMap.select .postgres firstThree .short =
      .ok (.raw "select * from t limit 3 order by \"Title\", \"Id\" desc" []) := by
  decide +kernel

end TableMap

end RecordGraph
