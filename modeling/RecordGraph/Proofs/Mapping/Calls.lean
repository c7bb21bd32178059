/-
  What the statements of a map name and bind, and where.

  A `Call` is one of the calls that make a statement.  `Call.items` are the names and values that
  the call is about, each value after the name that it is compared with or put into, and in an
  insert in the order of the columns.  `Call.statement_bound` says that the text of the statement
  shows these names, with one parameter mark in the place of each value, counted from one in the
  order of the text, and that the parameters are these values.
-/
import RecordGraph.Proofs.Samples
import RecordGraph.Proofs.Sql.Scanning

namespace RecordGraph

variable {d : Dialect} {n : Nat} {rest : List Char}

/-! ## Names and values of parts -/

/-- The parts of an identifier, if there is one. -/
def namesOf {ε : Type} : Except ε Ident → List Item
  | .ok ident => ident.parts.map .name
  | .error _ => []

/-- Names, each with the value that it is compared with. -/
def comparedItems (names : List String) (values : List Value) : List Item :=
  (names.zip values).flatMap fun (name, v) => [.name name, .value v]

namespace Operand

def values : Operand → List Value
  | nothing => []
  | single v => [v]
  | range low high => [low, high]
  | list vs => vs

end Operand

/-- The column of a comparison and the operands that it binds. -/
def Leaf.items (l : Leaf) : List Item :=
  match l.op, l.operand with
  | .isNull, _ | .isTrue, _ | .isFalse, _ => [.name l.field]
  -- Membership in an empty list is a constant.
  | .isIn, .list [] => []
  | _, operand => .name l.field :: operand.values.map .value

/-- The comparisons of some conditions, each before those below it. -/
def conditionItems (cs : List Condition) : List Item :=
  (Condition.leavesOf cs).flatMap Leaf.items

/-- The columns of an order. -/
def OrderBy.items (o : OrderBy) : List Item := o.keys.map fun k => .name k.field

/-! ## Parts of statements -/

theorem Ident.reads (i : Ident) : Reads d i.fragment (i.parts.map .name) := by
  have hparts := Reads.joined (d := d) "." rfl rfl i.parts fun p _ => Reads.name p
  rwa [← List.map_eq_flatMap] at hparts

theorem OrderBy.reads (o : OrderBy) : Reads d o.fragment o.items := by
  have hkey (k : OrderKey) : Reads d (keyFragment k) [.name k.field] := by
    unfold keyFragment
    split
    · exact (Reads.name k.field).append (.text rfl rfl)
    · exact .name k.field
  have hkeys := Reads.joined ", " rfl rfl o.keys fun k _ => hkey k
  rw [← List.map_eq_flatMap] at hkeys
  unfold fragment items
  split
  · rename_i hempty
    rw [List.isEmpty_iff.1 hempty]
    exact Continues.nil.toReads
  · exact hkeys.lead (passed_of_isLead rfl)

theorem Operator.rendered_continues (op : Operator) (inverted : Bool) :
    Continues d [.text (" " ++ op.rendered inverted)] [] := by
  cases op <;> cases inverted <;> exact .text rfl rfl

/-- A comparison names its column and binds its operands. -/
theorem Leaf.reads {l : Leaf} {f : Fragment} (h : l.fragment d = .ok f) : Reads d f l.items := by
  obtain ⟨field, op, operand, inverted⟩ := l
  have hstart : Reads d [.name field, .text (" " ++ op.rendered inverted)] [.name field] :=
    (Reads.name field).append (op.rendered_continues inverted)
  have htest (expected : Bool) : Reads d (d.booleanTest [.name field] expected) [.name field] := by
    rw [booleanTest_eq]
    refine Reads.lead (passed_of_isLead rfl) ((Reads.name field).append (Continues.text ?_ ?_)) <;>
      cases d <;> cases expected <;> rfl
  have hone (v : Value) : Continues d [.text " ", .bind v] [.value v] := .link rfl rfl (.bind v)
  have hclosed : Continues d [.text ")"] [] := .text rfl rfl
  cases (writes h).2 with
  | isNull => exact hstart
  | isTrue => exact htest _
  | isFalse => exact htest _
  | @bounds low high => exact hstart.append ((hone low).append (.link rfl rfl (.bind high)))
  | noValues =>
    cases inverted
    · exact .text (silent_of_isPlain (s := "1=0") rfl)
    · exact .text (silent_of_isPlain (s := "1=1") rfl)
  | values v vs =>
    have hvalues := Reads.joined (d := d) ", " rfl rfl (v :: vs) fun v _ => Reads.bind v
    rw [← List.map_eq_flatMap] at hvalues
    have hlist := hstart.append (.link (s := " (") rfl rfl (hvalues.append hclosed))
    simpa [Leaf.items, Operand.values] using hlist
  | member v => exact hstart.append (.link (s := " (") rfl rfl ((Reads.bind v).append hclosed))
  | @value op v hop => cases op <;> cases hop <;> exact hstart.append (hone v)

namespace Condition

theorem joiner_lead (c : Condition) : isLead c.joiner = true ∧ opens c.joiner = true := by
  unfold joiner
  split <;> exact ⟨rfl, rfl⟩

mutual

/-- The comparisons of a tree are read in its order. -/
theorem reads : ∀ (c : Condition) {f : Fragment}, c.fragment d = .ok f →
    Reads d f (c.leaves.flatMap Leaf.items)
  | .node l b cs, f, h => by
    obtain ⟨own, hl, ⟨rfl, rfl⟩ | ⟨below, hb, rfl⟩⟩ := fragment_ok h
    · simpa [leaves, leavesOf] using Leaf.reads hl
    · have hbelow := joinedReads cs hb
      have htree := Reads.lead (s := "(") (passed_of_isLead rfl)
        ((Leaf.reads hl).append (hbelow.append (.text (s := ")") rfl rfl)))
      simpa [leaves, conditionItems] using htree

theorem joinedReads : ∀ (cs : List Condition) {f : Fragment}, joinedFragment d cs = .ok f →
    Continues d f (conditionItems cs)
  | [], f, h => by
    cases h
    exact .nil
  | c :: cs, f, h => by
    obtain ⟨first, others, hc, hcs, rfl⟩ := joinedFragment_cons h
    have hrest := (reads c hc).append (joinedReads cs hcs)
    rw [conditionItems, leavesOf, List.flatMap_append]
    exact .link c.joiner_lead.1 c.joiner_lead.2 hrest

end

theorem allReads {cs : List Condition} {f : Fragment} (h : allFragment d cs = .ok f) :
    Reads d f (conditionItems cs) := by
  cases cs with
  | nil =>
    cases h
    exact Continues.nil.toReads
  | cons c cs =>
    obtain ⟨first, hc, h⟩ := result_bind_ok.1 h
    obtain ⟨others, hcs, h⟩ := result_bind_ok.1 h
    cases h
    rw [conditionItems, leavesOf, List.flatMap_append]
    exact (reads c hc).append (joinedReads cs hcs)

end Condition

theorem whereFragment_continues {cs : List Condition} {f : Fragment}
    (h : whereFragment d cs = .ok f) : Continues d f (conditionItems cs) := by
  unfold whereFragment at h
  split at h
  · rename_i hempty
    cases h
    rw [List.isEmpty_iff.1 hempty]
    exact .nil
  · cases hall : Condition.allFragment d cs with
    | error fault => rw [hall] at h; cases h
    | ok g =>
      rw [hall] at h
      cases h
      exact .link rfl rfl (Condition.allReads hall)

theorem conditionItems_filter (filter : List (String × Value)) :
    conditionItems (filter.map fun p => TableMap.filterCondition p.1 p.2) =
      filter.flatMap fun p => if p.2.isNull then [.name p.1] else [.name p.1, .value p.2] := by
  induction filter with
  | nil => rfl
  | cons p filter ih =>
    rw [List.map_cons, conditionItems, Condition.leavesOf, List.flatMap_append, List.flatMap_cons,
      ← ih]
    unfold TableMap.filterCondition
    cases p.2.isNull <;> rfl

/-! ## Caps on rows -/

theorem isPlain_append (s t : String) : isPlain (s ++ t) = (isPlain s && isPlain t) := by
  simp [isPlain]

theorem isPlain_toString (n : Nat) : isPlain (toString n) = true := by
  refine List.all_eq_true.2 fun c hc => ?_
  have hd := isDigit_toString hc
  simp only [isPlainChar, Bool.and_eq_true, bne_iff_ne]
  refine ⟨⟨⟨?_, ?_⟩, ?_⟩, ?_⟩ <;> rintro rfl <;> cases hd

/-- A cap is put after the first word of a select. -/
theorem Dialect.insertTop_select (n : Nat) (cs : List Char) :
    insertTop n ("select * from ".toList ++ cs) =
      ("select top " ++ toString n ++ " * from ").toList ++ cs := by
  have hcut : cutAtFirst "select ".toList (("select * from ".toList ++ cs).map Char.toLower) =
      some ([], "* from ".toList ++ cs.map Char.toLower) := rfl
  unfold insertTop
  rw [hcut]
  simp

/-- A cap adds neither names nor marks to a select. -/
theorem Dialect.scan_applyRowLimit {f : Fragment} {items : List Item} (h : Reads d f items)
    (take : Nat) :
    d.scan (d.applyRowLimit (Fragment.sql d (.text "select * from " :: f)) take) =
      numbered 1 items := by
  unfold applyRowLimit
  split
  · exact (h.lead (passed_of_isLead rfl)).scan_sql
  · cases d with
    | postgres =>
      have hlimit : Continues .postgres [.text (" limit " ++ toString take)] [] := by
        refine .text ?_ ?_
        · rw [isPlain_append, isPlain_toString]
          rfl
        · simp [opens, isBreak, isWordChar]
      have hsql : Fragment.sql .postgres (.text "select * from " :: f) ++ " limit " ++
          toString take = Fragment.sql .postgres
            (.text "select * from " :: (f ++ [.text (" limit " ++ toString take)])) := by
        rw [← String.toList_inj]
        simp [Fragment.sql, Fragment.toList_sqlFrom_append, Fragment.sqlFrom]
      have hcapped := (h.append hlimit).lead (s := "select * from ") (passed_of_isLead rfl)
      rw [List.append_nil] at hcapped
      dsimp only
      rw [hsql]
      exact hcapped.scan_sql
    | sqlServer =>
      have hsql : String.ofList (insertTop take
          (Fragment.sql .sqlServer (.text "select * from " :: f)).toList) =
            Fragment.sql .sqlServer
              (.text ("select top " ++ toString take ++ " * from ") :: f) := by
        rw [← String.toList_inj, String.toList_ofList, Fragment.sql, Fragment.sql,
          toList_sqlFrom_text, insertTop_select, toList_sqlFrom_text]
      have hlead : isLead ("select top " ++ toString take ++ " * from ") = true := by
        rw [isLead, isPlain_append, isPlain_append, isPlain_toString, String.toList_append,
          List.getLast?_append]
        rfl
      dsimp only
      rw [hsql]
      exact (h.lead (passed_of_isLead hlead)).scan_sql

/-! ## Calls -/

/-- A call that makes a statement. -/
inductive Call where
  | select (spec : QuerySpec) (variant : Variant)
  | selectByKeys (variant : Variant) (keys : List Value)
  | probe (keys : List Value)
  | describe
  | insert (r : Record) (columns : List String)
  | update (r : Record) (columns : List String)
  | deleteByKeys (keys : List Value)
  | deleteWhere (filter : List (String × Value))
  | relationRead (spec : RelationSpec) (master : Value)
  | linkInsert (spec : RelationSpec) (childType : String) (master child : Value)
  | linkDelete (spec : RelationSpec) (childType : String) (master child : Value)

namespace Call

variable {τ : Type} [Model τ]

/-- The statement that a call makes; an update may need none. -/
def statement (m : TableMap τ) (d : Dialect) : Call → Result (Option Statement)
  | select spec variant => (m.select d spec variant).map some
  | selectByKeys variant keys => (m.selectByKeys d variant keys).map some
  | probe keys => (m.probe d keys).map some
  | describe => (m.describe d).map some
  | insert r columns => (m.insert d r columns).map some
  | update r columns => m.update d r columns
  | deleteByKeys keys => (m.deleteByKeys d keys).map some
  | deleteWhere filter => (m.deleteWhere d filter).map some
  | relationRead spec master => (m.relationRead d spec master).map some
  | linkInsert spec childType master child => (m.linkInsert d spec childType master child).map some
  | linkDelete spec childType master child => (m.linkDelete d spec childType master child).map some

/-- What a select reads from. -/
def sourceItems (m : TableMap τ) (variant : Variant) : Source → List Item
  | .map => namesOf (m.source variant)
  | .object ident => ident.parts.map .name
  | .sql _ => []

/-- The order of a select that is no count: its own, or else that of the map. -/
def orderItems (m : TableMap τ) (variant : Variant) (order : OrderBy) : List Item :=
  if variant = .count then []
  else if order.keys.isEmpty then m.order.items else order.items

/-- The key that an insert gives back by its name. -/
def returnedItems (m : TableMap τ) : Dialect → List Item
  | .postgres => if m.generatedKey then m.keys.head?.toList.map .name else []
  | .sqlServer => []

/-- What the children of a parent are read by. -/
def readItems (m : TableMap τ) (spec : RelationSpec) (master : Value) : List Item :=
  match spec.readCommand (typeName m.owner) with
  | .source name =>
    namesOf (objectIdent m.schema name) ++
      [.name (spec.masterColumn (typeName m.owner)), .value master]
  | .procedure name | .function name => namesOf (objectIdent m.schema name) ++ [.value master]

/-- The link table of a relation. -/
def linkItems (m : TableMap τ) (spec : RelationSpec) : List Item :=
  match m.writeTable spec with
  | .ok (some ident) => ident.parts.map .name
  | _ => []

/-- The names and values of a call, in the order of the text of its statement. -/
def items (m : TableMap τ) (d : Dialect) : Call → List Item
  | select spec variant =>
    sourceItems m variant spec.source ++ conditionItems spec.conditions ++
      orderItems m variant spec.order
  | selectByKeys variant keys => namesOf (m.source variant) ++ comparedItems m.keys keys
  | probe keys => namesOf m.tableIdent ++ comparedItems m.keys keys
  | describe => namesOf m.tableIdent
  | insert r columns =>
    let values := m.writeValues r columns
    namesOf m.tableIdent ++ (values.map fun p => .name p.1) ++ (values.map fun p => .value p.2) ++
      returnedItems m d
  | update r columns =>
    let values := m.updateValues r columns
    namesOf m.tableIdent ++ (values.flatMap fun p => [.name p.1, .value p.2]) ++
      comparedItems m.keys (m.keyValues r)
  | deleteByKeys keys => namesOf m.tableIdent ++ comparedItems m.keys keys
  | deleteWhere filter =>
    namesOf m.tableIdent ++
      filter.flatMap fun p => if p.2.isNull then [.name p.1] else [.name p.1, .value p.2]
  | relationRead spec master => readItems m spec master
  | linkInsert spec childType master child =>
    linkItems m spec ++ [.name (spec.masterColumn (typeName m.owner)),
      .name (spec.childColumn childType), .value master, .value child]
  | linkDelete spec childType master child =>
    linkItems m spec ++ [.name (spec.masterColumn (typeName m.owner)), .value master,
      .name (spec.childColumn childType), .value child]

/-- The statement is made from names, not from a whole select. -/
def FromNames : Call → Prop
  | select spec _ => ∀ text, spec.source ≠ .sql text
  | _ => True

end Call

/-! ## Statements and their items -/

/-- The text of the statement shows the items, the values as its parameters. -/
structure Statement.Shows (d : Dialect) (s : Statement) (items : List Item) : Prop where
  scan : d.scan s.sql = numbered 1 items
  params : s.params = valuesOf items

theorem Reads.shows {f : Fragment} {items : List Item} (h : Reads d f items)
    (kind : StatementKind) : (Statement.of d kind f).Shows d items :=
  ⟨h.scan_sql, h.params⟩

theorem Reads.fragment_append {i : Ident} {g : Fragment} {items : List Item}
    (hg : Continues d g items) : Reads d (i.fragment ++ g) (i.parts.map .name ++ items) :=
  i.reads.append hg

/-- A name in an assignment or comparison. -/
theorem Reads.compared (name : String) (v : Value) :
    Reads d [.name name, .text " = ", .bind v] [.name name, .value v] :=
  (Reads.name name).append (.link (s := " = ") rfl rfl (.bind v))

theorem Ident.column_ok {name : String} {i : Ident}
    (h : (column name).mapError Fault.toError = .ok i) : i = ⟨[name]⟩ := by
  unfold column at h
  cases hc : checkPart name with
  | error e => rw [hc] at h; cases h
  | ok u => rw [hc] at h; cases h; rfl

theorem Ident.fragment_single (name : String) : Ident.fragment ⟨[name]⟩ = [.name name] := rfl

/-- The name of a parameter that is made from a type name is no mark. -/
theorem passed_parameterName {name : String} (h : ∀ c ∈ name.toList, isWordChar c = true) :
    Passed .sqlServer (" @" ++ name ++ "Id = ").toList := by
  intro rest
  have hsplit : (" @" ++ name ++ "Id = ").toList ++ rest =
      ' ' :: ('@' :: (name.toList ++ ['I', 'd']) ++ (" = ".toList ++ rest)) := by simp
  have hletters : ∀ c ∈ name.toList ++ ['I', 'd'], isWordChar c = true := by
    rw [List.forall_mem_append]
    exact ⟨h, List.all_eq_true.1 (by decide)⟩
  have hmark : Dialect.sqlServer.markOf? ('@' :: (name.toList ++ ['I', 'd'])) = none := by
    have hd : 'd' ∈ name.toList ++ ['I', 'd'] := by simp
    unfold Dialect.markOf?
    split
    · rename_i heq
      cases heq
    · rename_i digits _ heq
      rw [(List.cons.inj heq).2] at hd
      have hmem : 'd' ∈ digits := (List.mem_cons.1 hd).resolve_left (by decide)
      have hall : digits.all Char.isDigit = false :=
        List.all_eq_false.2 ⟨'d', hmem, by decide⟩
      rw [numberOf?, hall]
      simp
    · rfl
  rw [hsplit, Dialect.scan_break rfl rfl,
    Dialect.scan_letters rfl (by decide) hletters (breaks_of_opens (s := " = ") rfl), hmark,
    passed_of_isLead (s := " = ") rfl]
  rfl

namespace TableMap

variable {τ : Type} [Model τ] {m : TableMap τ} {s : Statement} {keys : List Value}
  {columns : List String} {r : Record} {spec : RelationSpec} {child : String} {master key : Value}

omit [Model τ] in
theorem namesOf_tableIdent {i : Ident} (h : m.tableIdent = .ok i) :
    namesOf m.tableIdent = i.parts.map .name := by
  rw [h]
  rfl

/-! ## Selects -/

omit [Model τ] in
theorem selectBase_reads {variant : Variant} {source : Source} {f : Fragment}
    (hn : ∀ text, source ≠ .sql text) (h : m.selectBase variant source = .ok f) :
    ∃ g, f = .text (selectBase.selectWords variant) :: g ∧
      Reads d g (Call.sourceItems m variant source) := by
  cases source with
  | sql text => exact absurd rfl (hn text)
  | object ident => cases h; exact ⟨_, rfl, ident.reads⟩
  | map =>
    obtain ⟨ident, hi, h⟩ := result_bind_ok.1 h
    cases h
    refine ⟨_, rfl, ?_⟩
    rw [Call.sourceItems, hi]
    exact ident.reads

omit [Model τ] in
theorem orderFragment_continues (order : OrderBy) : Continues d (m.orderFragment order)
    (if order.keys.isEmpty then m.order.items else order.items) := by
  rw [← apply_ite OrderBy.items]
  unfold orderFragment
  generalize (if order.keys.isEmpty then m.order else order) = used
  have horder := used.reads (d := d)
  dsimp only
  split
  · rename_i hempty
    rw [List.isEmpty_iff.1 hempty] at horder
    exact ⟨horder, fun _ _ hr => hr⟩
  · exact .link (s := " ") rfl rfl horder

omit [Model τ] in
theorem select_shows {query : QuerySpec} {variant : Variant}
    (hn : ∀ text, query.source ≠ .sql text) (h : m.select d query variant = .ok s) :
    s.Shows d (Call.sourceItems m variant query.source ++ conditionItems query.conditions ++
      Call.orderItems m variant query.order) := by
  obtain ⟨base, hb, h⟩ := result_bind_ok.1 h
  obtain ⟨restricted, hw, h⟩ := result_bind_ok.1 h
  obtain ⟨source, rfl, hsource⟩ := selectBase_reads (d := d) hn hb
  have hrows := hsource.append (whereFragment_continues hw)
  have hordered := hrows.append (orderFragment_continues query.order (m := m))
  cases variant with
  | count =>
    cases h
    rw [Call.orderItems, if_pos rfl, List.append_nil]
    exact (hrows.lead (passed_of_isLead (s := "select count(*) from ") rfl)).shows .count
  | short =>
    cases h
    exact ⟨Dialect.scan_applyRowLimit hordered query.take, hordered.params⟩
  | full =>
    cases h
    exact ⟨Dialect.scan_applyRowLimit hordered query.take, hordered.params⟩

omit [Model τ] in
theorem describe_shows (h : m.describe d = .ok s) : s.Shows d (namesOf m.tableIdent) := by
  obtain ⟨table, ht, h⟩ := result_bind_ok.1 h
  cases h
  have hnone : Continues d [.text " where 1=0"] [] := .text rfl rfl
  have hreads := (Reads.fragment_append (i := table) hnone).lead
    (passed_of_isLead (s := "select * from ") rfl)
  rw [namesOf_tableIdent ht, ← List.append_nil (table.parts.map _)]
  exact hreads.shows _

/-! ## Statements on one row -/

theorem keyFragment_reads {f : Fragment} (h : m.keyFragment keys = .ok f) :
    Reads d f (comparedItems m.keys keys) := by
  unfold keyFragment at h
  split at h
  · cases h
    exact .joined " and " rfl rfl _ fun p _ => Reads.compared p.1 p.2
  · cases h

/-- A statement on the row of a table with the given keys. -/
def keyed (m : TableMap τ) (d : Dialect) (kind : StatementKind) (command : String)
    (table : Result Ident) (keys : List Value) : Result Statement := do
  let i ← table
  let restricted ← m.keyFragment keys
  return .of d kind (.text command :: i.fragment ++ .text " where " :: restricted)

theorem selectByKeys_eq (variant : Variant) : m.selectByKeys d variant keys =
    m.keyed d .select "select * from " (m.source variant) keys := rfl

theorem probe_eq : m.probe d keys = m.keyed d .select "select * from " m.tableIdent keys := rfl

theorem deleteByKeys_eq :
    m.deleteByKeys d keys = m.keyed d .delete "delete from " m.tableIdent keys := rfl

theorem keyed_shows {kind : StatementKind} {command : String} {table : Result Ident}
    (hc : isLead command = true) (h : m.keyed d kind command table keys = .ok s) :
    s.Shows d (namesOf table ++ comparedItems m.keys keys) := by
  obtain ⟨i, htable, h⟩ := result_bind_ok.1 h
  obtain ⟨f, hf, h⟩ := result_bind_ok.1 h
  cases h
  have hrow := Continues.link (d := d) (s := " where ") rfl rfl (keyFragment_reads hf)
  rw [htable]
  exact ((Reads.fragment_append hrow).lead (passed_of_isLead hc)).shows kind

/-! ## Writing -/

theorem returningFragment_continues {f : Fragment} (h : m.returningFragment d = .ok f) :
    Continues d f (Call.returnedItems m d) := by
  unfold returningFragment at h
  split at h
  · rename_i hg
    split at h
    · cases h
    · rename_i key keys hk
      obtain ⟨column, hc, h⟩ := result_bind_ok.1 h
      cases h
      rw [Ident.column_ok hc, Call.returnedItems, if_pos hg, hk]
      exact .link rfl rfl (.name key)
    · cases h
      exact .text rfl rfl
  · rename_i hg
    cases h
    cases d with
    | postgres => rw [Call.returnedItems, if_neg hg]; exact .nil
    | sqlServer => exact .nil

theorem insert_shows (h : m.insert d r columns = .ok s) :
    s.Shows d (namesOf m.tableIdent ++ ((m.writeValues r columns).map fun p => .name p.1) ++
      ((m.writeValues r columns).map fun p => .value p.2) ++ Call.returnedItems m d) := by
  obtain ⟨table, ht, h⟩ := result_bind_ok.1 h
  obtain ⟨f, hf, h⟩ := result_bind_ok.1 h
  cases h
  generalize m.writeValues r columns = values
  have hbody : Continues d (if values.isEmpty then [.text " default values"] else
      .text " (" :: Fragment.joined ", " (values.map fun p => [.name p.1]) ++
        .text ") values (" :: Fragment.joined ", " (values.map fun p => [.bind p.2]) ++
        [.text ")"])
      ((values.map fun p => .name p.1) ++ values.map fun p => .value p.2) := by
    split
    · rename_i hempty
      rw [List.isEmpty_iff.1 hempty]
      exact .text rfl rfl
    · have hnames := Reads.joined (d := d) ", " rfl rfl values fun p _ => Reads.name p.1
      have hvalues := Reads.joined (d := d) ", " rfl rfl values fun p _ => Reads.bind p.2
      rw [← List.map_eq_flatMap] at hnames hvalues
      have hclosed : Continues d [.text ")"] [] := .text rfl rfl
      have hlists := Continues.link (s := " (") rfl rfl
        (hnames.append (.link (s := ") values (") rfl rfl (hvalues.append hclosed)))
      simpa using hlists
  have hreads := (Reads.fragment_append (i := table)
    (hbody.append (returningFragment_continues hf))).lead
      (passed_of_isLead (s := "insert into ") rfl)
  rw [namesOf_tableIdent ht]
  simpa using hreads.shows .insert

theorem update_shows (h : m.update d r columns = .ok (some s)) :
    s.Shows d (namesOf m.tableIdent ++
      ((m.updateValues r columns).flatMap fun p => [.name p.1, .value p.2]) ++
      comparedItems m.keys (m.keyValues r)) := by
  unfold update at h
  dsimp only at h
  split at h
  · cases h
  obtain ⟨table, ht, h⟩ := result_bind_ok.1 h
  obtain ⟨f, hf, h⟩ := result_bind_ok.1 h
  cases h
  have hsets := Reads.joined (d := d) ", " rfl rfl (m.updateValues r columns) fun p _ =>
    Reads.compared p.1 p.2
  have hrow := Continues.link (s := " where ") rfl rfl (keyFragment_reads (d := d) hf)
  have hreads := (Reads.fragment_append (i := table)
    (.link (s := " set ") rfl rfl (hsets.append hrow))).lead
      (passed_of_isLead (s := "update ") rfl)
  rw [namesOf_tableIdent ht]
  simpa [updateValues] using hreads.shows .update

theorem deleteWhere_shows {filter : List (String × Value)} (h : m.deleteWhere d filter = .ok s) :
    s.Shows d (namesOf m.tableIdent ++
      filter.flatMap fun p => if p.2.isNull then [.name p.1] else [.name p.1, .value p.2]) := by
  unfold deleteWhere at h
  split at h
  · cases h
  obtain ⟨restricted, hw, h⟩ := result_bind_ok.1 h
  obtain ⟨table, ht, h⟩ := result_bind_ok.1 h
  cases h
  rw [namesOf_tableIdent ht, ← conditionItems_filter]
  have hreads := (Reads.fragment_append (i := table) (whereFragment_continues hw)).lead
    (passed_of_isLead (s := "delete from ") rfl)
  exact hreads.shows _

/-! ## Relations -/

theorem relationRead_shows (hp : ∀ c ∈ (typeName m.owner).toList, isWordChar c = true)
    (h : m.relationRead d spec master = .ok s) : s.Shows d (Call.readItems m spec master) := by
  have hread : ∀ {name : String} {f : Fragment},
      ((objectIdent m.schema name).map Ident.fragment).mapError Ident.Fault.toError = .ok f →
        Reads d f (namesOf (objectIdent m.schema name)) := by
    intro name f hf
    cases hi : objectIdent m.schema name with
    | error e => rw [hi] at hf; cases hf
    | ok ident => rw [hi] at hf; cases hf; exact ident.reads
  have hargument : Continues d [.text "(", .bind master, .text ")"] [.value master] :=
    .link (s := "(") rfl rfl ((Reads.bind master).append (.text (s := ")") rfl rfl))
  have hcalled {f : Fragment} {items : List Item} (hf : Reads d f items) :=
    ((hf.append hargument).lead (passed_of_isLead (s := "select * from ") rfl)).shows .procedure
  unfold relationRead at h
  dsimp only at h
  unfold Call.readItems
  generalize spec.readCommand (typeName m.owner) = command at h ⊢
  cases command with
  | source name =>
    obtain ⟨source, hs, h⟩ := result_bind_ok.1 h
    obtain ⟨column, hc, h⟩ := result_bind_ok.1 h
    cases h
    have hrow := Continues.link (s := " where ") rfl rfl
      (Reads.compared (d := d) (spec.masterColumn (typeName m.owner)) master)
    have hreads := ((hread hs).append hrow).lead (passed_of_isLead (s := "select * from ") rfl)
    rw [Ident.column_ok hc]
    simpa [Ident.fragment_single] using hreads.shows .select
  | procedure name =>
    obtain ⟨procedure, hs, h⟩ := result_bind_ok.1 h
    cases h
    cases d with
    | postgres => exact hcalled (hread hs)
    | sqlServer =>
      have hnamed : Continues .sqlServer
          [.text (" @" ++ typeName m.owner ++ "Id = "), .bind master] [.value master] := {
        toReads := .lead (passed_parameterName hp) (.bind master)
        breaks n rest _ := by
          rw [toList_sqlFrom_text, List.append_assoc]
          exact breaks_of_opens (by simp [opens, isBreak, isWordChar]) }
      have hreads := ((hread hs).append hnamed).lead (passed_of_isLead (s := "exec ") rfl)
      exact hreads.shows .procedure
  | function name =>
    obtain ⟨function, hs, h⟩ := result_bind_ok.1 h
    cases h
    exact hcalled (hread hs)

/-- The parts of the statements on a link table. -/
theorem linkFragments_eq {table masterColumn childColumn : Fragment}
    (h : m.linkFragments spec child = .ok (table, masterColumn, childColumn)) :
    Reads d table (Call.linkItems m spec) ∧
    masterColumn = [.name (spec.masterColumn (typeName m.owner))] ∧
    childColumn = [.name (spec.childColumn child)] := by
  obtain ⟨ident, hw, h⟩ := result_bind_ok.1 h
  cases ident with
  | none => cases h
  | some ident =>
    obtain ⟨master, hm, h⟩ := result_bind_ok.1 h
    obtain ⟨childIdent, hc, h⟩ := result_bind_ok.1 h
    cases h
    rw [Ident.column_ok hm, Ident.column_ok hc, Call.linkItems, hw]
    exact ⟨ident.reads, rfl, rfl⟩

theorem linkInsert_shows (h : m.linkInsert d spec child master key = .ok s) :
    s.Shows d (Call.linkItems m spec ++ [.name (spec.masterColumn (typeName m.owner)),
      .name (spec.childColumn child), .value master, .value key]) := by
  obtain ⟨⟨table, masterColumn, childColumn⟩, hf, h⟩ := result_bind_ok.1 h
  obtain ⟨htable, rfl, rfl⟩ := linkFragments_eq (d := d) hf
  cases h
  have hclosed : Continues d [.text ")"] [] := .text rfl rfl
  have hkeys := Continues.link (s := ") values (") rfl rfl ((Reads.bind (d := d) master).append
    (.link (s := ", ") rfl rfl ((Reads.bind key).append hclosed)))
  have hlists := Continues.link (s := " (") rfl rfl
    ((Reads.name (spec.masterColumn (typeName m.owner))).append
      (.link (s := ", ") rfl rfl ((Reads.name (spec.childColumn child)).append hkeys)))
  have hreads := (htable.append hlists).lead (passed_of_isLead (s := "insert into ") rfl)
  simpa using hreads.shows .insert

theorem linkDelete_shows (h : m.linkDelete d spec child master key = .ok s) :
    s.Shows d (Call.linkItems m spec ++ [.name (spec.masterColumn (typeName m.owner)),
      .value master, .name (spec.childColumn child), .value key]) := by
  obtain ⟨⟨table, masterColumn, childColumn⟩, hf, h⟩ := result_bind_ok.1 h
  obtain ⟨htable, rfl, rfl⟩ := linkFragments_eq (d := d) hf
  cases h
  have hrow := Continues.link (d := d) (s := " where ") rfl rfl
    ((Reads.compared (spec.masterColumn (typeName m.owner)) master).append
      (.link (s := " and ") rfl rfl (Reads.compared (spec.childColumn child) key)))
  have hreads := (htable.append hrow).lead (passed_of_isLead (s := "delete from ") rfl)
  simpa using hreads.shows .delete

end TableMap

namespace Call

variable {τ : Type} [Model τ] {m : TableMap τ} {call : Call} {s : Statement}

theorem map_some_ok {α : Type} {x : Result α} {a : α} (h : x.map some = .ok (some a)) :
    x = .ok a := by
  cases x with
  | error e => cases h
  | ok b => cases h; rfl

theorem statement_shows (hn : call.FromNames)
    (hp : ∀ c ∈ (typeName m.owner).toList, isWordChar c = true)
    (h : call.statement m d = .ok (some s)) : s.Shows d (call.items m d) := by
  cases call with
  | select query variant => exact TableMap.select_shows hn (map_some_ok h)
  | selectByKeys variant keys =>
    rw [statement, TableMap.selectByKeys_eq] at h
    exact TableMap.keyed_shows rfl (map_some_ok h)
  | probe keys =>
    rw [statement, TableMap.probe_eq] at h
    exact TableMap.keyed_shows rfl (map_some_ok h)
  | describe => exact TableMap.describe_shows (map_some_ok h)
  | insert r columns => exact TableMap.insert_shows (map_some_ok h)
  | update r columns => exact TableMap.update_shows h
  | deleteByKeys keys =>
    rw [statement, TableMap.deleteByKeys_eq] at h
    exact TableMap.keyed_shows rfl (map_some_ok h)
  | deleteWhere filter => exact TableMap.deleteWhere_shows (map_some_ok h)
  | relationRead spec master => exact TableMap.relationRead_shows hp (map_some_ok h)
  | linkInsert spec childType master child => exact TableMap.linkInsert_shows (map_some_ok h)
  | linkDelete spec childType master child => exact TableMap.linkDelete_shows (map_some_ok h)

end Call

end RecordGraph
