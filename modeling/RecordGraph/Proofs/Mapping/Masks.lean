/-
  Values leave no trace in the text of statements.

  `Call.mask` keeps of the values of a call how many there are, and in conditions and filters
  which of them are null, since a test for null is written in another way.  Of a record that is
  written it keeps nothing: which columns are written does not depend on it.
  `Call.statement_text` says that calls with one mask have statements of one kind with the same
  text, or fail alike.
-/
import RecordGraph.Proofs.Mapping.Calls
import RecordGraph.Proofs.Mapping.Columns

namespace RecordGraph

variable {d : Dialect} {n : Nat}

/-! ## Masks -/

/-- Whether a value is null, and nothing else of it. -/
def Value.mask (v : Value) : Value := if v.isNull then .null else .bool true

@[simp] theorem Value.isNull_mask (v : Value) : v.mask.isNull = v.isNull := by
  unfold mask
  split
  · rename_i hnull
    rw [hnull]
    rfl
  · rename_i hset
    rw [Bool.not_eq_true] at hset
    rw [hset]
    rfl

def Operand.mask : Operand → Operand
  | nothing => nothing
  | single v => single v.mask
  | range low high => range low.mask high.mask
  | list vs => list (vs.map Value.mask)

def Leaf.mask (l : Leaf) : Leaf := { l with operand := l.operand.mask }

namespace Condition

mutual

def mask : Condition → Condition
  | node l b cs => node l.mask b (maskAll cs)

def maskAll : List Condition → List Condition
  | [] => []
  | c :: cs => c.mask :: maskAll cs

end

end Condition

/-- A filter of which only remains where it tests for null. -/
def maskFilter (filter : List (String × Value)) : List (String × Value) :=
  filter.map fun p => (p.1, p.2.mask)

/-- The number of some values. -/
def maskKeys (keys : List Value) : List Value := keys.map fun _ => .null

/-- A call without its values. -/
def Call.mask : Call → Call
  | select spec variant =>
    select { spec with conditions := Condition.maskAll spec.conditions } variant
  | selectByKeys variant keys => selectByKeys variant (maskKeys keys)
  | probe keys => probe (maskKeys keys)
  | describe => describe
  | insert _ columns => insert (.mk []) columns
  | update _ columns => update (.mk []) columns
  | deleteByKeys keys => deleteByKeys (maskKeys keys)
  | deleteWhere filter => deleteWhere (maskFilter filter)
  | relationRead spec _ => relationRead spec .null
  | linkInsert spec childType _ _ => linkInsert spec childType .null .null
  | linkDelete spec childType _ _ => linkDelete spec childType .null .null

/-! ## Fragments without values -/

def Piece.mask : Piece → Piece
  | .bind _ => .bind .null
  | .name s => .name s
  | .text s => .text s

namespace Fragment

variable {f g : Fragment}

/-- A fragment without its values. -/
def mask (f : Fragment) : Fragment := f.map Piece.mask

@[simp] theorem mask_nil : mask [] = [] := rfl

@[simp] theorem mask_text (s : String) (f : Fragment) : mask (.text s :: f) = .text s :: f.mask :=
  rfl

@[simp] theorem mask_name (s : String) (f : Fragment) : mask (.name s :: f) = .name s :: f.mask :=
  rfl

@[simp] theorem mask_bind (v : Value) (f : Fragment) :
    mask (.bind v :: f) = .bind .null :: f.mask := rfl

@[simp] theorem mask_append (f g : Fragment) : mask (f ++ g) = f.mask ++ g.mask := List.map_append

theorem mask_joined (between : String) (fs : List Fragment) :
    mask (joined between fs) = joined between (fs.map mask) := by
  fun_induction joined between fs with
  | case1 => rfl
  | case2 f => rfl
  | case3 f fs h ih =>
    obtain ⟨g, gs, rfl⟩ := List.exists_cons_of_ne_nil h
    simp [joined, ih]

/-- Names, each written with a value. -/
theorem mask_joined_names {α : Type} (between : String) {as bs : List (α × Value)}
    {k : α × Value → Fragment} (hk : ∀ a v, mask (k (a, v)) = mask (k (a, .null)))
    (h : as.map Prod.fst = bs.map Prod.fst) :
    mask (joined between (as.map k)) = mask (joined between (bs.map k)) := by
  have hnames (cs : List (α × Value)) :
      (cs.map k).map mask = (cs.map Prod.fst).map fun a => mask (k (a, .null)) := by
    simp [hk]
  rw [mask_joined, mask_joined, hnames, hnames, h]

theorem sqlFrom_mask (f : Fragment) : f.mask.sqlFrom d n = f.sqlFrom d n := by
  induction f generalizing n with
  | nil => rfl
  | cons p f ih => cases p <;> simp [sqlFrom, ih]

/-- Fragments that differ in their values have the same text. -/
theorem sql_of_mask (h : f.mask = g.mask) : f.sql d = g.sql d := by
  rw [sql, sql, ← sqlFrom_mask, h, sqlFrom_mask]

end Fragment

/-! ## Results that differ in values -/

section

variable {ε α β γ δ : Type}

/-- What is made of two results looks the same if they do. -/
theorem map_bind_congr {x y : Except ε α} {f g : α → Except ε β} {p : α → γ} {q : β → δ}
    (h : x.map p = y.map p) (hfg : ∀ a b, p a = p b → (f a).map q = (g b).map q) :
    (x >>= f).map q = (y >>= g).map q := by
  cases x with
  | error e =>
    cases y with
    | error e' => cases h; rfl
    | ok b => cases h
  | ok a =>
    cases y with
    | error e' => cases h
    | ok b => exact hfg a b (Except.ok.inj h)

theorem map_bind_same {x : Except ε α} {f g : α → Except ε β} {q : β → δ}
    (h : ∀ a, (f a).map q = (g a).map q) : (x >>= f).map q = (x >>= g).map q := by
  cases x with
  | error e => rfl
  | ok a => exact h a

end

/-! ## Conditions -/

theorem Leaf.fragment_mask (l : Leaf) :
    (l.mask.fragment d).map Fragment.mask = (l.fragment d).map Fragment.mask := by
  obtain ⟨field, op, operand, inverted⟩ := l
  change (Leaf.fragment d ⟨field, op, operand.mask, inverted⟩).map Fragment.mask = _
  unfold Leaf.fragment
  dsimp only
  by_cases hfield : field.isEmpty = true
  · rw [if_pos hfield, if_pos hfield]
  rw [if_neg hfield, if_neg hfield]
  cases operand with
  | nothing => rfl
  | single v =>
    cases op <;> simp only [Operand.mask, Value.isNull_mask]
    all_goals first | rfl | split <;> rfl
  | range low high =>
    cases op <;> simp only [Operand.mask, Value.isNull_mask]
    split <;> rfl
  | list vs =>
    cases op <;> simp only [Operand.mask, List.isEmpty_map]
    split
    · rfl
    · simp [Except.map, Fragment.mask_joined, Function.comp_def]

namespace Condition

theorem joiner_mask (c : Condition) : c.mask.joiner = c.joiner := by
  cases c
  rfl

theorem isEmpty_maskAll (cs : List Condition) : (maskAll cs).isEmpty = cs.isEmpty := by
  cases cs <;> rfl

mutual

theorem fragment_mask : ∀ c : Condition,
    (c.mask.fragment d).map Fragment.mask = (c.fragment d).map Fragment.mask
  | node l b cs => by
    rw [mask, fragment, fragment, isEmpty_maskAll]
    refine map_bind_congr (Leaf.fragment_mask l) fun own own' hown => ?_
    split
    · exact congrArg Except.ok hown
    · refine map_bind_congr (joinedFragment_mask cs) fun below below' hbelow => ?_
      exact congrArg Except.ok (by simp [hown, hbelow])

theorem joinedFragment_mask : ∀ cs : List Condition,
    (joinedFragment d (maskAll cs)).map Fragment.mask = (joinedFragment d cs).map Fragment.mask
  | [] => rfl
  | c :: cs => by
    rw [maskAll, joinedFragment, joinedFragment, joiner_mask]
    refine map_bind_congr (fragment_mask c) fun first first' hfirst => ?_
    refine map_bind_congr (joinedFragment_mask cs) fun rest rest' hrest => ?_
    exact congrArg Except.ok (by simp [hfirst, hrest])

end

theorem allFragment_mask : ∀ cs : List Condition,
    (allFragment d (maskAll cs)).map Fragment.mask = (allFragment d cs).map Fragment.mask
  | [] => rfl
  | c :: cs => by
    rw [maskAll, allFragment, allFragment]
    refine map_bind_congr (fragment_mask c) fun first first' hfirst => ?_
    refine map_bind_congr (joinedFragment_mask cs) fun rest rest' hrest => ?_
    exact congrArg Except.ok (by simp [hfirst, hrest])

end Condition

theorem whereFragment_mask (cs : List Condition) :
    (whereFragment d (Condition.maskAll cs)).map Fragment.mask =
      (whereFragment d cs).map Fragment.mask := by
  have hall := Condition.allFragment_mask (d := d) cs
  unfold whereFragment
  rw [Condition.isEmpty_maskAll]
  split
  · rfl
  · cases hx : Condition.allFragment d (Condition.maskAll cs) with
    | error e =>
      cases hy : Condition.allFragment d cs with
      | error e' => rw [hx, hy] at hall; cases hall; rfl
      | ok f => rw [hx, hy] at hall; cases hall
    | ok f =>
      cases hy : Condition.allFragment d cs with
      | error e' => rw [hx, hy] at hall; cases hall
      | ok g =>
        rw [hx, hy] at hall
        have hfg : f.mask = g.mask := Except.ok.inj hall
        exact congrArg Except.ok (by simp [hfg])

/-! ## Texts of statements -/

/-- What the database is told, apart from the parameters. -/
def Statement.text (s : Statement) : StatementKind × String := (s.kind, s.sql)

theorem Statement.text_of {kind : StatementKind} {f g : Fragment} (h : f.mask = g.mask) :
    (Statement.of d kind f).text = (Statement.of d kind g).text := by
  rw [text, text, of, of, Fragment.sql_of_mask h]

namespace TableMap

variable {τ : Type} {m : TableMap τ}

/-! ## Selects -/

theorem select_mask (query : QuerySpec) (variant : Variant) :
    (m.select d { query with conditions := Condition.maskAll query.conditions } variant).map
      Statement.text = (m.select d query variant).map Statement.text := by
  refine map_bind_same fun base => ?_
  refine map_bind_congr (whereFragment_mask query.conditions) fun f g hfg => ?_
  dsimp only
  split
  · exact congrArg Except.ok (Statement.text_of (by simp [hfg]))
  · have hsql : (base ++ f ++ m.orderFragment query.order).sql d =
        (base ++ g ++ m.orderFragment query.order).sql d :=
      Fragment.sql_of_mask (by simp [hfg])
    refine congrArg Except.ok ?_
    simp only [Statement.text, Statement.of, hsql]

variable [Model τ] {keys keys' : List Value} {columns : List String}

/-! ## Statements on one row -/

theorem keyFragment_mask (h : keys.length = keys'.length) :
    (m.keyFragment keys).map Fragment.mask = (m.keyFragment keys').map Fragment.mask := by
  unfold keyFragment
  rw [h]
  split
  · rename_i hlength
    refine congrArg Except.ok (Fragment.mask_joined_names _ (fun _ _ => rfl) ?_)
    rw [List.map_fst_zip (by omega), List.map_fst_zip (by omega)]
  · rfl

theorem keyed_mask {kind : StatementKind} {command : String} {table : Result Ident}
    (h : keys.length = keys'.length) :
    (m.keyed d kind command table keys).map Statement.text =
      (m.keyed d kind command table keys').map Statement.text := by
  refine map_bind_same fun i => map_bind_congr (keyFragment_mask h) fun f g hfg => ?_
  exact congrArg Except.ok (Statement.text_of (by simp [hfg]))

/-! ## Writing -/

/-- Whether a column is written does not depend on the record. -/
theorem isSome_writeValue (r r' : Record) (column : String) :
    (m.writeValue? r column).isSome = (m.writeValue? r' column).isSome := by
  cases href : m.reference? column with
  | some path =>
    unfold writeValue?
    simp [href]
  | none =>
    rw [writeValue_eq href, writeValue_eq href]
    simp

theorem names_writeValues (columns : List String) (r r' : Record) :
    (m.writeValues r columns).map Prod.fst = (m.writeValues r' columns).map Prod.fst := by
  have hname (r₀ : Record) (column : String) :
      (if m.skipsOnWrite column then none
        else (m.writeValue? r₀ column).map fun v => (column, v)).map Prod.fst =
      if !m.skipsOnWrite column && (m.writeValue? r₀ column).isSome then some column else none := by
    cases m.skipsOnWrite column <;> cases m.writeValue? r₀ column <;> rfl
  rw [writeValues, writeValues, List.map_filterMap, List.map_filterMap]
  refine List.filterMap_congr fun column _ => ?_
  rw [hname, hname, isSome_writeValue r r']

theorem insert_mask (r r' : Record) :
    (m.insert d r columns).map Statement.text = (m.insert d r' columns).map Statement.text := by
  have hnames := names_writeValues (m := m) columns r r'
  have hempty : (m.writeValues r columns).isEmpty = (m.writeValues r' columns).isEmpty := by
    rw [← List.isEmpty_map (f := Prod.fst), hnames, List.isEmpty_map]
  refine map_bind_same fun table => map_bind_same fun returning => ?_
  refine congrArg Except.ok (Statement.text_of ?_)
  rw [hempty]
  split
  · rfl
  · have hlisted := Fragment.mask_joined_names ", "
      (k := fun p => [.name p.1]) (fun _ _ => rfl) hnames
    have hbound := Fragment.mask_joined_names ", "
      (k := fun p => [.bind p.2]) (fun _ _ => rfl) hnames
    simp [hlisted, hbound]

theorem names_filter {p : String → Bool} {values values' : List (String × Value)}
    (h : values.map Prod.fst = values'.map Prod.fst) :
    (values.filter fun e => p e.1).map Prod.fst = (values'.filter fun e => p e.1).map Prod.fst := by
  have hfilter (vs : List (String × Value)) :
      (vs.filter fun e => p e.1).map Prod.fst = (vs.map Prod.fst).filter p := by
    rw [List.filter_map]
    rfl
  rw [hfilter, hfilter, h]

theorem update_mask (r r' : Record) :
    (m.update d r columns).map (Option.map Statement.text) =
      (m.update d r' columns).map (Option.map Statement.text) := by
  have hnames := names_filter (p := fun c => !m.isKey c)
    (names_writeValues (m := m) columns r r')
  have hkeys : (m.keyValues r).length = (m.keyValues r').length := by simp [keyValues]
  have hempty : ((m.writeValues r columns).filter fun p => !m.isKey p.1).isEmpty =
      ((m.writeValues r' columns).filter fun p => !m.isKey p.1).isEmpty := by
    rw [← List.isEmpty_map (f := Prod.fst), hnames, List.isEmpty_map]
  unfold update
  dsimp only
  rw [hempty]
  split
  · rfl
  · refine map_bind_same fun table => map_bind_congr (keyFragment_mask hkeys) fun f g hfg => ?_
    have hset := Fragment.mask_joined_names ", "
      (k := fun p => [.name p.1, .text " = ", .bind p.2]) (fun _ _ => rfl) hnames
    refine congrArg (fun t => Except.ok (some t)) (Statement.text_of ?_)
    simp [hset, hfg]

theorem filterCondition_mask (p : String × Value) :
    filterCondition p.1 p.2.mask = (filterCondition p.1 p.2).mask := by
  unfold filterCondition
  rw [Value.isNull_mask]
  split <;> rfl

theorem deleteWhere_mask (filter : List (String × Value)) :
    (m.deleteWhere d (maskFilter filter)).map Statement.text =
      (m.deleteWhere d filter).map Statement.text := by
  have hconditions : (maskFilter filter).map (fun p => filterCondition p.1 p.2) =
      Condition.maskAll (filter.map fun p => filterCondition p.1 p.2) := by
    induction filter with
    | nil => rfl
    | cons p filter ih =>
      rw [maskFilter, List.map_cons, List.map_cons, List.map_cons, Condition.maskAll, ← ih,
        ← filterCondition_mask]
      rfl
  unfold deleteWhere
  rw [hconditions, maskFilter, List.isEmpty_map]
  split
  · rfl
  · refine map_bind_congr (whereFragment_mask _) fun f g hfg => map_bind_same fun table => ?_
    exact congrArg Except.ok (Statement.text_of (by simp [hfg]))

/-! ## Relations -/

theorem relationRead_mask (spec : RelationSpec) (master master' : Value) :
    (m.relationRead d spec master).map Statement.text =
      (m.relationRead d spec master').map Statement.text := by
  unfold relationRead
  dsimp only
  split
  · refine map_bind_same fun source => map_bind_same fun column => ?_
    exact congrArg Except.ok (Statement.text_of (by simp))
  · refine map_bind_same fun procedure => ?_
    cases d <;> exact congrArg Except.ok (Statement.text_of (by simp))
  · refine map_bind_same fun function => ?_
    exact congrArg Except.ok (Statement.text_of (by simp))

theorem linkInsert_mask (spec : RelationSpec) (childType : String)
    (master master' child child' : Value) :
    (m.linkInsert d spec childType master child).map Statement.text =
      (m.linkInsert d spec childType master' child').map Statement.text := by
  refine map_bind_same fun ⟨table, masterColumn, childColumn⟩ => ?_
  exact congrArg Except.ok (Statement.text_of (by simp))

theorem linkDelete_mask (spec : RelationSpec) (childType : String)
    (master master' child child' : Value) :
    (m.linkDelete d spec childType master child).map Statement.text =
      (m.linkDelete d spec childType master' child').map Statement.text := by
  refine map_bind_same fun ⟨table, masterColumn, childColumn⟩ => ?_
  exact congrArg Except.ok (Statement.text_of (by simp))

end TableMap

namespace Call

variable {τ : Type} [Model τ] {m : TableMap τ}

theorem map_some_text {x y : Result Statement}
    (h : x.map Statement.text = y.map Statement.text) :
    (x.map some).map (Option.map Statement.text) =
      (y.map some).map (Option.map Statement.text) := by
  have hswap (z : Result Statement) :
      (z.map some).map (Option.map Statement.text) = (z.map Statement.text).map some := by
    cases z <;> rfl
  rw [hswap, hswap, h]

/-- A call has the text of its mask. -/
theorem statement_mask (call : Call) :
    (call.mask.statement m d).map (Option.map Statement.text) =
      (call.statement m d).map (Option.map Statement.text) := by
  have hkeys (keys : List Value) : (maskKeys keys).length = keys.length := List.length_map _
  cases call with
  | select query variant => exact map_some_text (TableMap.select_mask query variant)
  | selectByKeys variant keys =>
    rw [mask, statement, statement, TableMap.selectByKeys_eq, TableMap.selectByKeys_eq]
    exact map_some_text (TableMap.keyed_mask (hkeys keys))
  | probe keys =>
    rw [mask, statement, statement, TableMap.probe_eq, TableMap.probe_eq]
    exact map_some_text (TableMap.keyed_mask (hkeys keys))
  | describe => rfl
  | insert r columns => exact map_some_text (TableMap.insert_mask _ r)
  | update r columns => exact TableMap.update_mask _ r
  | deleteByKeys keys =>
    rw [mask, statement, statement, TableMap.deleteByKeys_eq, TableMap.deleteByKeys_eq]
    exact map_some_text (TableMap.keyed_mask (hkeys keys))
  | deleteWhere filter => exact map_some_text (TableMap.deleteWhere_mask filter)
  | relationRead spec master => exact map_some_text (TableMap.relationRead_mask spec _ master)
  | linkInsert spec childType master child =>
    exact map_some_text (TableMap.linkInsert_mask spec childType _ master _ child)
  | linkDelete spec childType master child =>
    exact map_some_text (TableMap.linkDelete_mask spec childType _ master _ child)

/-- Calls that differ in their values only have statements of one kind with the same text, or
    fail alike. -/
theorem statement_text {call call' : Call} (h : call.mask = call'.mask) :
    (call.statement m d).map (Option.map Statement.text) =
      (call'.statement m d).map (Option.map Statement.text) := by
  rw [← statement_mask call, h, statement_mask call']

/-- A value that looks like SQL is a value like any other. -/
theorem statement_text_quoted :
    ((deleteWhere [("Product", .text "nut")]).statement Sample.lineMap .postgres).map
        (Option.map Statement.text) =
      ((deleteWhere [("Product", .text "' or ''='")]).statement Sample.lineMap .postgres).map
        (Option.map Statement.text) :=
  statement_text rfl

end Call

end RecordGraph
