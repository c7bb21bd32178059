/-
  Which conditions can be written.

  * `Operator.Takes` says which operands an operator takes, and `Leaf.WellFormed` adds that the
    column has a name; `Leaf.Fails` says what is wrong with any other comparison.
  * A list of trees is written if all comparisons in it are well-formed, and otherwise fails with
    the fault of the first one that is not, in the order of the text (`allFragment_accepts`).  The
    induction is on the trees, by what the leaves of a part say about its outcome (`FailsBy`).
-/
import RecordGraph.Proofs.Sql.Rendering

namespace RecordGraph

variable {d : Dialect}

/-! ## Comparisons -/

/-- The operands that fit an operator.  Tests take no notice of theirs. -/
inductive Operator.Takes : Operator → Operand → Prop
  | isNull (operand : Operand) : Takes .isNull operand
  | isTrue (operand : Operand) : Takes .isTrue operand
  | isFalse (operand : Operand) : Takes .isFalse operand
  | bounds {low high : Value} : low ≠ .null → high ≠ .null → Takes .between (.range low high)
  | list (vs : List Value) : Takes .isIn (.list vs)
  | member (v : Value) : Takes .isIn (.single v)
  | value {op : Operator} {v : Value} : op.operands = some .one → v ≠ .null → Takes op (.single v)

namespace Leaf

structure WellFormed (l : Leaf) : Prop where
  named : l.field ≠ ""
  takes : l.op.Takes l.operand

/-- What is wrong with a comparison that is not well-formed. -/
inductive Fails (l : Leaf) : Condition.Fault → Prop
  | noField : l.field = "" → Fails l .noField
  | nullBound {low high : Value} : l.field ≠ "" → l.op = .between → l.operand = .range low high →
      low = .null ∨ high = .null → Fails l (.nullBound l.field)
  | noBounds : l.field ≠ "" → l.op = .between → (∀ low high, l.operand ≠ .range low high) →
      Fails l (.noBounds l.field)
  | nullOperand : l.field ≠ "" → l.op.operands = some .one → l.operand = .single .null →
      Fails l (.nullOperand l.field)
  | noOperand : l.field ≠ "" → l.op.operands = some .one ∨ l.op = .isIn → l.operand = .nothing →
      Fails l (.noOperand l.field)
  | rangeOperand {low high : Value} : l.field ≠ "" → l.op.operands = some .one ∨ l.op = .isIn →
      l.operand = .range low high → Fails l (.rangeOperand l.field)
  | listOperand {vs : List Value} : l.field ≠ "" → l.op.operands = some .one →
      l.operand = .list vs → Fails l (.listOperand l.field)

theorem isNull_iff {v : Value} : v.isNull = true ↔ v = .null := by
  cases v <;> simp [Value.isNull]

theorem fragment_of_fails {l : Leaf} {fault : Condition.Fault} (h : l.Fails fault) :
    l.fragment d = .error fault := by
  obtain ⟨field, op, operand, inverted⟩ := l
  cases h with
  | noField hfield =>
    cases hfield
    rfl
  | nullBound hfield hop hoperand hnull =>
    cases hop
    cases hoperand
    have hbound := hnull.imp isNull_iff.2 isNull_iff.2
    simp_all [fragment]
  | noBounds hfield hop hoperand =>
    cases hop
    cases operand <;> simp_all [fragment]
  | nullOperand hfield hop hoperand =>
    cases hoperand
    cases op <;> cases hop <;> simp_all [fragment, Value.isNull]
  | noOperand hfield hop hoperand =>
    cases hoperand
    cases op <;> simp_all [fragment, Operator.operands]
  | rangeOperand hfield hop hoperand =>
    cases hoperand
    cases op <;> simp_all [fragment, Operator.operands]
  | listOperand hfield hop hoperand =>
    cases hoperand
    cases op <;> simp_all [fragment, Operator.operands]

theorem fragment_of_wellFormed {l : Leaf} (h : l.WellFormed) : ∃ f, l.fragment d = .ok f := by
  obtain ⟨field, op, operand, inverted⟩ := l
  obtain ⟨hfield, htakes⟩ := h
  cases htakes with
  | isNull | isTrue | isFalse | member => simp_all [fragment]
  | bounds hlow hhigh =>
    simp_all [fragment, ← isNull_iff]
  | list vs => cases vs <;> simp_all [fragment]
  | value hop hv => cases op <;> cases hop <;> simp_all [fragment, ← isNull_iff]

/-- Every comparison is well-formed, or something is wrong with it. -/
theorem wellFormed_or_fails (l : Leaf) : l.WellFormed ∨ ∃ fault, l.Fails fault := by
  obtain ⟨field, op, operand, inverted⟩ := l
  by_cases hfield : field = ""
  · exact .inr ⟨_, .noField hfield⟩
  by_cases hone : op.operands = some .one
  · cases operand with
    | nothing => exact .inr ⟨_, .noOperand hfield (.inl hone) rfl⟩
    | single v =>
      by_cases hv : v = .null
      · exact .inr ⟨_, .nullOperand hfield hone (congrArg _ hv)⟩
      · exact .inl ⟨hfield, .value hone hv⟩
    | range low high => exact .inr ⟨_, .rangeOperand hfield (.inl hone) rfl⟩
    | list vs => exact .inr ⟨_, .listOperand hfield hone rfl⟩
  cases op
  case isNull => exact .inl ⟨hfield, .isNull operand⟩
  case isTrue => exact .inl ⟨hfield, .isTrue operand⟩
  case isFalse => exact .inl ⟨hfield, .isFalse operand⟩
  case between =>
    cases operand with
    | range low high =>
      by_cases hnull : low = .null ∨ high = .null
      · exact .inr ⟨_, .nullBound hfield rfl rfl hnull⟩
      · rw [not_or] at hnull
        exact .inl ⟨hfield, .bounds hnull.1 hnull.2⟩
    | _ => exact .inr ⟨_, .noBounds hfield rfl nofun⟩
  case isIn =>
    cases operand with
    | nothing => exact .inr ⟨_, .noOperand hfield (.inr rfl) rfl⟩
    | single v => exact .inl ⟨hfield, .member v⟩
    | range low high => exact .inr ⟨_, .rangeOperand hfield (.inr rfl) rfl⟩
    | list vs => exact .inl ⟨hfield, .list vs⟩
  all_goals exact (hone rfl).elim

theorem Fails.not_wellFormed {l : Leaf} {fault : Condition.Fault} (h : l.Fails fault) :
    ¬ l.WellFormed := by
  intro hl
  obtain ⟨f, hf⟩ := fragment_of_wellFormed (d := .postgres) hl
  rw [fragment_of_fails h] at hf
  cases hf

theorem fragment_error_iff {l : Leaf} {fault : Condition.Fault} :
    l.fragment d = .error fault ↔ l.Fails fault := by
  refine ⟨fun h => ?_, fragment_of_fails⟩
  rcases l.wellFormed_or_fails with hl | ⟨fault', hl⟩
  · obtain ⟨f, hf⟩ := fragment_of_wellFormed (d := d) hl
    rw [hf] at h
    cases h
  · rw [fragment_of_fails hl] at h
    cases h
    exact hl

end Leaf

namespace Condition

/-! ## The first fault -/

/-- The fault of the first comparison that is not well-formed. -/
inductive FirstFault : List Leaf → Fault → Prop
  | here {l : Leaf} {ls : List Leaf} {fault : Fault} : l.Fails fault → FirstFault (l :: ls) fault
  | later {l : Leaf} {ls : List Leaf} {fault : Fault} : l.WellFormed → FirstFault ls fault →
      FirstFault (l :: ls) fault

variable {xs ys : List Leaf} {fault : Fault}

theorem FirstFault.split (h : FirstFault xs fault) : ∃ before l after, xs = before ++ l :: after ∧
    (∀ x ∈ before, x.WellFormed) ∧ l.Fails fault := by
  induction h with
  | @here l ls fault hl => exact ⟨[], l, ls, rfl, by simp, hl⟩
  | @later l ls fault hl _ ih =>
    obtain ⟨before, l', after, rfl, hbefore, hl'⟩ := ih
    exact ⟨l :: before, l', after, rfl, List.forall_mem_cons.2 ⟨hl, hbefore⟩, hl'⟩

theorem wellFormed_or_firstFault (xs : List Leaf) :
    (∀ l ∈ xs, l.WellFormed) ∨ ∃ fault, FirstFault xs fault := by
  induction xs with
  | nil => simp
  | cons l xs ih =>
    rcases l.wellFormed_or_fails with hl | ⟨fault, hl⟩
    · rcases ih with hxs | ⟨fault, hxs⟩
      · exact .inl (List.forall_mem_cons.2 ⟨hl, hxs⟩)
      · exact .inr ⟨fault, .later hl hxs⟩
    · exact .inr ⟨fault, .here hl⟩

theorem FirstFault.not_wellFormed (h : FirstFault xs fault) : ¬ ∀ l ∈ xs, l.WellFormed := by
  obtain ⟨before, l, after, rfl, -, hl⟩ := h.split
  exact fun hall => hl.not_wellFormed (hall l (by simp))

theorem firstFault_cons {l : Leaf} : FirstFault (l :: xs) fault ↔
    l.Fails fault ∨ l.WellFormed ∧ FirstFault xs fault := by
  constructor
  · rintro (hl | ⟨hl, hxs⟩)
    · exact .inl hl
    · exact .inr ⟨hl, hxs⟩
  · rintro (hl | ⟨hl, hxs⟩)
    · exact .here hl
    · exact .later hl hxs

theorem firstFault_append : FirstFault (xs ++ ys) fault ↔
    FirstFault xs fault ∨ (∀ l ∈ xs, l.WellFormed) ∧ FirstFault ys fault := by
  induction xs with
  | nil =>
    have hnil : ¬ FirstFault [] fault := nofun
    simp [hnil]
  | cons l xs ih =>
    rw [List.cons_append, firstFault_cons, firstFault_cons, List.forall_mem_cons, ih, and_or_left,
      or_assoc, and_assoc]

/-- The outcome fails with the first fault among some comparisons, and only with that. -/
def FailsBy (xs : List Leaf) (x : Except Fault Fragment) : Prop :=
  ∀ fault, x = .error fault ↔ FirstFault xs fault

theorem FailsBy.ok (f : Fragment) : FailsBy [] (.ok f) := fun _ => ⟨nofun, nofun⟩

theorem FailsBy.wellFormed {f : Fragment} (h : FailsBy xs (.ok f)) : ∀ l ∈ xs, l.WellFormed := by
  rcases wellFormed_or_firstFault xs with hxs | ⟨fault, hxs⟩
  · exact hxs
  · cases (h fault).2 hxs

theorem FailsBy.bind {x : Except Fault Fragment} {g : Fragment → Except Fault Fragment}
    (hx : FailsBy xs x) (hg : ∀ f, FailsBy ys (g f)) : FailsBy (xs ++ ys) (x >>= g) := by
  intro fault
  rw [firstFault_append, ← hx]
  cases x with
  | error fault' =>
    have hxs : FirstFault xs fault' := (hx fault').1 rfl
    have hnot : ¬ ∀ l ∈ xs, l.WellFormed := hxs.not_wellFormed
    simp only [hnot, false_and, or_false]
    rfl
  | ok f =>
    constructor
    · exact fun h => .inr ⟨hx.wellFormed, (hg f fault).1 h⟩
    · rintro (h | ⟨-, h⟩)
      · cases h
      · exact (hg f fault).2 h

theorem FailsBy.map {x : Except Fault Fragment} (h : FailsBy xs x) (g : Fragment → Fragment) :
    FailsBy xs (x >>= fun f => .ok (g f)) := by
  rw [← List.append_nil xs]
  exact h.bind fun f => .ok (g f)

theorem FailsBy.ok_iff {x : Except Fault Fragment} (h : FailsBy xs x) :
    (∃ f, x = .ok f) ↔ ∀ l ∈ xs, l.WellFormed := by
  cases x with
  | error fault =>
    have hxs : ¬ ∀ l ∈ xs, l.WellFormed := ((h fault).1 rfl).not_wellFormed
    exact ⟨nofun, fun hall => (hxs hall).elim⟩
  | ok f => exact ⟨fun _ => h.wellFormed, fun _ => ⟨f, rfl⟩⟩

/-! ## Trees -/

theorem failsBy_leaf (l : Leaf) : FailsBy [l] (l.fragment d) := by
  intro fault
  have hnil : ¬ FirstFault [] fault := nofun
  rw [Leaf.fragment_error_iff, firstFault_cons]
  simp [hnil]

mutual

theorem failsBy_fragment : ∀ c : Condition, FailsBy c.leaves (c.fragment d)
  | .node l b cs => by
    have hbelow := failsBy_joinedFragment cs
    unfold fragment leaves
    refine (failsBy_leaf l).bind fun own => ?_
    cases cs with
    | nil => exact .ok own
    | cons c cs => exact hbelow.map fun below => .text "(" :: own ++ below ++ [.text ")"]

theorem failsBy_joinedFragment : ∀ cs : List Condition,
    FailsBy (leavesOf cs) (joinedFragment d cs)
  | [] => .ok []
  | c :: cs => by
    unfold joinedFragment leavesOf
    exact (failsBy_fragment c).bind fun first =>
      (failsBy_joinedFragment cs).map fun rest => .text c.joiner :: first ++ rest

end

theorem failsBy_allFragment : ∀ cs : List Condition, FailsBy (leavesOf cs) (allFragment d cs)
  | [] => .ok []
  | c :: cs => (failsBy_fragment c).bind fun first =>
      (failsBy_joinedFragment cs).map fun rest => first ++ rest

/-- Conditions are written exactly if every comparison in them, at whatever depth, is well-formed.
    Otherwise the error is a condition error, with what is wrong with the first comparison that is
    not. -/
theorem allFragment_accepts (d : Dialect) (cs : List Condition) :
    ((∃ f, allFragment d cs = .ok f) ↔ ∀ l ∈ leavesOf cs, l.WellFormed) ∧
    ∀ e, (allFragment d cs).mapError Fault.toError = .error e →
      ∃ before l after fault, leavesOf cs = before ++ l :: after ∧
        (∀ x ∈ before, x.WellFormed) ∧ ¬ l.WellFormed ∧ l.Fails fault ∧
        e = .condition fault.message := by
  refine ⟨(failsBy_allFragment cs).ok_iff, fun e he => ?_⟩
  cases hall : allFragment d cs with
  | ok f => rw [hall] at he; cases he
  | error fault =>
    rw [hall] at he
    cases he
    obtain ⟨before, l, after, hsplit, hbefore, hl⟩ :=
      ((failsBy_allFragment cs fault).1 hall).split
    exact ⟨before, l, after, fault, hsplit, hbefore, hl.not_wellFormed, hl, rfl⟩

/-- A range that begins with null, below the test of an empty list, and a comparison without a
    column after them. -/
def twoFaults : List Condition :=
  [.node ⟨"A", .isIn, .list [], false⟩ false
    [.node ⟨"B", .between, .range .null (.int 2), true⟩ true []],
    ofLeaf "" .equal (.single (.int 1))]

theorem twoFaults_refused :
    (∃ f, allFragment .postgres mixed = .ok f) ∧
    (allFragment .sqlServer twoFaults).mapError Fault.toError =
      .error (.condition "between on B needs two non-null bounds") ∧
    ∃ before l after fault, leavesOf twoFaults = before ++ l :: after ∧
      (∀ x ∈ before, x.WellFormed) ∧ ¬ l.WellFormed ∧ l.Fails fault ∧
      Error.condition "between on B needs two non-null bounds" = .condition fault.message := by
  have hmixed : ∀ l ∈ leavesOf mixed, l.WellFormed := by
    simp only [mixed, ofLeaf, leavesOf, leaves, List.append_nil, List.cons_append,
      List.nil_append, List.forall_mem_cons]
    exact ⟨⟨by decide, .value rfl (by simp)⟩, ⟨by decide, .bounds (by simp) (by simp)⟩,
      ⟨by decide, .isNull _⟩, ⟨by decide, .isTrue _⟩, by simp⟩
  have hfaults : (allFragment .sqlServer twoFaults).mapError Fault.toError =
      .error (.condition "between on B needs two non-null bounds") := by
    have hmessage : (Fault.nullBound "B").message = "between on B needs two non-null bounds" := by
      decide +kernel
    rw [(failsBy_allFragment twoFaults (.nullBound "B")).2 (.later ⟨by decide, .list []⟩
      (.here (.nullBound (by decide) rfl rfl (.inl rfl)))), ← hmessage]
    rfl
  exact ⟨(allFragment_accepts .postgres mixed).1.2 hmixed, hfaults,
    (allFragment_accepts .sqlServer twoFaults).2 _ hfaults⟩

end Condition

end RecordGraph
