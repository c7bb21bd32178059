/-
  Conditions built by calls.

  * `Condition.built` is what calls make of a condition, where a call can attach a child that is
    built by calls itself.
  * Conditions that differ only in what is inverted have different texts, unless they fail with
    the same fault (`Condition.rendered_eq_iff`).
  * A call that inverts sets a flag, so one more of them does nothing.  Of calls that are the same
    but for those that invert, it matters at which comparisons there are any, and neither how many
    there are nor where among the other calls they stand (`Condition.built_rendered_iff`).
-/
import RecordGraph.Proofs.Sql.Inversion

namespace RecordGraph

variable {d : Dialect} {k n m m' : Nat}

/-! ## Comparisons -/

namespace Leaf

variable {l l' : Leaf}

/-- The comparison, not inverted. -/
def plain (l : Leaf) : Leaf := ⟨l.field, l.op, l.operand, false⟩

theorem eq_of_plain (h : l.plain = l'.plain) (hinverted : l.inverted = l'.inverted) : l = l' := by
  cases l
  cases l'
  cases h
  cases hinverted
  rfl

theorem fails_plain {fault : Condition.Fault} : l.plain.Fails fault ↔ l.Fails fault :=
  ⟨fun h => h.withInverted l.inverted, fun h => h.withInverted false⟩

theorem wellFormed_plain : l.plain.WellFormed ↔ l.WellFormed :=
  ⟨fun h => ⟨h.named, h.takes⟩, fun h => ⟨h.named, h.takes⟩⟩

/-- A comparison and its inversion have two texts. -/
theorem eq_of_sqlFrom {f f' : Fragment} (hf : l.fragment d = .ok f) (hf' : l'.fragment d = .ok f')
    (hplain : l.plain = l'.plain) (h : f.sqlFrom d (k + 1) = f'.sqlFrom d (k + 1)) : l = l' := by
  have hpredicate : l.predicate k = l'.predicate k := by
    refine Predicate.text_injective (d := d) ?_
    rw [text_predicate hf, text_predicate hf', h]
  obtain ⟨field, op, operand, inverted⟩ := l
  obtain ⟨field', op', operand', inverted'⟩ := l'
  cases hplain
  cases inverted with
  | false =>
    cases inverted' with
    | false => rfl
    | true => exact (Predicate.negated_ne _ hpredicate.symm).elim
  | true =>
    cases inverted' with
    | false => exact (Predicate.negated_ne _ hpredicate).elim
    | true => rfl

theorem values_plain : l.plain.values = l.values := rfl

end Leaf

/-- The texts tell which comparisons are inverted. -/
theorem Renders.leaves_eq {ls ls' : List Leaf} {ss ss' : List String}
    (h : Renders d n ls ss m) (h' : Renders d n ls' ss' m') (hn : 0 < n)
    (hplain : ls.map Leaf.plain = ls'.map Leaf.plain) (hss : ss = ss') : ls = ls' := by
  induction h generalizing ls' ss' with
  | nil => cases h' with
    | nil => rfl
    | cons => cases hss
  | @cons n m l ls f ss hf _ ih => cases h' with
    | nil => cases hss
    | @cons _ _ l' ls' f' ss' hf' hrest =>
      obtain ⟨k, rfl⟩ : ∃ k, n = k + 1 := ⟨n - 1, by omega⟩
      obtain ⟨htext, hss⟩ := List.cons.inj hss
      obtain ⟨hl, hls⟩ := List.cons.inj hplain
      have hparams : f.params = f'.params := by
        rw [Leaf.params_fragment hf, Leaf.params_fragment hf', ← Leaf.values_plain, hl,
          Leaf.values_plain]
      rw [hparams] at ih
      rw [Leaf.eq_of_sqlFrom hf hf' hl htext, ih hrest (by omega) hls hss]

namespace Condition

variable {c c' : Condition} {fault : Fault}

/-! ## Trees -/

mutual

/-- The tree without inversions. -/
def plain : Condition → Condition
  | node l b cs => node l.plain b (plainAll cs)

def plainAll : List Condition → List Condition
  | [] => []
  | c :: cs => c.plain :: plainAll cs

end

mutual

theorem leaves_plain : ∀ c : Condition, c.plain.leaves = c.leaves.map Leaf.plain
  | node l b cs => by rw [plain, leaves, leaves, List.map_cons, leavesOf_plainAll cs]

theorem leavesOf_plainAll : ∀ cs, leavesOf (plainAll cs) = (leavesOf cs).map Leaf.plain
  | [] => rfl
  | c :: cs => by
    rw [plainAll, leavesOf, leavesOf, List.map_append, leaves_plain c, leavesOf_plainAll cs]

end

theorem plain_leaves (h : c.plain = c'.plain) :
    c.leaves.map Leaf.plain = c'.leaves.map Leaf.plain := by
  rw [← leaves_plain, h, leaves_plain]

mutual

/-- A tree is known from its comparisons and what it is without inversions. -/
theorem eq_of_leaves : ∀ c c' : Condition, c.plain = c'.plain → c.leaves = c'.leaves → c = c'
  | node l b cs, node l' b' cs', hplain, hleaves => by
    obtain ⟨-, hb, hcs⟩ := node.inj hplain
    obtain ⟨hl, hbelow⟩ := List.cons.inj hleaves
    rw [hl, hb, eq_of_leavesOf cs cs' hcs hbelow]

theorem eq_of_leavesOf : ∀ cs cs' : List Condition, plainAll cs = plainAll cs' →
    leavesOf cs = leavesOf cs' → cs = cs'
  | [], [], _, _ => rfl
  | [], _ :: _, hplain, _ => nomatch hplain
  | _ :: _, [], hplain, _ => nomatch hplain
  | c :: cs, c' :: cs', hplain, hleaves => by
    obtain ⟨hc, hcs⟩ := List.cons.inj hplain
    have hlength : c.leaves.length = c'.leaves.length := by
      simpa using congrArg List.length (plain_leaves hc)
    obtain ⟨hfirst, hrest⟩ := List.append_inj hleaves hlength
    rw [eq_of_leaves c c' hc hfirst, eq_of_leavesOf cs cs' hcs hrest]

end

/-! ## Rendering -/

theorem firstFault_plain {ls : List Leaf} :
    FirstFault (ls.map Leaf.plain) fault ↔ FirstFault ls fault := by
  induction ls with
  | nil => rfl
  | cons l ls ih =>
    rw [List.map_cons, firstFault_cons, firstFault_cons, Leaf.fails_plain, Leaf.wellFormed_plain,
      ih]

/-- What is inverted makes no difference to the fault. -/
theorem fragment_error_plain (h : c.plain = c'.plain) :
    c.fragment d = .error fault ↔ c'.fragment d = .error fault := by
  rw [failsBy_fragment c, failsBy_fragment c', ← firstFault_plain, plain_leaves h, firstFault_plain]

/-- The text and the parameters of a condition that is written after `k` other parameters. -/
def rendered (d : Dialect) (k : Nat) (c : Condition) : Except Fault (String × List Value) :=
  (c.fragment d).map fun f => (f.sqlFrom d (k + 1), f.params)

/-- The text tells what is inverted in a tree. -/
theorem eq_of_sqlFrom {f f' : Fragment} (hf : c.fragment d = .ok f) (hf' : c'.fragment d = .ok f')
    (h : c.plain = c'.plain) (htext : f.sqlFrom d (k + 1) = f'.sqlFrom d (k + 1)) : c = c' := by
  obtain ⟨p, hp, hrenders, -⟩ := fragment_primary c hf (k + 1)
  obtain ⟨p', hp', hrenders', -⟩ := fragment_primary c' hf' (k + 1)
  obtain rfl : p = p' := Primary.cancel (delimited_rendered d) hrenders.rendered
    hrenders'.rendered endsPrimary_nil endsPrimary_nil (by rw [hp, hp', htext])
  exact eq_of_leaves c c' h (hrenders.leaves_eq hrenders' k.succ_pos (plain_leaves h) rfl)

theorem rendered_eq_iff (h : c.plain = c'.plain) : c.rendered d k = c'.rendered d k ↔
    c = c' ∨ ∃ l ∈ c.leaves, ¬ l.WellFormed := by
  have hok : (∃ f, c.fragment d = .ok f) ↔ ∀ l ∈ c.leaves, l.WellFormed :=
    (failsBy_fragment c).ok_iff
  cases hc : c.fragment d with
  | error fault =>
    have hnot : ¬ ∀ l ∈ c.leaves, l.WellFormed := by simp [← hok, hc]
    rw [rendered, rendered, hc, (fragment_error_plain h).1 hc]
    exact iff_of_true rfl (.inr (by simpa using hnot))
  | ok f =>
    have hall : ¬ ∃ l ∈ c.leaves, ¬ l.WellFormed := by simpa using hok.1 ⟨f, hc⟩
    rw [or_iff_left hall]
    refine ⟨fun heq => ?_, fun heq => heq ▸ rfl⟩
    cases hc' : c'.fragment d with
    | error fault =>
      rw [(fragment_error_plain h).2 hc'] at hc
      cases hc
    | ok f' =>
      rw [rendered, rendered, hc, hc'] at heq
      exact eq_of_sqlFrom hc hc' h (congrArg Prod.fst (Except.ok.inj heq))

/-! ## Calls -/

/-- A call on a condition. -/
inductive Call where
  | onField (name : String)
  | negate
  | compare (op : Operator) (operand : Operand)
  /-- Attaches a child that is built from a comparison by other calls. -/
  | attach (orJoined : Bool) (field : String) (op : Operator) (operand : Operand)
      (calls : List Call)

mutual

def Call.apply : Call → Condition → Condition
  | .onField name, c => c.onField name
  | .negate, c => c.inverted
  | .compare op operand, c => c.compare op operand
  | .attach orJoined field op operand calls, c =>
    let child := built calls (ofLeaf field op operand)
    if orJoined then c.or child else c.and child

/-- A condition after some calls. -/
def built : List Call → Condition → Condition
  | [], c => c
  | call :: calls, c => built calls (call.apply c)

end

mutual

def Call.withoutNegations : Call → List Call
  | .onField name => [.onField name]
  | .negate => []
  | .compare op operand => [.compare op operand]
  | .attach orJoined field op operand calls =>
    [.attach orJoined field op operand (withoutNegations calls)]

/-- The calls but for those that invert, at whatever depth. -/
def withoutNegations : List Call → List Call
  | [] => []
  | call :: calls => call.withoutNegations ++ withoutNegations calls

end

def Call.negates : Call → Bool
  | .negate => true
  | _ => false

mutual

def Call.negationsBelow : Call → List Nat
  | .attach _ _ _ _ calls => calls.countP Call.negates :: negationsBelow calls
  | _ => []

/-- How many calls invert each of the conditions that are attached, in the order of the text. -/
def negationsBelow : List Call → List Nat
  | [] => []
  | call :: calls => call.negationsBelow ++ negationsBelow calls

end

/-- How many calls invert the condition itself and each one below it, in the order of the text. -/
def negations (calls : List Call) : List Nat :=
  calls.countP Call.negates :: negationsBelow calls

/-! ## What calls change -/

theorem built_append (calls calls' : List Call) (c : Condition) :
    built (calls ++ calls') c = built calls' (built calls c) := by
  induction calls generalizing c with
  | nil => rfl
  | cons call calls ih => exact ih _

theorem leavesOf_append (cs cs' : List Condition) :
    leavesOf (cs ++ cs') = leavesOf cs ++ leavesOf cs' := by
  induction cs with
  | nil => rfl
  | cons c cs ih => rw [List.cons_append, leavesOf, leavesOf, ih, List.append_assoc]

theorem plainAll_append (cs cs' : List Condition) :
    plainAll (cs ++ cs') = plainAll cs ++ plainAll cs' := by
  induction cs with
  | nil => rfl
  | cons c cs ih => rw [List.cons_append, plainAll, plainAll, ih, List.cons_append]

theorem plain_and (c child : Condition) : (c.and child).plain = c.plain.and child.plain := by
  cases c
  exact congrArg (node _ _) (plainAll_append _ _)

theorem plain_or (c child : Condition) : (c.or child).plain = c.plain.or child.plain := by
  rw [or, or, plain_and]
  cases child
  rfl

mutual

theorem plain_apply : ∀ (call : Call) (c : Condition),
    (call.apply c).plain = built call.withoutNegations c.plain
  | .onField _, node .. | .negate, node .. | .compare .., node .. => rfl
  | .attach orJoined field op operand calls, c => by
    have hchild : (built calls (ofLeaf field op operand)).plain =
        built (withoutNegations calls) (ofLeaf field op operand) := plain_built calls _
    cases orJoined with
    | false => exact (plain_and c _).trans (congrArg c.plain.and hchild)
    | true => exact (plain_or c _).trans (congrArg c.plain.or hchild)

/-- Without inversions, a condition is what the other calls build. -/
theorem plain_built : ∀ (calls : List Call) (c : Condition),
    (built calls c).plain = built (withoutNegations calls) c.plain
  | [], _ => rfl
  | call :: calls, c => by
    rw [built, withoutNegations, built_append, ← plain_apply, plain_built calls]

end

/-- Which comparisons are inverted, in the order of the text. -/
def inversions (c : Condition) : List Bool := c.leaves.map Leaf.inverted

theorem eq_of_inversions (h : c.plain = c'.plain) (hinversions : c.inversions = c'.inversions) :
    c = c' := by
  refine eq_of_leaves c c' h (List.ext_getElem ?_ fun i hi hi' => Leaf.eq_of_plain ?_ ?_)
  · simpa [inversions] using congrArg List.length hinversions
  · simpa [hi, hi'] using congrArg (·[i]?) (plain_leaves h)
  · simpa [inversions, hi, hi'] using congrArg (·[i]?) hinversions

theorem inversions_and (c child : Condition) :
    (c.and child).inversions = c.inversions ++ child.inversions := by
  cases c
  simp [inversions, and, leaves, leavesOf_append, leavesOf]

theorem inversions_or (c child : Condition) :
    (c.or child).inversions = c.inversions ++ child.inversions := by
  rw [or, inversions_and]
  cases child
  rfl

/-- Where some of the calls invert. -/
def anyNegations (ns : List Nat) : List Bool := ns.map fun n => decide (0 < n)

mutual

theorem inversions_apply : ∀ (call : Call) {c : Condition} {own : Bool} {below : List Bool},
    c.inversions = own :: below → (call.apply c).inversions =
      (own || call.negates) :: (below ++ anyNegations call.negationsBelow)
  | .onField _, node .., own, below, h | .compare .., node .., own, below, h => by
    refine h.trans ?_
    simp [Call.negates, Call.negationsBelow, anyNegations]
  | .negate, node .., own, below, h => by
    obtain ⟨-, rfl⟩ := List.cons.inj h
    simp [Call.negates, Call.negationsBelow, anyNegations, Call.apply, inverted, mapLeaf,
      inversions, leaves]
  | .attach orJoined field op operand calls, c, own, below, h => by
    have hstart : (ofLeaf field op operand).inversions = [false] := rfl
    have hchild := inversions_built calls hstart
    have happly : ((Call.attach orJoined field op operand calls).apply c).inversions =
        c.inversions ++ (built calls (ofLeaf field op operand)).inversions := by
      cases orJoined with
      | false => exact inversions_and c _
      | true => exact inversions_or c _
    rw [happly, h, hchild]
    simp [Call.negates, Call.negationsBelow, anyNegations]

/-- A comparison is inverted if it was before or if there is a call that inverts it. -/
theorem inversions_built : ∀ (calls : List Call) {c : Condition} {own : Bool} {below : List Bool},
    c.inversions = own :: below → (built calls c).inversions =
      (own || decide (0 < calls.countP Call.negates)) ::
        (below ++ anyNegations (negationsBelow calls))
  | [], _, _, _, h => by simpa [anyNegations, built, negationsBelow] using h
  | call :: calls, c, own, below, h => by
    rw [built, inversions_built calls (inversions_apply call h), negationsBelow]
    cases hcall : call.negates <;> simp [hcall, anyNegations]

end

theorem inversions_negations (field : String) (op : Operator) (operand : Operand)
    (calls : List Call) : (built calls (ofLeaf field op operand)).inversions =
      anyNegations (negations calls) := by
  have hstart : (ofLeaf field op operand).inversions = [false] := rfl
  rw [inversions_built calls hstart]
  simp [negations, anyNegations]

theorem inverted_twice (c : Condition) : c.inverted.inverted.plain = c.plain ∧
    (c.inverted.inverted = c ↔ c.leaf.inverted = true) := by
  obtain ⟨⟨field, op, operand, own⟩, b, cs⟩ := c
  refine ⟨rfl, ?_⟩
  simp [inverted, mapLeaf, leaf, eq_comm]

/-- To invert a condition twice leaves its text and its parameters as they are just if it was
    inverted before, or has a comparison that cannot be written.  Conditions that are built by the
    same calls, but for those that invert, are rendered alike just if there are such calls for the
    same comparisons, be it one or more and wherever they stand, or if neither can be written. -/
theorem built_rendered_iff (d : Dialect) (k : Nat) :
    (∀ c : Condition, c.inverted.inverted.rendered d k = c.rendered d k ↔
      c.leaf.inverted = true ∨ ∃ l ∈ c.leaves, ¬ l.WellFormed) ∧
    ∀ (field : String) (op : Operator) (operand : Operand) (calls calls' : List Call),
      withoutNegations calls = withoutNegations calls' →
      ((built calls (ofLeaf field op operand)).rendered d k =
          (built calls' (ofLeaf field op operand)).rendered d k ↔
        anyNegations (negations calls) = anyNegations (negations calls') ∨
          ∃ l ∈ (built calls (ofLeaf field op operand)).leaves, ¬ l.WellFormed) := by
  constructor
  · intro c
    obtain ⟨hplain, htwice⟩ := c.inverted_twice
    rw [eq_comm, rendered_eq_iff hplain.symm, eq_comm, htwice]
  · intro field op operand calls calls' hcalls
    have hplain : (built calls (ofLeaf field op operand)).plain =
        (built calls' (ofLeaf field op operand)).plain := by
      rw [plain_built, plain_built, hcalls]
    rw [rendered_eq_iff hplain, ← inversions_negations field op operand calls,
      ← inversions_negations field op operand calls']
    exact or_congr_left ⟨congrArg _, eq_of_inversions hplain⟩

/-- Calls that invert, between others and in a child. -/
theorem negatedAnywhere_rendered :
    let calls : List Call := [.negate, .onField "A", .compare .equal (.single (.int 1)), .negate,
      .attach true "B" .isNull .nothing [.negate]]
    let calls' : List Call := [.onField "A", .compare .equal (.single (.int 1)),
      .attach true "B" .isNull .nothing [.negate, .negate], .negate]
    withoutNegations calls = withoutNegations calls' ∧
    (built calls blank).rendered .postgres 0 =
      .ok ("(\"A\" != $1 or \"B\" is not null)", [.int 1]) ∧
    (built calls blank).rendered .postgres 0 = (built calls' blank).rendered .postgres 0 :=
  ⟨rfl, by decide +kernel,
    ((built_rendered_iff .postgres 0).2 "" .equal .nothing _ _ rfl).2 (.inl (by decide))⟩

/-- A condition is negated if it is inverted twice. -/
theorem negatedTwice_differs :
    (built [.onField "A", .compare .equal (.single (.int 1))] blank).rendered .postgres 0 =
      .ok ("\"A\" = $1", [.int 1]) ∧
    (built [.onField "A", .compare .equal (.single (.int 1)), .negate, .negate] blank).rendered
      .postgres 0 = .ok ("\"A\" != $1", [.int 1]) := by
  decide +kernel

end Condition

end RecordGraph
