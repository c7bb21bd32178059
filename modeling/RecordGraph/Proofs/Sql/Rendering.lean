/-
  The text of conditions, read as an expression.

  A tree is written as its own comparison followed by its children, and a list of trees as one
  followed by others; `Chain` is this text as an expression.  `allFragment_parses` says that the
  text of conditions is read in one way only, and that the reading has the value that the trees
  have: `Condition.truth` splits the comparisons next to each other before every one that is
  joined by `or`.
-/
import RecordGraph.Proofs.Mapping.Statements
import RecordGraph.Proofs.Sql.Comparisons

namespace RecordGraph

variable {d : Dialect} {n m : Nat}

/-! ## Values of conditions -/

/-- Values next to each other, split before every one that is joined by `or`. -/
def Truth.split (first : Truth) : List (Bool × Truth) → List (List Truth)
  | [] => [[first]]
  | (true, t) :: rest => [first] :: split t rest
  | (false, t) :: rest => (split t rest).modifyHead (first :: ·)

/-- One of the groups holds, and a group holds if all in it do. -/
def Truth.joined (first : Truth) (rest : List (Bool × Truth)) : Truth :=
  any ((split first rest).map all)

namespace Condition

mutual

/-- The comparisons of a tree, each before those below it. -/
def leaves : Condition → List Leaf
  | node l _ cs => l :: leavesOf cs

def leavesOf : List Condition → List Leaf
  | [] => []
  | c :: cs => c.leaves ++ leavesOf cs

end

mutual

/-- The value of a tree whose own comparison is the `i`-th. -/
def truth (σ : Nat → Truth) (i : Nat) : Condition → Truth
  | node _ _ cs => Truth.joined (σ i) (truths σ (i + 1) cs)

/-- The values of trees, with how each is joined to what stands before it. -/
def truths (σ : Nat → Truth) (i : Nat) : List Condition → List (Bool × Truth)
  | [] => []
  | c :: cs => (c.orJoined, c.truth σ i) :: truths σ (i + c.leaves.length) cs

end

/-- The value of a list of trees; how the first is joined makes no difference. -/
def allTruth (σ : Nat → Truth) : List Condition → Truth
  | [] => .holds
  | c :: cs => Truth.joined (c.truth σ 0) (truths σ c.leaves.length cs)

end Condition

/-! ## Chains -/

/-- Puts a primary before an expression, joined to it by `and`. -/
def Disjunction.prepend (p : Primary) : Disjunction → Disjunction
  | .one c => .one (.and p c)
  | .or c rest => .or (.and p c) rest

/-- Primaries next to each other, each but the first with how it is joined to the one before. -/
def Disjunction.chain (p : Primary) : List (Bool × Primary) → Disjunction
  | [] => .one (.one p)
  | (true, q) :: rest => .or (.one p) (chain q rest)
  | (false, q) :: rest => (chain q rest).prepend p

/-- The text of primaries with their joiners. -/
def chainText (ps : List (Bool × Primary)) : List Char :=
  ps.flatMap fun e => (if e.1 then orWord else andWord) ++ e.2.text

/-- The values of primaries with how they are joined. -/
def chainTruths (σ : Nat → Truth) (i : Nat) : List (Bool × Primary) → List (Bool × Truth)
  | [] => []
  | (b, p) :: ps => (b, p.truth σ i) :: chainTruths σ (i + p.atoms.length) ps

namespace Disjunction

variable {p : Primary} {ps : List (Bool × Primary)} {σ : Nat → Truth} {i : Nat}

theorem text_prepend (p : Primary) (e : Disjunction) :
    (e.prepend p).text = p.text ++ (andWord ++ e.text) := by
  cases e <;> simp [prepend, text, Conjunction.text]

theorem atoms_prepend (p : Primary) (e : Disjunction) :
    (e.prepend p).atoms = p.atoms ++ e.atoms := by
  cases e <;> simp [prepend, atoms, Conjunction.atoms]

theorem truths_prepend (p : Primary) (e : Disjunction) : (e.prepend p).truths σ i =
    (e.truths σ (i + p.atoms.length)).modifyHead (p.truth σ i :: ·) := by
  cases e <;> simp [prepend, truths, Conjunction.truths, Conjunction.atoms, Nat.add_assoc]

theorem text_chain : (chain p ps).text = p.text ++ chainText ps := by
  induction ps generalizing p with
  | nil => simp [chain, text, Conjunction.text, chainText]
  | cons e ps ih =>
    obtain ⟨_ | _, q⟩ := e
    · rw [chain, text_prepend, ih]
      simp [chainText]
    · rw [chain, text, ih]
      simp [Conjunction.text, chainText]

theorem atoms_chain : (chain p ps).atoms = p.atoms ++ ps.flatMap fun e => e.2.atoms := by
  induction ps generalizing p with
  | nil => simp [chain, atoms, Conjunction.atoms]
  | cons e ps ih =>
    obtain ⟨_ | _, q⟩ := e
    · rw [chain, atoms_prepend, ih]
      simp
    · rw [chain, atoms, ih]
      simp [Conjunction.atoms]

theorem truths_chain : (chain p ps).truths σ i =
    Truth.split (p.truth σ i) (chainTruths σ (i + p.atoms.length) ps) := by
  induction ps generalizing p i with
  | nil => simp [chain, truths, Conjunction.truths, chainTruths, Truth.split]
  | cons e ps ih =>
    obtain ⟨_ | _, q⟩ := e
    · rw [chain, truths_prepend, ih]
      rfl
    · rw [chain, truths, ih]
      rfl

theorem truth_chain : (chain p ps).truth σ i =
    Truth.joined (p.truth σ i) (chainTruths σ (i + p.atoms.length) ps) := by
  rw [truth_eq, truths_chain]
  rfl

end Disjunction

/-! ## Texts of leaves -/

/-- The texts of leaves, one after the other: `n` is the number of the first parameter, and `m`
    the one after the last. -/
inductive Renders (d : Dialect) : (n : Nat) → List Leaf → List String → (m : Nat) → Prop
  | nil (n : Nat) : Renders d n [] [] n
  | cons {n m : Nat} {l : Leaf} {ls : List Leaf} {f : Fragment} {ss : List String} :
      l.fragment d = .ok f → Renders d (n + f.params.length) ls ss m →
      Renders d n (l :: ls) (f.sqlFrom d n :: ss) m

namespace Renders

variable {ls ls' : List Leaf} {ss ss' : List String} {k : Nat}

theorem append (h : Renders d n ls ss m) (h' : Renders d m ls' ss' k) :
    Renders d n (ls ++ ls') (ss ++ ss') k := by
  induction h with
  | nil => exact h'
  | cons hf _ ih => exact .cons hf (ih h')

theorem length_eq (h : Renders d n ls ss m) : ss.length = ls.length := by
  induction h with
  | nil => rfl
  | cons _ _ ih => rw [List.length_cons, List.length_cons, ih]

theorem rendered (h : Renders d n ls ss m) : ∀ s ∈ ss, Rendered d s := by
  induction h with
  | nil => simp
  | @cons n m l ls f ss hf _ ih =>
    intro s hs
    rcases List.mem_cons.1 hs with rfl | hs
    · exact ⟨l, f, n, hf, rfl⟩
    · exact ih s hs

end Renders

theorem Fragment.toList_sqlFrom_append (f g : Fragment) : ((f ++ g).sqlFrom d n).toList =
    (f.sqlFrom d n).toList ++ (g.sqlFrom d (n + f.params.length)).toList := by
  induction f generalizing n with
  | nil => simp [sqlFrom]
  | cons p f ih =>
    cases p with
    | bind v =>
      simp only [List.cons_append, toList_sqlFrom_bind, params_bind, List.length_cons, ih,
        List.append_assoc, Nat.add_assoc, Nat.add_comm 1]
    | _ => simp [toList_sqlFrom_text, toList_sqlFrom_name, ih]

/-! ## Written conditions -/

theorem toList_joiner (c : Condition) :
    c.joiner.toList = if c.orJoined then orWord else andWord := by
  unfold Condition.joiner
  split <;> rfl

namespace Condition

theorem fragment_ok {l : Leaf} {b : Bool} {cs : List Condition} {f : Fragment}
    (h : (node l b cs).fragment d = .ok f) : ∃ own, l.fragment d = .ok own ∧
      ((cs = [] ∧ f = own) ∨ ∃ below, joinedFragment d cs = .ok below ∧
        f = .text "(" :: (own ++ (below ++ [.text ")"]))) := by
  unfold fragment at h
  obtain ⟨own, hl, h⟩ := result_bind_ok.1 h
  refine ⟨own, hl, ?_⟩
  cases cs with
  | nil => cases h; exact .inl ⟨rfl, rfl⟩
  | cons c cs =>
    obtain ⟨below, hb, h⟩ := result_bind_ok.1 h
    cases h
    exact .inr ⟨below, hb, by simp⟩

theorem joinedFragment_cons {c : Condition} {cs : List Condition} {f : Fragment}
    (h : joinedFragment d (c :: cs) = .ok f) : ∃ first rest, c.fragment d = .ok first ∧
      joinedFragment d cs = .ok rest ∧ f = .text c.joiner :: (first ++ rest) := by
  unfold joinedFragment at h
  obtain ⟨first, hc, h⟩ := result_bind_ok.1 h
  obtain ⟨rest, hcs, h⟩ := result_bind_ok.1 h
  cases h
  exact ⟨first, rest, hc, hcs, rfl⟩

mutual

/-- A tree is written as a primary with its comparisons and its value. -/
theorem fragment_primary : ∀ (c : Condition) {f : Fragment}, c.fragment d = .ok f →
    ∀ n, ∃ p : Primary, p.text = (f.sqlFrom d n).toList ∧
      Renders d n c.leaves p.atoms (n + f.params.length) ∧
      ∀ σ i, p.truth σ i = c.truth σ i
  | .node l b cs, f, h, n => by
    obtain ⟨own, hl, ⟨rfl, rfl⟩ | ⟨below, hb, rfl⟩⟩ := fragment_ok h
    · refine ⟨.atom (f.sqlFrom d n), rfl, .cons hl (.nil _), fun σ i => ?_⟩
      simp [Primary.truth, truth, truths, Truth.joined, Truth.split, Truth.any, Truth.all]
    · obtain ⟨ps, htext, hrenders, htruth⟩ :=
        joinedFragment_primaries cs hb (n + own.params.length)
      refine ⟨.group (.chain (.atom (own.sqlFrom d n)) ps), ?_, ?_, fun σ i => ?_⟩
      · rw [Primary.text, Disjunction.text_chain, Primary.text, htext]
        simp [Fragment.toList_sqlFrom_append, Fragment.sqlFrom]
      · rw [Primary.atoms, Disjunction.atoms_chain, Primary.atoms]
        simp only [Fragment.params_text, Fragment.params_append, Fragment.params_nil,
          List.append_nil, List.length_append, ← Nat.add_assoc]
        exact .cons hl hrenders
      · rw [Primary.truth, Disjunction.truth_chain, Primary.truth, htruth]
        rfl

/-- Trees are written one after the other as primaries with their joiners. -/
theorem joinedFragment_primaries : ∀ (cs : List Condition) {f : Fragment},
    joinedFragment d cs = .ok f → ∀ n, ∃ ps : List (Bool × Primary),
      chainText ps = (f.sqlFrom d n).toList ∧
      Renders d n (leavesOf cs) (ps.flatMap fun e => e.2.atoms) (n + f.params.length) ∧
      ∀ σ i, chainTruths σ i ps = truths σ i cs
  | [], f, h, n => by
    cases h
    exact ⟨[], rfl, .nil n, fun _ _ => rfl⟩
  | c :: cs, f, h, n => by
    obtain ⟨first, rest, hc, hcs, rfl⟩ := joinedFragment_cons h
    obtain ⟨p, htext, hrenders, htruth⟩ := fragment_primary c hc n
    obtain ⟨ps, htexts, hrenderss, htruths⟩ :=
      joinedFragment_primaries cs hcs (n + first.params.length)
    refine ⟨(c.orJoined, p) :: ps, ?_, ?_, fun σ i => ?_⟩
    · rw [toList_sqlFrom_text, Fragment.toList_sqlFrom_append, toList_joiner, ← htext, ← htexts]
      simp [chainText]
    · rw [List.flatMap_cons, leavesOf, Fragment.params_text, Fragment.params_append,
        List.length_append, ← Nat.add_assoc]
      exact hrenders.append hrenderss
    · rw [chainTruths, truths, htruth, htruths, hrenders.length_eq]

end

/-- The text of conditions has exactly one reading over written comparisons.  The comparisons
    of the reading are those of the conditions, in their order, and whatever their values are,
    the reading has the value of the conditions. -/
theorem allFragment_parses {cs : List Condition} {f : Fragment} (n : Nat) (hne : cs ≠ [])
    (h : allFragment d cs = .ok f) :
    ∃ e : Disjunction, e.Parses (Rendered d) (f.sqlFrom d n) ∧
      (∀ e' : Disjunction, e'.Parses (Rendered d) (f.sqlFrom d n) → e' = e) ∧
      Renders d n (leavesOf cs) e.atoms (n + f.params.length) ∧
      ∀ σ, e.truth σ 0 = allTruth σ cs := by
  obtain ⟨c, cs, rfl⟩ := List.exists_cons_of_ne_nil hne
  obtain ⟨first, hc, h⟩ := result_bind_ok.1 h
  obtain ⟨rest, hcs, h⟩ := result_bind_ok.1 h
  cases h
  obtain ⟨p, htext, hrenders, htruth⟩ := fragment_primary c hc n
  obtain ⟨ps, htexts, hrenderss, htruths⟩ :=
    joinedFragment_primaries cs hcs (n + first.params.length)
  have hatoms : Renders d n (leavesOf (c :: cs)) (Disjunction.chain p ps).atoms
      (n + (first ++ rest).params.length) := by
    rw [Disjunction.atoms_chain, leavesOf, Fragment.params_append, List.length_append,
      ← Nat.add_assoc]
    exact hrenders.append hrenderss
  have hparses : (Disjunction.chain p ps).Parses (Rendered d) ((first ++ rest).sqlFrom d n) := by
    refine ⟨hatoms.rendered, ?_⟩
    rw [Disjunction.text_chain, Fragment.toList_sqlFrom_append, htext, htexts]
  refine ⟨.chain p ps, hparses, fun e' he' => ?_, hatoms, fun σ => ?_⟩
  · exact Disjunction.unique (delimited_rendered d) he' hparses
  · rw [Disjunction.truth_chain, htruth, htruths, hrenders.length_eq, Nat.zero_add]
    rfl

/-- Conditions with an operator in a name, a range, and both joiners. -/
def mixed : List Condition :=
  [ofLeaf "A\" or (" .equal (.single (.int 1)),
    .node ⟨"B", .between, .range (.int 2) (.int 3), false⟩ true
      [.node ⟨"C", .isNull, .nothing, true⟩ true [], ofLeaf "D" .isTrue .nothing]]

theorem mixed_parses : ∃ f, allFragment .postgres mixed = .ok f ∧
    f.sql .postgres = "\"A\"\" or (\" = $1 or (\"B\" between $2 and $3 or " ++
      "\"C\" is not null and coalesce(\"D\",false)=true)" ∧
    ∃ e : Disjunction, e.Parses (Rendered .postgres) (f.sql .postgres) ∧
      (∀ e' : Disjunction, e'.Parses (Rendered .postgres) (f.sql .postgres) → e' = e) ∧
      Renders .postgres 1 (leavesOf mixed) e.atoms (1 + f.params.length) ∧
      ∀ σ, e.truth σ 0 = (σ 0).or ((σ 1).or ((σ 2).and (σ 3))) := by
  refine ⟨_, rfl, by decide +kernel, ?_⟩
  obtain ⟨e, hparses, hunique, hrenders, htruth⟩ :=
    @allFragment_parses .postgres mixed _ 1 (by simp [mixed]) rfl
  refine ⟨e, hparses, hunique, hrenders, fun σ => ?_⟩
  rw [htruth]
  simp [allTruth, mixed, ofLeaf, truth, truths, leaves, leavesOf, orJoined, Truth.joined,
    Truth.split, Truth.any, Truth.all]

end Condition

end RecordGraph
