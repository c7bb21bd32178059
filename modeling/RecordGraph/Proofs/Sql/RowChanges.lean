/-
  Updates and deletes in the text of a statement, and what they do to tables.

  * A `Restriction` is an expression over predicates, and a `RowChange` an update or a delete of
    the rows on which a restriction holds.  A text is that of one row change at most
    (`RowChange.text_injective`): names and parameter marks end where they end, whatever is in them.
  * `RowChange.run` is what becomes of the content of a database.  A row on which the restriction
    fails, or is unknown, stays as it is.
  * `RowTest`s are the comparisons with which the statements of maps address rows, all of which
    have to hold (`holds_ofTests`).
-/
import RecordGraph.Proofs.Sql.Identifiers
import RecordGraph.Proofs.Sql.Predicates
import RecordGraph.Proofs.Sql.Rendering

namespace RecordGraph

variable {d : Dialect}

/-! ## Predicates in a larger text -/

namespace Predicate

/-- The text of a predicate as a piece of an expression. -/
def atom (d : Dialect) (p : Predicate) : String := String.ofList (p.text d)

theorem delimited (d : Dialect) : Delimited fun s => ∃ p : Predicate, p.atom d = s where
  cancel := by
    rintro _ _ r s ⟨p, rfl⟩ ⟨q, rfl⟩ hr hs h
    simp only [atom, String.toList_ofList] at h
    rw [cancel hr hs h]
  bare := by
    rintro _ cs ⟨p, rfl⟩ h
    have hhead := head_text (d := d) p
    rw [atom, String.toList_ofList] at h
    rw [h] at hhead
    cases p with
    | compares => cases d <;> simp [Dialect.openQuote] at hhead
    | _ => simp at hhead

theorem atom_injective {p q : Predicate} (h : p.atom d = q.atom d) : p = q :=
  text_injective (String.ofList_injective h)

end Predicate

/-! ## Restrictions -/

/-- An expression over predicates: its comparisons are theirs, in their order. -/
structure Restriction (d : Dialect) where
  expression : Disjunction
  predicates : List Predicate
  atoms : expression.atoms = predicates.map (·.atom d)

namespace Restriction

def text (c : Restriction d) : List Char := c.expression.text

theorem text_injective {c c' : Restriction d} (h : c.text = c'.text) : c = c' := by
  have hatoms (c : Restriction d) : ∀ a ∈ c.expression.atoms, ∃ p : Predicate, p.atom d = a := by
    intro a ha
    rw [c.atoms] at ha
    obtain ⟨p, -, hp⟩ := List.mem_map.1 ha
    exact ⟨p, hp⟩
  have hexpression : c.expression = c'.expression :=
    Disjunction.cancel (Predicate.delimited d) (hatoms c) (hatoms c') (.inl rfl) (.inl rfl)
      (congrArg (· ++ []) h)
  have hpredicates : c.predicates = c'.predicates := by
    refine List.map_injective_iff.2 (fun p q => Predicate.atom_injective (d := d)) ?_
    rw [← c.atoms, ← c'.atoms, hexpression]
  cases c
  cases c'
  cases hexpression
  cases hpredicates
  rfl

section

variable {α : Type} [LinearOrder α] (db : Database α) (param : Nat → Option α)

/-- The value of a restriction on a row. -/
def truth (row : String → Option α) (c : Restriction d) : Truth :=
  c.expression.truth
    (fun i => (c.predicates[i]?).elim .unknown fun p => p.truth db row param) 0

end

end Restriction

/-! ## Conjunctions -/

/-- Comparisons with `and` between them. -/
def Conjunction.ofAtoms (s : String) : List String → Conjunction
  | [] => .one (.atom s)
  | t :: ts => .and (.atom s) (ofAtoms t ts)

theorem Conjunction.atoms_ofAtoms (s : String) (ts : List String) :
    (ofAtoms s ts).atoms = s :: ts := by
  induction ts generalizing s with
  | nil => rfl
  | cons t ts ih => rw [ofAtoms, atoms, ih]; rfl

theorem Truth.and_eq_holds {x y : Truth} : x.and y = .holds ↔ x = .holds ∧ y = .holds := by
  cases x <;> cases y <;> simp [Truth.and]

theorem Conjunction.truth_ofAtoms {σ : Nat → Truth} {i : Nat} (s : String) (ts : List String) :
    (ofAtoms s ts).truth σ i = .holds ↔ ∀ j, j ≤ ts.length → σ (i + j) = .holds := by
  induction ts generalizing s i with
  | nil => simp [ofAtoms, truth, Primary.truth]
  | cons t ts ih =>
    rw [ofAtoms, truth, Truth.and_eq_holds, ih]
    constructor
    · rintro ⟨hfirst, hrest⟩ (_ | j) hj
      · exact hfirst
      · have hnext := hrest j (Nat.le_of_succ_le_succ hj)
        rwa [Primary.atoms, List.length_singleton, Nat.add_assoc, Nat.add_comm 1 j] at hnext
    · intro hall
      refine ⟨hall 0 (Nat.zero_le _), fun j hj => ?_⟩
      rw [Primary.atoms, List.length_singleton, Nat.add_assoc, Nat.add_comm 1 j]
      exact hall (j + 1) (Nat.succ_le_succ hj)

/-- The text of predicates with `and` between them. -/
def Predicate.allText (d : Dialect) : List Predicate → List Char
  | [] => []
  | [p] => p.text d
  | p :: q :: ps => p.text d ++ (andWord ++ allText d (q :: ps))

namespace Restriction

/-- The restriction to the rows on which all of some predicates hold. -/
def all : (ps : List Predicate) → ps ≠ [] → Restriction d
  | p :: ps, _ => ⟨.one (.ofAtoms (p.atom d) (ps.map (Predicate.atom d))), p :: ps,
      Conjunction.atoms_ofAtoms (p.atom d) (ps.map (Predicate.atom d))⟩

theorem text_all {ps : List Predicate} (h : ps ≠ []) :
    (all ps h : Restriction d).text = Predicate.allText d ps := by
  cases ps with
  | nil => exact absurd rfl h
  | cons p ps =>
    have hatom (p : Predicate) : (p.atom d).toList = p.text d := String.toList_ofList
    simp only [all, text, Disjunction.text]
    clear h
    induction ps generalizing p with
    | nil => exact hatom p
    | cons q ps ih =>
      rw [List.map_cons, Conjunction.ofAtoms, Conjunction.text, ih, Primary.text, hatom]
      rfl

theorem truth_all {α : Type} [LinearOrder α] {db : Database α} {param : Nat → Option α}
    {row : String → Option α} {ps : List Predicate} (h : ps ≠ []) :
    (all ps h : Restriction d).truth db param row = Truth.holds ↔
      ∀ p ∈ ps, p.truth db row param = .holds := by
  cases ps with
  | nil => exact absurd rfl h
  | cons p ps =>
    simp only [all, truth, Disjunction.truth, Conjunction.truth_ofAtoms, List.length_map,
      Nat.zero_add]
    constructor
    · intro hall q hq
      obtain ⟨j, hj, rfl⟩ := List.mem_iff_getElem.1 hq
      have hholds := hall j (Nat.le_of_lt_succ hj)
      rwa [List.getElem?_eq_getElem hj] at hholds
    · intro hall j hj
      have hlt : j < (p :: ps).length := Nat.lt_succ_of_le hj
      rw [List.getElem?_eq_getElem hlt]
      exact hall _ (List.getElem_mem hlt)

end Restriction

/-! ## Row changes -/

/-- An update or a delete of the rows on which a restriction holds.  An update assigns parameters,
    counted from zero, to columns. -/
inductive RowChange (d : Dialect) where
  | update (table : Ident) (sets : List (String × Nat)) (rows : Restriction d)
  | delete (table : Ident) (rows : Restriction d)

namespace RowChange

/-- Assignments with commas between them. -/
def setsText (d : Dialect) : List (String × Nat) → List Char
  | [] => []
  | [(column, k)] =>
    (d.quote column).toList ++ (" = ".toList ++ (d.placeholder (k + 1)).toList)
  | (column, k) :: set :: sets =>
    (d.quote column).toList ++ (" = ".toList ++ ((d.placeholder (k + 1)).toList ++
      (", ".toList ++ setsText d (set :: sets))))

def text : RowChange d → List Char
  | update table sets rows =>
    "update ".toList ++ ((table.sql d).toList ++ (" set ".toList ++
      (setsText d sets ++ (" where ".toList ++ rows.text))))
  | delete table rows =>
    "delete from ".toList ++ ((table.sql d).toList ++ (" where ".toList ++ rows.text))

theorem text_update (table : Ident) (sets : List (String × Nat)) (rows : Restriction d) :
    (update table sets rows).text = "update ".toList ++ ((table.sql d).toList ++
      (" set ".toList ++ (setsText d sets ++ (" where ".toList ++ rows.text)))) := rfl

theorem text_delete (table : Ident) (rows : Restriction d) : (delete table rows).text =
    "delete from ".toList ++ ((table.sql d).toList ++ (" where ".toList ++ rows.text)) := rfl

/-- The parts of a name after its first, each after a point. -/
def moreParts (d : Dialect) : List String → List Char
  | [] => []
  | p :: ps => '.' :: (Ident.sql d ⟨p :: ps⟩).toList

theorem toList_sql (p : String) (ps : List String) :
    (Ident.sql d ⟨p :: ps⟩).toList = (d.quote p).toList ++ moreParts d ps := by
  cases ps with
  | nil => rw [Ident.toList_sql_single, moreParts, List.append_nil]
  | cons q ps => exact Ident.toList_sql_cons p q ps

theorem head_moreParts (ps : List String) (r : List Char) :
    (moreParts d ps ++ ' ' :: r).head? ≠ some d.closeQuote := by
  cases ps <;> cases d <;> simp [moreParts, Dialect.closeQuote]

/-- A quoted name does not start with a blank. -/
theorem quote_ne_blank (name : String) (r s : List Char) :
    (d.quote name).toList ++ r ≠ ' ' :: s := by
  rw [Dialect.toList_quote]
  intro h
  have hblank : d.openQuote ≠ ' ' := by cases d <;> decide
  exact hblank (List.cons.inj h).1

theorem parts_cancel {ps qs : List String} {r s : List Char}
    (h : (Ident.sql d ⟨ps⟩).toList ++ ' ' :: r = (Ident.sql d ⟨qs⟩).toList ++ ' ' :: s) :
    ps = qs ∧ r = s := by
  have hempty : (Ident.sql d ⟨[]⟩).toList = [] := rfl
  induction ps generalizing qs with
  | nil =>
    cases qs with
    | nil => exact ⟨rfl, (List.cons.inj h).2⟩
    | cons q qs =>
      rw [toList_sql, List.append_assoc] at h
      exact absurd h.symm (quote_ne_blank q _ _)
  | cons p ps ih =>
    cases qs with
    | nil =>
      rw [toList_sql, List.append_assoc] at h
      exact absurd h (quote_ne_blank p _ _)
    | cons q qs =>
      rw [toList_sql, toList_sql, List.append_assoc, List.append_assoc] at h
      obtain ⟨rfl, hrest⟩ := Dialect.quote_cancel (head_moreParts _ _) (head_moreParts _ _) h
      cases ps with
      | nil =>
        cases qs with
        | nil => exact ⟨rfl, (List.cons.inj hrest).2⟩
        | cons q' qs => cases (List.cons.inj hrest).1
      | cons p' ps =>
        cases qs with
        | nil => cases (List.cons.inj hrest).1
        | cons q' qs =>
          obtain ⟨hparts, hrs⟩ := ih (List.cons.inj hrest).2
          exact ⟨congrArg _ hparts, hrs⟩

/-- A name of a table ends at the first blank outside of quotes. -/
theorem ident_cancel {i j : Ident} {r s : List Char}
    (h : (i.sql d).toList ++ ' ' :: r = (j.sql d).toList ++ ' ' :: s) : i = j ∧ r = s := by
  obtain ⟨hparts, hrs⟩ := parts_cancel h
  cases i
  cases j
  exact ⟨congrArg _ hparts, hrs⟩

/-- What follows the first assignment. -/
def moreSets (d : Dialect) : List (String × Nat) → List Char
  | [] => []
  | set :: sets => ", ".toList ++ setsText d (set :: sets)

theorem setsText_cons (column : String) (k : Nat) (sets : List (String × Nat)) :
    setsText d ((column, k) :: sets) = (d.quote column).toList ++
      (" = ".toList ++ ((d.placeholder (k + 1)).toList ++ moreSets d sets)) := by
  cases sets with
  | nil => rw [setsText, moreSets, List.append_nil]
  | cons set sets => rfl

theorem noDigit_moreSets (sets : List (String × Nat)) (r : List Char) :
    NoDigit (moreSets d sets ++ (" where ".toList ++ r)) := by
  cases sets <;> exact noDigit_cons rfl

theorem setsText_cancel {sets sets' : List (String × Nat)} {r s : List Char}
    (h : setsText d sets ++ (" where ".toList ++ r) = setsText d sets' ++ (" where ".toList ++ s)) :
    sets = sets' ∧ r = s := by
  induction sets generalizing sets' with
  | nil =>
    cases sets' with
    | nil => exact ⟨rfl, List.append_cancel_left (List.append_cancel_left h)⟩
    | cons set' sets' =>
      rw [setsText_cons, List.append_assoc] at h
      exact absurd h.symm (quote_ne_blank set'.1 _ _)
  | cons set sets ih =>
    cases sets' with
    | nil =>
      rw [setsText_cons, List.append_assoc] at h
      exact absurd h (quote_ne_blank set.1 _ _)
    | cons set' sets' =>
      obtain ⟨column, k⟩ := set
      obtain ⟨column', k'⟩ := set'
      rw [setsText_cons, setsText_cons] at h
      simp only [List.append_assoc] at h
      obtain ⟨rfl, hset⟩ := Dialect.quote_cancel (head_ne_closeQuote rfl (.inl rfl))
        (head_ne_closeQuote rfl (.inl rfl)) h
      obtain ⟨rfl, hrest⟩ := Dialect.mark_cancel (noDigit_moreSets _ _) (noDigit_moreSets _ _)
        (List.append_cancel_left hset)
      cases sets with
      | nil =>
        cases sets' with
        | nil => exact ⟨rfl, List.append_cancel_left (List.append_cancel_left hrest)⟩
        | cons set' sets' => cases (List.cons.inj hrest).1
      | cons set sets =>
        cases sets' with
        | nil => cases (List.cons.inj hrest).1
        | cons set' sets' =>
          simp only [moreSets, List.append_assoc] at hrest
          obtain ⟨hsets, hrs⟩ := ih (List.append_cancel_left hrest)
          exact ⟨congrArg _ hsets, hrs⟩

theorem text_injective {w w' : RowChange d} (h : w.text = w'.text) : w = w' := by
  cases w with
  | update table sets rows =>
    cases w' with
    | update table' sets' rows' =>
      obtain ⟨rfl, hsets⟩ := ident_cancel (List.append_cancel_left h)
      obtain ⟨rfl, hrows⟩ := setsText_cancel (List.append_cancel_left hsets)
      rw [Restriction.text_injective hrows]
    | delete => cases h
  | delete table rows =>
    cases w' with
    | update => cases h
    | delete table' rows' =>
      obtain ⟨rfl, hrows⟩ := ident_cancel (List.append_cancel_left h)
      rw [Restriction.text_injective (List.append_cancel_left hrows)]

/-- The text is that of the row change and of no other. -/
def Reads (w : RowChange d) (s : String) : Prop :=
  w.text = s.toList ∧ ∀ w' : RowChange d, w'.text = s.toList → w' = w

theorem reads_iff {w : RowChange d} {s : String} : w.Reads s ↔ w.text = s.toList :=
  ⟨And.left, fun h => ⟨h, fun _ hw => text_injective (hw.trans h.symm)⟩⟩

end RowChange

/-! ## What becomes of tables -/

/-- The rows of every table. -/
abbrev Content (α : Type) := Ident → List (String → Option α)

/-- Changes the rows of one table. -/
def Content.alter {α : Type} (content : Content α) (table : Ident)
    (f : List (String → Option α) → List (String → Option α)) : Content α :=
  fun t => if t = table then f (content t) else content t

section

variable {α : Type} [LinearOrder α] (db : Database α) (param : Nat → Option α)

/-- A row after the assignments to its columns. -/
def assigned (sets : List (String × Nat)) (row : String → Option α) : String → Option α :=
  fun column => match sets.lookup column with
    | some k => param k
    | none => row column

/-- The content after a row change.  One that assigns to a column twice is refused. -/
def RowChange.run (content : Content α) : RowChange d → Option (Content α)
  | update table sets rows =>
    if (sets.map Prod.fst).Nodup then
      some (content.alter table fun rs => rs.map fun row =>
        if rows.truth db param row = .holds then assigned param sets row else row)
    else none
  | delete table rows =>
    some (content.alter table fun rs => rs.filter fun row =>
      !decide (rows.truth db param row = .holds))

end

/-! ## Tests -/

/-- A comparison of a column with a value, or with null. -/
structure RowTest where
  column : String
  value : Option Value

namespace RowTest

/-- The test holds on a row: the column equals the value, or is null. -/
def passes {α : Type} [DecidableEq α] (stored : Value → Option α) (row : String → Option α)
    (t : RowTest) : Bool :=
  match t.value with
  | some v => compared (fun x y => decide (x = y)) (row t.column) (stored v) = .holds
  | none => (row t.column).isNone

/-- The values of tests, in their order. -/
def values (ts : List RowTest) : List Value := ts.flatMap (·.value.toList)

/-- The predicate of a test whose parameter is the `k`-th. -/
def predicate (k : Nat) (t : RowTest) : Predicate :=
  match t.value with
  | some _ => .compares t.column (.order .equal) (.one k)
  | none => .compares t.column (.isNull false) .none

/-- The predicates of tests, whose first parameter is the `k`-th. -/
def predicates (k : Nat) : List RowTest → List Predicate
  | [] => []
  | t :: ts => t.predicate k :: predicates (k + t.value.toList.length) ts

theorem predicates_ne_nil {ts : List RowTest} (k : Nat) (h : ts ≠ []) : predicates k ts ≠ [] := by
  cases ts with
  | nil => exact absurd rfl h
  | cons t ts => exact List.cons_ne_nil _ _

section

variable {α : Type} [LinearOrder α] {db : Database α} {param : Nat → Option α}
  {stored : Value → Option α} {row : String → Option α} {k : Nat}

/-- The predicate of a test holds just where the test does. -/
theorem predicate_holds {t : RowTest} (hparam : ∀ v ∈ t.value, param k = stored v) :
    (t.predicate k).truth db row param = .holds ↔ t.passes stored row = true := by
  obtain ⟨column, _ | v⟩ := t
  · simp only [predicate, passes, Predicate.truth, Comparator.truth, Truth.negatedIf, Truth.of]
    split <;> simp_all
  · have htruth : (Predicate.compares column (.order .equal) (.one k)).truth db row param =
        compared (fun x y => decide (x = y)) (row column) (stored v) := by
      rw [← hparam v rfl]
      rfl
    rw [predicate, htruth, passes, decide_eq_true_iff]

theorem predicates_hold {ts : List RowTest}
    (hparam : ∀ j, param (k + j) = ((values ts)[j]?).bind stored) :
    (∀ p ∈ predicates k ts, p.truth db row param = .holds) ↔
      ts.all (passes stored row) = true := by
  induction ts generalizing k with
  | nil => simp [predicates]
  | cons t ts ih =>
    have hfirst : ∀ v ∈ t.value, param k = stored v := by
      intro v hv
      have hk := hparam 0
      simpa [values, Option.mem_def.1 hv] using hk
    have hrest : ∀ j, param (k + t.value.toList.length + j) = ((values ts)[j]?).bind stored := by
      intro j
      rw [Nat.add_assoc, hparam, values, List.flatMap_cons,
        List.getElem?_append_right (Nat.le_add_right _ _), Nat.add_sub_cancel_left]
      rfl
    rw [predicates, List.forall_mem_cons, predicate_holds hfirst, ih hrest, List.all_cons,
      Bool.and_eq_true]

end

/-- A fragment is the text of a test, and binds its value. -/
structure Means (d : Dialect) (f : Fragment) (t : RowTest) : Prop where
  text (k : Nat) : (f.sqlFrom d (k + 1)).toList = (t.predicate k).text d
  params : f.params = t.value.toList

variable {piece : RowTest → Fragment}

theorem params_joined {ts : List RowTest} (h : ∀ t ∈ ts, Means d (piece t) t) :
    (Fragment.joined " and " (ts.map piece)).params = values ts := by
  rw [Fragment.params_joined, List.flatMap_map, values]
  exact List.flatMap_congr fun t ht => (h t ht).params

/-- The text of tests with `and` between them. -/
theorem text_joined {ts : List RowTest} (h : ∀ t ∈ ts, Means d (piece t) t) (k : Nat) :
    ((Fragment.joined " and " (ts.map piece)).sqlFrom d (k + 1)).toList =
      Predicate.allText d (predicates k ts) := by
  induction ts generalizing k with
  | nil => rfl
  | cons t ts ih =>
    rw [List.forall_mem_cons] at h
    cases ts with
    | nil => exact h.1.text k
    | cons t' ts =>
      have hrest := ih h.2 (k + t.value.toList.length)
      simp only [List.map_cons, predicates] at hrest
      simp only [List.map_cons, Fragment.joined, predicates, Predicate.allText]
      rw [Fragment.toList_sqlFrom_append, toList_sqlFrom_text, h.1.text, h.1.params,
        Nat.add_right_comm, hrest]
      rfl

end RowTest

end RecordGraph
