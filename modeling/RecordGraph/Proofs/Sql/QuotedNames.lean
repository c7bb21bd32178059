/-
  Names in quotes in a scanned statement.

  The scan of the outer text knows nothing of doubled closing characters.  A doubled `"` ends and
  begins quotes, so the name stays hidden; after a doubled `]` the rest of the name shows.  So a
  name gives one blank for each of its characters in quotes exactly if its quotes are `Shut`
  (`outerText_quote_iff`), and then the cap that is seen in the statement, or is not seen, does not
  depend on the name.
-/
import RecordGraph.Proofs.Sql.RowLimit

namespace RecordGraph

variable {d : Dialect} {name : String} {before xs ys : List Char}

namespace Level

@[simp] theorem length_outer (l : Level) (cs : List Char) : (l.outer cs).length = cs.length := by
  induction cs generalizing l with
  | nil => simp
  | cons c cs ih => simp [outer_cons, ih]

/-- A bracket that has come in pairs is seen when it comes for the second time. -/
theorem bracket_shown {name : List Char} (h : ']' ∈ name) :
    ']' ∈ (inQuotes ']' 0).outer (Dialect.doubled ']' name) := by
  induction name with
  | nil => cases h
  | cons c name ih =>
    by_cases hc : c = ']'
    · rw [hc, Dialect.doubled_self, outer_cons, next_closing, outer_cons]
      have hshown : (inGroups 0).shown ']' = ']' := if_pos ⟨rfl, .inr rfl⟩
      rw [hshown]
      simp
    · rw [Dialect.doubled_ne hc, outer_cons, next_inQuotes hc]
      exact List.mem_cons_of_mem _ (ih ((List.mem_cons.1 h).resolve_left (Ne.symm hc)))

theorem outer_quote_iff :
    top.outer (d.quote name).toList = List.replicate (d.quote name).toList.length ' ' ↔
      d.Shut name := by
  refine ⟨fun h => ?_, fun h => (hides_quote h 0).outer⟩
  rintro rfl hbracket
  have hmem : ']' ∈ top.outer (Dialect.sqlServer.quote name).toList := by
    have hopen : top.next Dialect.sqlServer.openQuote = inQuotes ']' 0 := rfl
    rw [Dialect.toList_quote, outer_cons, hopen, outer_append]
    exact List.mem_cons_of_mem _ (List.mem_append_left _ (bracket_shown hbracket))
  rw [h] at hmem
  cases List.eq_of_mem_replicate hmem

end Level

theorem outerText_append (h : Closed before) (rest : List Char) :
    outerText (before ++ rest) = outerText before ++ outerText rest := by
  rw [← Level.top_outer, Level.outer_append, h]
  rfl

theorem words_blanks (n : Nat) (ys : List Char) :
    words (List.replicate n ' ' ++ ys) = words ys := by
  induction n with
  | zero => rfl
  | succ n ih =>
    rw [List.replicate_succ, List.cons_append]
    exact (words_space rfl [] _).trans ih

namespace Dialect

/-- How many blanks there are in a row, if there are two, makes no difference. -/
theorem hasRowLimit_blanks {text text' : List Char} {i j : Nat}
    (h : outerText text = xs ++ (List.replicate (i + 2) ' ' ++ ys))
    (h' : outerText text' = xs ++ (List.replicate (j + 2) ' ' ++ ys)) :
    d.hasRowLimit text = d.hasRowLimit text' := by
  rw [Bool.eq_iff_iff]
  cases d with
  | postgres =>
    have hwords (k : Nat) : words (xs ++ (List.replicate (k + 2) ' ' ++ ys)) =
        words xs ++ words ys := by
      rw [List.replicate_succ, List.cons_append, words_space rfl, words_blanks]
    rw [hasRowLimit_postgres, hasRowLimit_postgres, h, h', hwords, hwords]
  | sqlServer =>
    have hfound {pattern : List Char} (hrow : ¬ [' ', ' '] <:+: pattern)
        (hhead : pattern.head? ≠ some ' ') :
        pattern <:+: outerText text ↔ pattern <:+: outerText text' := by
      rw [h, h', infix_spaces_iff hrow hhead, infix_spaces_iff hrow hhead]
    rw [hasRowLimit_sqlServer, hasRowLimit_sqlServer, hfound (by decide) (by decide),
      hfound (by decide) (by decide)]

/-- At the top level of a statement a name in quotes is as many blanks in the outer text as it has
    characters, exactly if its quotes are shut.  Caps are then seen as if there were two blanks in
    the place of the name. -/
theorem outerText_quote_iff (d : Dialect) (name : String) (hb : Closed before)
    (rest : List Char) :
    (outerText (before ++ ((d.quote name).toList ++ rest)) = outerText before ++
        (List.replicate (d.quote name).toList.length ' ' ++ outerText rest) ↔ d.Shut name) ∧
    (d.Shut name → d.hasRowLimit (before ++ ((d.quote name).toList ++ rest)) =
      d.hasRowLimit (before ++ (' ' :: ' ' :: rest))) := by
  have hiff : outerText (before ++ ((d.quote name).toList ++ rest)) = outerText before ++
      (List.replicate (d.quote name).toList.length ' ' ++ outerText rest) ↔ d.Shut name := by
    rw [outerText_append hb, List.append_cancel_left_eq, ← Level.top_outer, Level.outer_append]
    constructor
    · intro h
      exact Level.outer_quote_iff.1 (List.append_inj_left h (by simp))
    · intro h
      have hhides : Level.Hides Level.top (d.quote name).toList Level.top := Level.hides_quote h 0
      rw [hhides.outer, hhides.after]
      rfl
  refine ⟨hiff, fun h => ?_⟩
  have hlength : (d.quote name).toList.length =
      (doubled d.closeQuote name.toList).length + 2 := by
    rw [toList_quote]
    simp
  have hblanks : outerText (before ++ (' ' :: ' ' :: rest)) =
      outerText before ++ (List.replicate (0 + 2) ' ' ++ outerText rest) := by
    rw [outerText_append hb]
    rfl
  have hname := hiff.2 h
  rw [hlength] at hname
  exact hasRowLimit_blanks hname hblanks

/-- The name of a table with a cap in it. -/
def cappedName : String := "a\" limit 3 b"

theorem outerText_cappedName : Closed "select * from ".toList ∧ postgres.Shut cappedName ∧
    outerText ("select * from ".toList ++ ((postgres.quote cappedName).toList ++ " x".toList)) =
      "select * from                 x".toList ∧
    postgres.hasRowLimit ("select * from ".toList ++
      ((postgres.quote cappedName).toList ++ " x".toList)) = false := by
  have hclosed : Closed "select * from ".toList := by decide
  have hshut : postgres.Shut cappedName := nofun
  obtain ⟨houter, hlimit⟩ := outerText_quote_iff postgres cappedName hclosed " x".toList
  refine ⟨hclosed, hshut, (houter.2 hshut).trans (by decide +kernel), (hlimit hshut).trans ?_⟩
  decide +kernel

/-- The quotes of this name end for the scan at the first bracket in it. -/
theorem outerText_bracket : Closed "select * from ".toList ∧
    (sqlServer.quote "a] select top b").toList = "[a]] select top b]".toList ∧
    outerText ("select * from ".toList ++ ((sqlServer.quote "a] select top b").toList ++ [])) ≠
      outerText "select * from ".toList ++ (List.replicate
        (sqlServer.quote "a] select top b").toList.length ' ' ++ outerText []) ∧
    sqlServer.hasRowLimit
      ("select * from ".toList ++ ((sqlServer.quote "a] select top b").toList ++ [])) = true ∧
    sqlServer.hasRowLimit ("select * from ".toList ++ [' ', ' ']) = false := by
  decide +kernel

end Dialect

end RecordGraph
