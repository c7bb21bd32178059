/-
  Caps put on a statement once and again.

  A cap is looked for in the outer text, and put after the first `select` of the whole text, or at
  its end.  The two agree if the `select` is at the top level: the cap is then found again
  (`hasRowLimit_top`), and is not if it has gone into quotes or a group, where it does not show
  (`hasRowLimit_nested`).  So a cap stays the only one exactly if it is not `CapsNested`.
-/
import RecordGraph.Proofs.Sql.OuterText
import RecordGraph.Proofs.Text.Words

namespace RecordGraph

variable {d : Dialect} {n m i : Nat} {sql : String} {pattern before word rest cs xs ys : List Char}

/-! ## Spaces in a row -/

/-- A pattern without spaces in a row, and none at its beginning, is found beside a run of spaces
    however long the run is. -/
theorem infix_spaces_iff (hrow : ¬ [' ', ' '] <:+: pattern) (hhead : pattern.head? ≠ some ' ')
    (i : Nat) : pattern <:+: xs ++ (List.replicate (i + 2) ' ' ++ ys) ↔
      pattern <:+: xs ++ [' '] ∨ pattern <:+: ys := by
  have hskip (j : Nat) : pattern <:+: List.replicate j ' ' ++ ys → pattern <:+: ys := by
    induction j with
    | zero => exact id
    | succ j ih =>
      rw [List.replicate_succ, List.cons_append, List.infix_cons_iff]
      rintro (⟨t, ht⟩ | h)
      · cases pattern with
        | nil => exact List.nil_infix
        | cons c pattern => exact absurd (congrArg some (List.cons.inj ht).1) hhead
      · exact ih h
  have hsplit : xs ++ (List.replicate (i + 2) ' ' ++ ys) =
      (xs ++ [' ']) ++ (List.replicate (i + 1) ' ' ++ ys) := by
    simp [List.replicate_succ]
  rw [hsplit]
  constructor
  · rw [List.infix_append_iff]
    rintro (h | h | ⟨p, q, rfl, hp, hq⟩)
    · exact .inl h
    · exact .inr (hskip _ h)
    · -- The pattern would go on from one space to the next.
      rcases List.eq_nil_or_concat p with rfl | ⟨p, c, rfl⟩
      · exact .inr (hskip _ hq.isInfix)
      cases q with
      | nil =>
        rw [List.append_nil]
        exact .inl hp.isInfix
      | cons c' q =>
        obtain ⟨t, ht⟩ := hp
        obtain ⟨t', ht'⟩ := hq
        rw [List.concat_eq_append, ← List.append_assoc] at ht
        obtain rfl : c = ' ' := by simpa using (List.append_inj' ht rfl).2
        obtain rfl : c' = ' ' := (List.cons.inj ht').1
        refine absurd ⟨p, q, ?_⟩ hrow
        simp
  · rintro (h | h)
    · exact h.trans (List.prefix_append _ _).isInfix
    · exact h.trans ((List.suffix_append _ _).trans (List.suffix_append _ _)).isInfix

/-! ## Caps that are found -/

/-- The quotes and groups of the text are closed at its end. -/
def Closed (cs : List Char) : Prop := Level.top.after cs = Level.top

instance (cs : List Char) : Decidable (Closed cs) := inferInstanceAs (Decidable (_ = _))

namespace Dialect

/-- The text of a cap. -/
def capText : Dialect → Nat → String
  | postgres, n => " limit " ++ toString n
  | sqlServer, n => "top " ++ toString n ++ " "

theorem hasRowLimit_postgres :
    postgres.hasRowLimit cs = true ↔ "limit".toList ∈ words (outerText cs) := by
  simp [hasRowLimit]

theorem hasRowLimit_sqlServer : sqlServer.hasRowLimit cs = true ↔
    "select top ".toList <:+: outerText cs ∨ "distinct top ".toList <:+: outerText cs := by
  simp only [hasRowLimit, Bool.or_eq_true, isSome_cutAtFirst]

/-- A cap is still found when the text goes on after a space. -/
theorem hasRowLimit_space (h : d.hasRowLimit cs = true) (ys : List Char) :
    d.hasRowLimit (cs ++ ' ' :: ys) = true := by
  have hspace (l : Level) : l.shown ' ' = ' ' := by
    unfold Level.shown
    split <;> rfl
  have houter : outerText (cs ++ ' ' :: ys) =
      outerText cs ++ ' ' :: ((Level.top.after cs).next ' ').outer ys := by
    rw [← Level.top_outer, Level.outer_append, Level.outer_cons, hspace, Level.top_outer]
  cases d with
  | postgres =>
    rw [hasRowLimit_postgres] at h ⊢
    rw [houter, words_space rfl]
    exact List.mem_append_left _ h
  | sqlServer =>
    rw [hasRowLimit_sqlServer] at h ⊢
    rw [houter]
    have hwithin (tail : List Char) : outerText cs <:+: outerText cs ++ tail :=
      (List.prefix_append _ _).isInfix
    exact h.imp (·.trans (hwithin _)) (·.trans (hwithin _))

theorem unmarked_capText (d : Dialect) (n : Nat) : Unmarked (d.capText n).toList := by
  cases d with
  | postgres =>
    rw [capText, String.toList_append, unmarked_append]
    exact ⟨by decide, unmarked_toString n⟩
  | sqlServer =>
    rw [capText, String.toList_append, String.toList_append, unmarked_append, unmarked_append]
    exact ⟨⟨by decide, unmarked_toString n⟩, by decide⟩

/-- A cap at the end is found. -/
theorem hasRowLimit_limit (h : Closed cs) (n : Nat) :
    postgres.hasRowLimit (cs ++ (postgres.capText n).toList) = true := by
  have hcap : (postgres.capText n).toList.map Char.toLower =
      ' ' :: ("limit".toList ++ ' ' :: (toString n).toList.map Char.toLower) := by
    simp [capText]
  have hword : words "limit".toList = ["limit".toList] := by decide
  rw [hasRowLimit_postgres, ← Level.top_outer, Level.outer_append, h,
    Level.outer_unmarked (unmarked_capText _ n), hcap, words_space rfl, words_space rfl, hword]
  simp

/-- The words after which a cap is put. -/
def SelectWords (word : List Char) : Prop :=
  word.map Char.toLower = "select ".toList ∨ word.map Char.toLower = "select distinct ".toList

theorem SelectWords.unmarked (h : SelectWords word) : Unmarked word := by
  have hlower : Unmarked (word.map Char.toLower) := by
    rcases h with h | h <;> rw [h] <;> decide
  intro c hc
  have hc := hlower _ (List.mem_map_of_mem hc)
  by_contra hmark
  rw [Bool.not_eq_false] at hmark
  simp only [isMark, Bool.or_eq_true, beq_iff_eq] at hmark
  rcases hmark with ((((rfl | rfl) | rfl) | rfl) | rfl) | rfl <;> cases hc

theorem lower_capText (n : Nat) : ∃ ds, (sqlServer.capText n).toList.map Char.toLower =
    "top ".toList ++ ds := by
  refine ⟨((toString n).toList ++ [' ']).map Char.toLower, ?_⟩
  simp [capText]

/-- A cap at the top level is found. -/
theorem hasRowLimit_top (hb : Closed before) (hw : SelectWords word) (n : Nat) :
    sqlServer.hasRowLimit (before ++ (word ++ ((sqlServer.capText n).toList ++ rest))) = true := by
  obtain ⟨ds, hds⟩ := lower_capText n
  rw [hasRowLimit_sqlServer, ← Level.top_outer, Level.outer_append, hb, Level.outer_append,
    Level.outer_unmarked hw.unmarked, Level.after_unmarked Level.valid_top hw.unmarked,
    Level.outer_append, Level.outer_unmarked (unmarked_capText _ n), hds]
  generalize (Level.top.after _).outer rest = tail
  rcases hw with hw | hw <;> rw [hw]
  · exact .inl ⟨Level.top.outer before, ds ++ tail, by simp⟩
  · exact .inr ⟨Level.top.outer before ++ "select ".toList, ds ++ tail, by simp⟩

/-- In quotes or in a group a cap makes no difference. -/
theorem hasRowLimit_nested (hb : ¬ Closed before) (hw : SelectWords word) (n : Nat) :
    sqlServer.hasRowLimit (before ++ (word ++ ((sqlServer.capText n).toList ++ rest))) =
      sqlServer.hasRowLimit (before ++ (word ++ rest)) := by
  have hvalid := Level.valid_top.after before
  have hword := Level.hides_unmarked hvalid hb hw.unmarked
  have hcap := Level.hides_unmarked hvalid hb (unmarked_capText .sqlServer n)
  obtain ⟨i, hi⟩ : ∃ i, word.length = i + 2 := by
    rcases hw with hw | hw
    · exact ⟨5, by rw [← List.length_map Char.toLower, hw]; rfl⟩
    · exact ⟨14, by rw [← List.length_map Char.toLower, hw]; rfl⟩
  have hfound {pattern : List Char} (hrow : ¬ [' ', ' '] <:+: pattern)
      (hhead : pattern.head? ≠ some ' ') :
      pattern <:+: outerText (before ++ (word ++ ((sqlServer.capText n).toList ++ rest))) ↔
        pattern <:+: outerText (before ++ (word ++ rest)) := by
    have hspaces (j : Nat) (ys : List Char) : List.replicate (i + 2) ' ' ++
        (List.replicate j ' ' ++ ys) = List.replicate (i + j + 2) ' ' ++ ys := by
      rw [← List.append_assoc, ← List.replicate_add, Nat.add_right_comm]
    simp only [← Level.top_outer, Level.outer_append, hword.outer, hword.after, hcap.outer,
      hcap.after, hi, hspaces]
    rw [infix_spaces_iff hrow hhead, infix_spaces_iff hrow hhead]
  rw [Bool.eq_iff_iff, hasRowLimit_sqlServer, hasRowLimit_sqlServer,
    hfound (by decide) (by decide), hfound (by decide) (by decide)]

/-! ## Where a cap is put -/

/-- A cap is put after the first `select`, and after a `distinct` that follows it, if there is a
    `select`. -/
theorem insertTop_cases (cs : List Char) :
    (cutAtFirst "select ".toList (cs.map Char.toLower) = none ∧ ∀ n, insertTop n cs = cs) ∨
    ∃ before word rest after, cs = before ++ (word ++ rest) ∧ SelectWords word ∧
      cutAtFirst "select ".toList (cs.map Char.toLower) = some (before.map Char.toLower, after) ∧
      ∀ n, insertTop n cs = before ++ (word ++ ((sqlServer.capText n).toList ++ rest)) := by
  unfold insertTop
  cases hcut : cutAtFirst "select ".toList (cs.map Char.toLower) with
  | none => exact .inl ⟨rfl, fun _ => rfl⟩
  | some found =>
    obtain ⟨lower, after⟩ := found
    obtain ⟨before, tail, rfl, rfl, htail⟩ := List.map_eq_append_iff.1 (cutAtFirst_eq_some hcut)
    obtain ⟨sel, rest, rfl, hsel, rfl⟩ := List.map_eq_append_iff.1 htail
    have hlength : sel.length = 7 := by rw [← List.length_map Char.toLower, hsel]; rfl
    right
    have hselect : (before.map Char.toLower).length + "select ".toList.length =
        (before ++ sel).length := by
      rw [← hsel]
      simp
    have hput (xs ys : List Char) (n : Nat) : (xs ++ ys).take xs.length ++
        ("top " ++ toString n ++ " ").toList ++ (xs ++ ys).drop xs.length =
          xs ++ ((sqlServer.capText n).toList ++ ys) := by
      rw [List.take_left, List.drop_left, List.append_assoc]
      rfl
    by_cases hd : "distinct ".toList.isPrefixOf (rest.map Char.toLower) = true
    · obtain ⟨t, ht⟩ := List.isPrefixOf_iff_prefix.1 hd
      obtain ⟨dist, rest, rfl, hdist, -⟩ := List.map_eq_append_iff.1 ht.symm
      have hdistinct : (before ++ sel).length + "distinct ".toList.length =
          (before ++ (sel ++ dist)).length := by
        rw [← hdist]
        simp [Nat.add_assoc]
      refine ⟨before, sel ++ dist, rest, _, by simp, .inr ?_, rfl, fun n => ?_⟩
      · rw [List.map_append, hsel, hdist]
        rfl
      · have htext : before ++ (sel ++ (dist ++ rest)) = (before ++ (sel ++ dist)) ++ rest := by
          simp
        simp only [if_pos hd, hselect, hdistinct, htext, hput]
        simp
    · refine ⟨before, sel, rest, _, rfl, .inl hsel, rfl, fun n => ?_⟩
      simp only [if_neg hd, hselect, ← List.append_assoc before sel, hput]

/-- The first `select`, after which a cap is put, is in quotes or in a group. -/
def SelectNested (cs : List Char) : Prop :=
  ∃ before after, cutAtFirst "select ".toList (cs.map Char.toLower) = some (before, after) ∧
    ¬ Closed (cs.take before.length)

/-- A cap that the text gets goes into quotes or into a group. -/
def CapsNested (d : Dialect) (sql : String) : Prop :=
  d = sqlServer ∧ d.hasRowLimit sql.toList = false ∧ SelectNested sql.toList

/-! ## One cap after the other -/

theorem applyRowLimit_limited (h : d.hasRowLimit sql.toList = true) (n : Nat) :
    d.applyRowLimit sql n = sql := if_pos (.inr h)

theorem applyRowLimit_zero (d : Dialect) (sql : String) : d.applyRowLimit sql 0 = sql :=
  if_pos (.inl rfl)

theorem applyRowLimit_postgres (hn : n ≠ 0) (h : postgres.hasRowLimit sql.toList = false) :
    postgres.applyRowLimit sql n = sql ++ postgres.capText n := by
  rw [applyRowLimit, if_neg (by simp [hn, h]), capText, String.append_assoc]

theorem applyRowLimit_sqlServer (hn : n ≠ 0) (h : sqlServer.hasRowLimit sql.toList = false) :
    sqlServer.applyRowLimit sql n = String.ofList (insertTop n sql.toList) := by
  rw [applyRowLimit, if_neg (by simp [hn, h])]

/-- Where there is a `select`, a cap is put. -/
theorem insertTop_ne (h : "select ".toList <:+: cs.map Char.toLower) (n : Nat) :
    insertTop n cs ≠ cs := by
  rcases insertTop_cases cs with ⟨hnone, -⟩ | ⟨before, word, rest, _, rfl, -, -, hput⟩
  · rw [← isSome_cutAtFirst, hnone] at h
    cases h
  · intro heq
    have hlength := congrArg List.length heq
    simp only [hput, List.length_append, capText, String.toList_append] at hlength
    simp at hlength

theorem SelectWords.select_infix (h : SelectWords word) :
    "select ".toList <:+: word.map Char.toLower := by
  rcases h with h | h
  · rw [h]
  · exact ⟨[], "distinct ".toList, by rw [h]; rfl⟩

/-- Every cap goes to one place of the text.  It is found there if the place is at the top level;
    if not, another cap will be put beside it. -/
structure PutAt (d : Dialect) (sql before rest : String) : Prop where
  text : sql = before ++ rest
  put : ∀ n, n ≠ 0 → d.applyRowLimit sql n = before ++ d.capText n ++ rest
  nested : Closed before.toList ↔ ¬ d.CapsNested sql
  found : Closed before.toList → ∀ n,
    d.hasRowLimit (before ++ d.capText n ++ rest).toList = true
  again : ¬ Closed before.toList → ∀ n,
    d.applyRowLimit (before ++ d.capText n ++ rest) 1 ≠ before ++ d.capText n ++ rest

theorem putAt_end (hclosed : Closed sql.toList) (h : postgres.hasRowLimit sql.toList = false) :
    PutAt postgres sql sql "" where
  text := by simp
  put n hn := by rw [applyRowLimit_postgres hn h, String.append_empty]
  nested := iff_of_true hclosed fun hnested => nomatch hnested.1
  found _ n := by
    rw [String.append_empty, String.toList_append]
    exact hasRowLimit_limit hclosed n
  again hopen := absurd hclosed hopen

theorem putAt_select {after : List Char} (hsql : sql.toList = before ++ (word ++ rest))
    (h : sqlServer.hasRowLimit sql.toList = false) (hw : SelectWords word)
    (hcut : cutAtFirst "select ".toList (sql.toList.map Char.toLower) =
      some (before.map Char.toLower, after))
    (hput : ∀ n, insertTop n sql.toList =
      before ++ (word ++ ((sqlServer.capText n).toList ++ rest))) :
    PutAt sqlServer sql (String.ofList (before ++ word)) (String.ofList rest) := by
  have htext (n : Nat) : (String.ofList (before ++ word) ++ sqlServer.capText n ++
      String.ofList rest).toList = before ++ (word ++ ((sqlServer.capText n).toList ++ rest)) := by
    simp
  have hclosed : Closed (String.ofList (before ++ word)).toList ↔ Closed before := by
    rw [String.toList_ofList, Closed, Level.after_append,
      Level.after_unmarked (Level.valid_top.after before) hw.unmarked]
    rfl
  refine ⟨?_, fun n hn => ?_, ?_, fun hb n => ?_, fun hb n => ?_⟩
  · rw [← String.toList_inj, hsql]
    simp
  · rw [applyRowLimit_sqlServer hn h, hput, ← htext, String.ofList_toList]
  · have htake : sql.toList.take (before.map Char.toLower).length = before := by
      rw [hsql, List.length_map, List.take_left]
    have hnested : SelectNested sql.toList ↔ ¬ Closed before := by
      constructor
      · rintro ⟨b, a, hba, hopen⟩
        rw [hcut] at hba
        cases hba
        rwa [htake] at hopen
      · exact fun hopen => ⟨_, _, hcut, by rwa [htake]⟩
    rw [hclosed, CapsNested, hnested]
    simp [h]
  · rw [htext]
    exact hasRowLimit_top (hclosed.1 hb) hw n
  · have hlimit : sqlServer.hasRowLimit
        (before ++ (word ++ ((sqlServer.capText n).toList ++ rest))) = false := by
      rw [hasRowLimit_nested (mt hclosed.2 hb) hw, ← hsql, h]
    rw [← htext] at hlimit
    rw [applyRowLimit_sqlServer (by decide) hlimit, ne_eq, ← String.toList_inj,
      String.toList_ofList, htext]
    refine insertTop_ne ?_ 1
    rw [List.map_append, List.map_append]
    exact hw.select_infix.trans
      ((List.prefix_append _ _).isInfix.trans (List.suffix_append _ _).isInfix)

/-- A closed text gets no cap, or each cap at the same place. -/
theorem putAt_of_closed (d : Dialect) (hclosed : Closed sql.toList) :
    (¬ d.CapsNested sql ∧ ∀ n, d.applyRowLimit sql n = sql) ∨
      ∃ before rest, PutAt d sql before rest := by
  cases hlimit : d.hasRowLimit sql.toList with
  | true =>
    refine .inl ⟨?_, applyRowLimit_limited hlimit⟩
    rintro ⟨-, hfree, -⟩
    rw [hlimit] at hfree
    cases hfree
  | false =>
    cases d with
    | postgres => exact .inr ⟨sql, "", putAt_end hclosed hlimit⟩
    | sqlServer =>
      rcases insertTop_cases sql.toList with ⟨hnone, hput⟩ |
        ⟨before, word, rest, after, hsql, hw, hcut, hput⟩
      · refine .inl ⟨?_, fun n => ?_⟩
        · rintro ⟨-, -, before, after, hcut, -⟩
          rw [hnone] at hcut
          cases hcut
        · rcases eq_or_ne n 0 with rfl | hn
          · exact applyRowLimit_zero _ sql
          · rw [applyRowLimit_sqlServer hn hlimit, hput, String.ofList_toList]
      · exact .inr ⟨_, _, putAt_select hsql hlimit hw hcut hput⟩

/-- A capped closed text stays as it is, whatever cap comes next, exactly if its cap has not gone
    into quotes or a group.  If there is a new cap in it, this is also when the cap stands at the
    top level. -/
theorem applyRowLimit_idempotent_iff (d : Dialect) (hclosed : Closed sql.toList) (hn : n ≠ 0) :
    ((∀ m, d.applyRowLimit (d.applyRowLimit sql n) m = d.applyRowLimit sql n) ↔
      ¬ d.CapsNested sql) ∧
    (d.applyRowLimit sql n = sql ∨ ∃ before rest, sql = before ++ rest ∧
      d.applyRowLimit sql n = before ++ d.capText n ++ rest ∧
      (Closed before.toList ↔ ¬ d.CapsNested sql)) := by
  rcases putAt_of_closed d hclosed with ⟨hnot, hsame⟩ | ⟨before, rest, hat⟩
  · refine ⟨iff_of_true (fun m => ?_) hnot, .inl (hsame n)⟩
    rw [hsame, hsame]
  · refine ⟨?_, .inr ⟨before, rest, hat.text, hat.put n hn, hat.nested⟩⟩
    rw [← hat.nested, hat.put n hn]
    constructor
    · intro hsame
      by_contra hopen
      exact hat.again hopen n (hsame 1)
    · exact fun hb => applyRowLimit_limited (hat.found hb n)

/-- After the first `select` there are others, in quotes and in a group. -/
def selectBefore : String :=
  "Select Distinct a from [select top t] where id in (select top 3 id from u)"

theorem selectBefore_capped_once : Closed selectBefore.toList ∧ 5 ≠ 0 ∧
    sqlServer.applyRowLimit selectBefore 5 =
      "Select Distinct top 5 a from [select top t] where id in (select top 3 id from u)" ∧
    ∀ m, sqlServer.applyRowLimit (sqlServer.applyRowLimit selectBefore 5) m =
      sqlServer.applyRowLimit selectBefore 5 := by
  have hclosed : Closed selectBefore.toList := by decide +kernel
  have hnot : ¬ sqlServer.CapsNested selectBefore := by
    rintro ⟨-, -, before, after, hcut, hopen⟩
    have hfirst : before = [] := by
      rw [show cutAtFirst "select ".toList (selectBefore.toList.map Char.toLower) =
        some ([], selectBefore.toList.map Char.toLower |>.drop 7) by decide +kernel] at hcut
      exact (Prod.mk.inj (Option.some.inj hcut)).1.symm
    rw [hfirst] at hopen
    exact hopen rfl
  refine ⟨hclosed, by decide, by decide +kernel, ?_⟩
  exact (applyRowLimit_idempotent_iff sqlServer hclosed (by decide)).1.2 hnot

/-- A common table expression. -/
def commonTable : String := "with c as (select id from t) select * from c"

theorem commonTable_capped_twice : Closed commonTable.toList ∧
    sqlServer.applyRowLimit commonTable 5 =
      "with c as (select top 5 id from t) select * from c" ∧
    sqlServer.applyRowLimit (sqlServer.applyRowLimit commonTable 5) 5 =
      "with c as (select top 5 top 5 id from t) select * from c" := by
  decide +kernel

end Dialect

end RecordGraph
