/-
  Names of tables and columns, written and read back.

  A name is `Proper` if it has parts, none of them empty and none with a NUL; these are the names
  that readers accept (`accepted_iff`).  Written in either dialect, a proper name is read back as
  it was (`parse_written`): a part in quotes goes on as long as its closing quote is doubled, and
  what stands after it is a point or the end of the text.
-/
import RecordGraph.Proofs.Mapping.Statements
import RecordGraph.Proofs.Sql.Comparisons
import RecordGraph.Sql.Ident

namespace RecordGraph

namespace Ident

variable {d d' : Dialect} {close : Char} {before rest cs : List Char} {done parts : List String}

/-! ## Names that are accepted -/

/-- A part of a name. -/
structure ProperPart (p : String) : Prop where
  ne_empty : p ≠ ""
  noNul : '\x00' ∉ p.toList

structure Proper (i : Ident) : Prop where
  ne_nil : i.parts ≠ []
  part : ∀ p ∈ i.parts, ProperPart p

/-- The name is what is made of some text, or of texts given for its parts. -/
inductive Accepted : Ident → Prop
  | parse {s : String} {i : Ident} : parse s = .ok i → Accepted i
  | column {s : String} {i : Ident} : column s = .ok i → Accepted i
  | qualified {schema s : String} {i : Ident} : qualified schema s = .ok i → Accepted i

theorem checkPart_ok {p : String} (h : checkPart p = .ok ()) : ProperPart p := by
  unfold checkPart at h
  split at h
  · cases h
  · rename_i hempty
    split at h
    · cases h
    · rename_i hnul
      exact ⟨by simpa using hempty, hnul⟩

theorem column_proper {s : String} {i : Ident} (h : column s = .ok i) : i.Proper := by
  obtain ⟨⟨⟩, hs, h⟩ := result_bind_ok.1 h
  cases h
  exact ⟨by simp, by simpa using checkPart_ok hs⟩

theorem qualified_proper {schema s : String} {i : Ident} (h : qualified schema s = .ok i) :
    i.Proper := by
  obtain ⟨⟨⟩, hschema, h⟩ := result_bind_ok.1 h
  obtain ⟨⟨⟩, hs, h⟩ := result_bind_ok.1 h
  cases h
  exact ⟨by simp, by simpa using ⟨checkPart_ok hschema, checkPart_ok hs⟩⟩

/-! ## What a reader has read -/

/-- The characters of the part being read; a bare part has been begun. -/
def Mode.Clean : Mode → Prop
  | .start => True
  | .bare before => before ≠ [] ∧ '\x00' ∉ before
  | .inside _ before => '\x00' ∉ before
  | .closed _ before => '\x00' ∉ before

theorem properPart_partOf (hne : before ≠ []) (hnul : '\x00' ∉ before) :
    ProperPart (partOf before) where
  ne_empty h := by
    have hlist := congrArg String.toList h
    rw [partOf, String.toList_ofList] at hlist
    exact hne (List.reverse_eq_nil_iff.1 hlist)
  noNul := by simpa [partOf] using hnul

theorem proper_reverse {p : String} (hdone : ∀ q ∈ done, ProperPart q) (hp : ProperPart p) :
    (p :: done).reverse ≠ [] ∧ ∀ q ∈ (p :: done).reverse, ProperPart q :=
  ⟨by simp, fun q hq => List.forall_mem_cons.2 ⟨hp, hdone⟩ q (List.mem_reverse.1 hq)⟩

/-- A reader that has read proper parts so far ends with proper parts. -/
theorem read_proper {mode : Mode} (h : read mode done cs = .ok parts) (hcs : '\x00' ∉ cs)
    (hmode : mode.Clean) (hdone : ∀ p ∈ done, ProperPart p) :
    parts ≠ [] ∧ ∀ p ∈ parts, ProperPart p := by
  induction cs generalizing mode done with
  | nil =>
    cases mode with
    | start => cases h
    | bare before =>
      cases h
      exact proper_reverse hdone (properPart_partOf hmode.1 hmode.2)
    | inside close before => cases h
    | closed close before =>
      rw [read] at h
      split at h
      · cases h
      · rename_i hne
        cases h
        exact proper_reverse hdone (properPart_partOf (by simpa using hne) hmode)
  | cons c cs ih =>
    rw [List.mem_cons, not_or] at hcs
    obtain ⟨hc, hcs⟩ := hcs
    have hnext {before : List Char} (hbefore : '\x00' ∉ before) : '\x00' ∉ c :: before := by
      simpa using ⟨hc, hbefore⟩
    cases mode with
    | start =>
      rw [read] at h
      split_ifs at h
      · exact ih h hcs (by simp [Mode.Clean]) hdone
      · exact ih h hcs (by simp [Mode.Clean]) hdone
      · exact ih h hcs ⟨by simp, hnext (by simp)⟩ hdone
    | bare before =>
      rw [read] at h
      split_ifs at h
      · have hpart := properPart_partOf hmode.1 hmode.2
        exact ih h hcs trivial (List.forall_mem_cons.2 ⟨hpart, hdone⟩)
      · exact ih h hcs ⟨by simp, hnext hmode.2⟩ hdone
    | inside close before =>
      rw [read] at h
      split_ifs at h
      · exact ih h hcs hmode hdone
      · exact ih h hcs (hnext hmode) hdone
    | closed close before =>
      rw [read] at h
      split_ifs at h with _ hne
      · exact ih h hcs (hnext hmode) hdone
      · have hpart := properPart_partOf (by simpa using hne) hmode
        exact ih h hcs trivial (List.forall_mem_cons.2 ⟨hpart, hdone⟩)

theorem parse_proper {s : String} {i : Ident} (h : parse s = .ok i) : i.Proper := by
  unfold parse at h
  split at h
  · cases h
  split at h
  · cases h
  · rename_i hnul
    cases hread : read .start [] s.toList with
    | error fault => rw [hread] at h; cases h
    | ok parts =>
      rw [hread] at h
      cases h
      obtain ⟨hne, hparts⟩ := read_proper hread hnul trivial (by simp)
      exact ⟨hne, hparts⟩

/-! ## Reading what is written -/

/-- A part in quotes is read to its closing quote. -/
theorem read_doubled (name before : List Char) :
    read (.inside close before) done (Dialect.doubled close name ++ close :: rest) =
      read (.closed close (name.reverse ++ before)) done rest := by
  induction name generalizing before with
  | nil => simp [Dialect.doubled, read]
  | cons c name ih =>
    by_cases hc : c = close
    · subst hc
      simp [read, ih]
    · simp [hc, read, ih]

theorem read_quote (d : Dialect) (p : String) :
    read .start done ((d.quote p).toList ++ rest) =
      read (.closed d.closeQuote p.toList.reverse) done rest := by
  have hopen : read .start done (d.openQuote ::
      (Dialect.doubled d.closeQuote p.toList ++ d.closeQuote :: rest)) =
      read (.inside d.closeQuote []) done
        (Dialect.doubled d.closeQuote p.toList ++ d.closeQuote :: rest) := by
    cases d <;> rfl
  rw [Dialect.toList_quote, List.cons_append, List.append_assoc, List.singleton_append, hopen,
    read_doubled, List.append_nil]

theorem partOf_reverse (p : String) : partOf p.toList.reverse = p := by simp [partOf]

theorem isEmpty_reverse {p : String} (h : p ≠ "") : p.toList.reverse.isEmpty = false := by
  simpa using h

/-- After a part in quotes the text may end. -/
theorem read_last {p : String} (h : p ≠ "") :
    read (.closed d.closeQuote p.toList.reverse) done [] = .ok (p :: done).reverse := by
  rw [read]
  simp only [isEmpty_reverse h, partOf_reverse]
  rfl

/-- After a part in quotes and a point the next part is read. -/
theorem read_point {p : String} (h : p ≠ "") :
    read (.closed d.closeQuote p.toList.reverse) done ('.' :: rest) =
      read .start (p :: done) rest := by
  have hclose : '.' ≠ d.closeQuote := by cases d <;> decide
  rw [read]
  simp only [isEmpty_reverse h, partOf_reverse, if_neg hclose]
  rfl

theorem toList_sql_single (p : String) : (sql d ⟨[p]⟩).toList = (d.quote p).toList := by
  simp [sql, fragment, Fragment.sql, Fragment.joined, Fragment.sqlFrom]

theorem toList_sql_cons (p q : String) (ps : List String) : (sql d ⟨p :: q :: ps⟩).toList =
    (d.quote p).toList ++ '.' :: (sql d ⟨q :: ps⟩).toList := by
  simp [sql, fragment, Fragment.sql, Fragment.joined, Fragment.sqlFrom]

theorem read_sql {p : String} {ps : List String} (h : ∀ q ∈ p :: ps, ProperPart q) :
    read .start done (sql d ⟨p :: ps⟩).toList = .ok (done.reverse ++ p :: ps) := by
  induction ps generalizing p done with
  | nil =>
    rw [toList_sql_single, ← List.append_nil (d.quote p).toList, read_quote,
      read_last (h p (by simp)).ne_empty, List.reverse_cons]
  | cons q ps ih =>
    rw [List.forall_mem_cons] at h
    rw [toList_sql_cons, read_quote, read_point h.1.ne_empty, ih h.2]
    simp

theorem mem_doubled {c : Char} : c ∈ Dialect.doubled close cs ↔ c ∈ cs := by
  induction cs with
  | nil => rfl
  | cons x cs ih => by_cases hx : x = close <;> simp [hx, ih]

theorem noNul_sql {p : String} {ps : List String} (h : ∀ q ∈ p :: ps, ProperPart q) :
    '\x00' ∉ (sql d ⟨p :: ps⟩).toList := by
  have hquote {q : String} (hq : ProperPart q) : '\x00' ∉ (d.quote q).toList := by
    have hmarks : '\x00' ≠ d.openQuote ∧ '\x00' ≠ d.closeQuote := by cases d <;> decide
    simpa [Dialect.toList_quote, mem_doubled] using ⟨hmarks.1, hq.noNul, hmarks.2⟩
  induction ps generalizing p with
  | nil => simpa [toList_sql_single] using hquote (h p (by simp))
  | cons q ps ih =>
    rw [List.forall_mem_cons] at h
    rw [toList_sql_cons, List.mem_append, List.mem_cons, not_or, not_or]
    exact ⟨hquote h.1, by decide, ih h.2⟩

theorem toList_sql_ne_nil (p : String) (ps : List String) : (sql d ⟨p :: ps⟩).toList ≠ [] := by
  cases ps with
  | nil => simp [toList_sql_single, Dialect.toList_quote]
  | cons q ps => simp [toList_sql_cons]

theorem parse_written {i : Ident} (h : i.Proper) (d : Dialect) : parse (i.sql d) = .ok i := by
  obtain ⟨parts⟩ := i
  obtain ⟨p, ps, rfl⟩ := List.exists_cons_of_ne_nil h.ne_nil
  have hempty : (sql d ⟨p :: ps⟩).isEmpty = false := by
    rw [String.isEmpty_eq_false_iff, ne_eq, ← String.toList_eq_nil_iff]
    exact toList_sql_ne_nil p ps
  have hread : read .start [] (sql d ⟨p :: ps⟩).toList = .ok (p :: ps) := read_sql h.part
  rw [parse, hempty, if_neg (by simp), if_neg (noNul_sql h.part), hread]
  rfl

/-- Names are accepted exactly when they are proper. -/
theorem accepted_iff {i : Ident} : i.Accepted ↔ i.Proper := by
  constructor
  · rintro (h | h | h)
    · exact parse_proper h
    · exact column_proper h
    · exact qualified_proper h
  · exact fun h => .parse (parse_written h .postgres)

/-- A proper name is read back from its text as it was, so different names have different texts,
    and a name that was accepted may be carried over from one dialect to another by its text. -/
theorem sql_read_back (d d' : Dialect) :
    (∀ i : Ident, i.Proper → parse (i.sql d) = .ok i) ∧
    (∀ i j : Ident, i.Proper → j.Proper → i ≠ j → i.sql d ≠ j.sql d') ∧
    ∀ i : Ident, i.Accepted → (parse (i.sql d)).map (sql d') = .ok (i.sql d') := by
  refine ⟨fun i hi => parse_written hi d, fun i j hi hj hne hsql => ?_, fun i hi => ?_⟩
  · have hparse := parse_written hi d
    rw [hsql, parse_written hj d'] at hparse
    exact hne (Except.ok.inj hparse).symm
  · rw [parse_written (accepted_iff.1 hi) d]
    rfl

/-- One part, with quotes and a point in it. -/
def quotesInside : Ident := ⟨["a\".\"b]"]⟩

/-- Two parts that look much the same. -/
def quotesAround : Ident := ⟨["a", "b]"]⟩

theorem quotesInside_read_back : quotesInside.Proper ∧ quotesAround.Proper ∧
    quotesInside.sql .postgres = "\"a\"\".\"\"b]\"" ∧
    quotesInside.sql .sqlServer = "[a\".\"b]]]" ∧
    parse "\"a\"\".\"\"b]\"" = .ok quotesInside ∧
    quotesInside.sql .postgres ≠ quotesAround.sql .sqlServer ∧
    (parse "\"a\"\".\"\"b]\"").map (sql .sqlServer) = .ok "[a\".\"b]]]" := by
  have hpostgres : quotesInside.sql .postgres = "\"a\"\".\"\"b]\"" := by decide +kernel
  have hserver : quotesInside.sql .sqlServer = "[a\".\"b]]]" := by decide +kernel
  have hinside : quotesInside.Proper :=
    ⟨by decide, by simpa [quotesInside] using ⟨by decide, by decide⟩⟩
  have haround : quotesAround.Proper :=
    ⟨by decide, by simpa [quotesAround] using ⟨⟨by decide, by decide⟩, by decide, by decide⟩⟩
  obtain ⟨hread, happart, hcarried⟩ := sql_read_back .postgres .sqlServer
  have hback := hread quotesInside hinside
  have hover := hcarried quotesInside (accepted_iff.2 hinside)
  rw [hpostgres] at hback hover
  rw [hserver] at hover
  have hne := happart quotesInside quotesAround hinside haround (by decide)
  exact ⟨hinside, haround, hpostgres, hserver, hback, hne, hover⟩

end Ident

end RecordGraph
