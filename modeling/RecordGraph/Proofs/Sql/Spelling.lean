/-
  The names that are read.

  `Spells` is the grammar of one part: a bare word, or a text in double quotes or in brackets in
  which the closing character comes in pairs.  A text `Decomposes` into parts with points between
  them in one way at most, and a reader gives the parts of this decomposition, or fails if there
  is none (`parse_spelled`).  What a reader has seen of a part is the beginning of its spelling
  (`Begun`), and this carries the induction over the rest of the text.
-/
import RecordGraph.Proofs.Sql.Identifiers

namespace RecordGraph

namespace Ident

variable {d d' : Dialect} {close : Char} {before text text' rest rest' seen cs : List Char}
  {done parts : List String} {p p' : String} {ps ps' : List (List Char × String)} {mode : Mode}

/-! ## The grammar -/

/-- `[A-Za-z_]` -/
def BareStart (c : Char) : Prop := ('A' ≤ c ∧ c ≤ 'Z') ∨ ('a' ≤ c ∧ c ≤ 'z') ∨ c = '_'

/-- `[A-Za-z0-9_$]` -/
def BareRest (c : Char) : Prop := BareStart c ∨ ('0' ≤ c ∧ c ≤ '9') ∨ c = '$'

/-- `[A-Za-z_][A-Za-z0-9_$]*` -/
inductive Bare : List Char → Prop
  | word {c : Char} {cs : List Char} : BareStart c → (∀ x ∈ cs, BareRest x) → Bare (c :: cs)

/-- What stands between the quotes of a part, and the part: the closing character comes in pairs,
    each of which is one character of the part. -/
inductive Paired (close : Char) : (inner part : List Char) → Prop
  | nil : Paired close [] []
  | pair {inner part : List Char} : Paired close inner part →
      Paired close (close :: close :: inner) (close :: part)
  | other {c : Char} {inner part : List Char} : c ≠ close → Paired close inner part →
      Paired close (c :: inner) (c :: part)

/-- The spelling of a part. -/
inductive Spells : (text : List Char) → (part : String) → Prop
  | bare {text : List Char} : Bare text → Spells text (String.ofList text)
  | quoted {inner part : List Char} : inner ≠ [] → Paired '"' inner part →
      Spells ('"' :: (inner ++ ['"'])) (String.ofList part)
  | bracketed {inner part : List Char} : inner ≠ [] → Paired ']' inner part →
      Spells ('[' :: (inner ++ [']'])) (String.ofList part)

/-- The text is that of some parts, each as it is spelled, with points between them. -/
structure Decomposes (cs : List Char) (ps : List (List Char × String)) : Prop where
  ne_nil : ps ≠ []
  spells : ∀ p ∈ ps, Spells p.1 p.2
  text : ['.'].intercalate (ps.map Prod.fst) = cs

/-! ## Bare parts -/

theorem isBareStart_iff {c : Char} : isBareStart c = true ↔ BareStart c := by
  have halpha : c.isAlpha = (decide ('A' ≤ c ∧ c ≤ 'Z') ||
      (decide ('a' ≤ c) && decide (c ≤ 'z'))) := rfl
  simp only [isBareStart, BareStart, halpha, Bool.or_eq_true, Bool.and_eq_true, decide_eq_true_eq,
    beq_iff_eq]
  tauto

theorem isBareRest_iff {c : Char} : isBareRest c = true ↔ BareRest c := by
  rw [BareRest, ← isBareStart_iff]
  simp only [isBareRest, isBareStart, Char.isAlphanum, Char.isDigit, Bool.or_eq_true,
    Bool.and_eq_true, decide_eq_true_eq, beq_iff_eq, Char.le_def]
  tauto

theorem BareStart.ne {c x : Char} (h : BareStart c) (hx : isBareStart x = false) : c ≠ x := by
  rintro rfl
  rw [isBareStart_iff.2 h] at hx
  cases hx

theorem BareRest.ne_point {c : Char} (h : BareRest c) : c ≠ '.' := by
  rintro rfl
  exact absurd (isBareRest_iff.2 h) (by decide)

theorem Bare.forall_rest (h : Bare text) : ∀ c ∈ text, BareRest c := by
  cases h with
  | word hc hcs => exact List.forall_mem_cons.2 ⟨.inl hc, hcs⟩

theorem Bare.concat {c : Char} (h : Bare text) (hc : BareRest c) : Bare (text ++ [c]) := by
  cases h with
  | word hx hxs =>
    refine .word hx fun y hy => ?_
    rcases List.mem_append.1 hy with hy | hy
    · exact hxs y hy
    · rwa [List.mem_singleton.1 hy]

/-! ## Parts in quotes -/

theorem paired_iff {inner part : List Char} :
    Paired close inner part ↔ inner = Dialect.doubled close part := by
  constructor
  · intro h
    induction h with
    | nil => rfl
    | pair _ ih => rw [ih, Dialect.doubled_self]
    | other hc _ ih => rw [ih, Dialect.doubled_ne hc]
  · rintro rfl
    induction part with
    | nil => exact .nil
    | cons c part ih =>
      by_cases hc : c = close
      · rw [hc, Dialect.doubled_self]
        exact .pair ih
      · rw [Dialect.doubled_ne hc]
        exact .other hc ih

theorem doubled_append (xs ys : List Char) : Dialect.doubled close (xs ++ ys) =
    Dialect.doubled close xs ++ Dialect.doubled close ys := by
  induction xs with
  | nil => rfl
  | cons c xs ih => by_cases hc : c = close <;> simp [hc, ih]

theorem spells_quote (d : Dialect) (hp : p ≠ "") : Spells (d.quote p).toList p := by
  have hinner (close : Char) : Dialect.doubled close p.toList ≠ [] := by
    intro hnil
    refine hp (String.toList_eq_nil_iff.1 (List.eq_nil_iff_forall_not_mem.2 fun c hc => ?_))
    have hmem : c ∈ Dialect.doubled close p.toList := mem_doubled.2 hc
    rw [hnil] at hmem
    exact List.not_mem_nil hmem
  rw [Dialect.toList_quote, ← String.ofList_toList (s := p), String.toList_ofList]
  cases d with
  | postgres => exact .quoted (hinner '"') (paired_iff.2 rfl)
  | sqlServer => exact .bracketed (hinner ']') (paired_iff.2 rfl)

/-- A part is spelled bare, or as it is written in one of the dialects. -/
theorem Spells.bare_or_quote (h : Spells text p) : (Bare text ∧ p = String.ofList text) ∨
    ∃ d : Dialect, p ≠ "" ∧ text = (d.quote p).toList := by
  have hquote {inner part : List Char} (d : Dialect) (hne : inner ≠ [])
      (hi : Paired d.closeQuote inner part) : String.ofList part ≠ "" ∧
        d.openQuote :: (inner ++ [d.closeQuote]) = (d.quote (String.ofList part)).toList := by
    rw [paired_iff] at hi
    subst hi
    refine ⟨?_, by rw [Dialect.toList_quote, String.toList_ofList]⟩
    rintro hempty
    rw [← String.toList_eq_nil_iff, String.toList_ofList] at hempty
    rw [hempty] at hne
    exact hne rfl
  cases h with
  | bare h => exact .inl ⟨h, rfl⟩
  | quoted hne hi => exact .inr ⟨.postgres, hquote .postgres hne hi⟩
  | bracketed hne hi => exact .inr ⟨.sqlServer, hquote .sqlServer hne hi⟩

/-! ## Decompositions -/

theorem Decomposes.single (h : Spells text p) : Decomposes text [(text, p)] :=
  ⟨by simp, by simpa using h, List.intercalate_singleton⟩

theorem Decomposes.cons (h : Spells text p) (hd : Decomposes cs ps) :
    Decomposes (text ++ '.' :: cs) ((text, p) :: ps) where
  ne_nil := by simp
  spells := List.forall_mem_cons.2 ⟨h, hd.spells⟩
  text := by
    rw [List.map_cons, List.intercalate_cons_of_ne_nil (by simpa using hd.ne_nil), hd.text]
    simp

/-- The first part, and what follows it. -/
theorem Decomposes.uncons {e : List Char × String} (h : Decomposes cs (e :: ps)) :
    Spells e.1 e.2 ∧ ((ps = [] ∧ cs = e.1) ∨
      ∃ rest, cs = e.1 ++ '.' :: rest ∧ Decomposes rest ps) := by
  obtain ⟨-, hspells, htext⟩ := h
  rw [List.forall_mem_cons] at hspells
  refine ⟨hspells.1, ?_⟩
  cases ps with
  | nil => exact .inl ⟨rfl, by rw [← htext, List.map_singleton, List.intercalate_singleton]⟩
  | cons e' ps =>
    refine .inr ⟨_, ?_, by simp, hspells.2, rfl⟩
    rw [← htext, List.map_cons, List.map_cons, List.intercalate_cons_cons]
    simp

/-! ## Reading what is spelled -/

theorem read_bare (h : ∀ c ∈ cs, BareRest c) (before : List Char) :
    read (.bare before) done (cs ++ rest) = read (.bare (cs.reverse ++ before)) done rest := by
  induction cs generalizing before with
  | nil => rfl
  | cons c cs ih =>
    rw [List.forall_mem_cons] at h
    rw [List.cons_append, read, if_neg h.1.ne_point, if_pos (isBareRest_iff.2 h.1), ih h.2]
    simp

theorem read_word (h : Bare text) :
    read .start done (text ++ rest) = read (.bare text.reverse) done rest := by
  cases h with
  | @word c cs hc hcs =>
    rw [List.cons_append, read, if_neg (hc.ne rfl), if_neg (hc.ne rfl), if_neg (hc.ne rfl),
      if_pos (isBareStart_iff.2 hc), read_bare hcs, List.reverse_cons]

/-- After the last part the text may end. -/
theorem read_end (h : Spells text p) : read .start done text = .ok (p :: done).reverse := by
  rw [← List.append_nil text]
  rcases h.bare_or_quote with ⟨hb, rfl⟩ | ⟨d, hp, rfl⟩
  · rw [read_word hb, read, partOf, List.reverse_reverse]
  · rw [read_quote, read_last hp]

/-- After a part and a point the next part is read. -/
theorem read_next (h : Spells text p) :
    read .start done (text ++ '.' :: rest) = read .start (p :: done) rest := by
  rcases h.bare_or_quote with ⟨hb, rfl⟩ | ⟨d, hp, rfl⟩
  · rw [read_word hb, read, if_pos rfl, partOf, List.reverse_reverse]
  · rw [read_quote, read_point hp]

theorem read_decomposed (h : Decomposes cs ps) :
    read .start done cs = .ok (done.reverse ++ ps.map Prod.snd) := by
  induction ps generalizing cs done with
  | nil => exact absurd rfl h.ne_nil
  | cons e ps ih =>
    obtain ⟨hs, ⟨rfl, rfl⟩ | ⟨rest, rfl, hrest⟩⟩ := h.uncons
    · rw [read_end hs, List.reverse_cons, List.map_singleton]
    · rw [read_next hs, ih hrest]
      simp

/-! ## Spelling what is read -/

/-- What a reader has seen of the part that it is in. -/
inductive Begun : (mode : Mode) → (seen : List Char) → Prop
  | start : Begun .start []
  | bare {before : List Char} : Bare before.reverse → Begun (.bare before) before.reverse
  | inside (d : Dialect) (before : List Char) : Begun (.inside d.closeQuote before)
      (d.openQuote :: Dialect.doubled d.closeQuote before.reverse)
  | closed (d : Dialect) (before : List Char) :
      Begun (.closed d.closeQuote before) (d.quote (partOf before)).toList

theorem toList_quote_partOf (d : Dialect) (before : List Char) :
    (d.quote (partOf before)).toList =
      d.openQuote :: (Dialect.doubled d.closeQuote before.reverse ++ [d.closeQuote]) := by
  rw [Dialect.toList_quote, partOf, String.toList_ofList]

theorem partOf_ne_empty (h : before ≠ []) : partOf before ≠ "" := by
  rw [ne_eq, ← String.toList_eq_nil_iff, partOf, String.toList_ofList]
  simpa using h

/-- The parts that are read are spelled by what has been seen and the rest of the text. -/
theorem decomposes_of_read (hb : Begun mode seen) (h : read mode done cs = .ok parts) :
    ∃ ps, Decomposes (seen ++ cs) ps ∧ parts = done.reverse ++ ps.map Prod.snd := by
  induction cs generalizing mode seen done with
  | nil =>
    rw [List.append_nil]
    cases hb with
    | start => cases h
    | bare hbare =>
      cases h
      exact ⟨_, .single (.bare hbare), by simp [partOf]⟩
    | inside d before => cases h
    | closed d before =>
      rw [read] at h
      split at h
      · cases h
      · rename_i hne
        cases h
        exact ⟨_, .single (spells_quote d (partOf_ne_empty (by simpa using hne))), by simp⟩
  | cons c cs ih =>
    -- A part ends, and the text goes on after a point.
    have hpoint {text : List Char} {p : String} (hs : Spells text p)
        (h : read .start (p :: done) cs = .ok parts) :
        ∃ ps, Decomposes (text ++ '.' :: cs) ps ∧ parts = done.reverse ++ ps.map Prod.snd := by
      obtain ⟨ps, hps, rfl⟩ := ih .start h
      exact ⟨_, .cons hs hps, by simp⟩
    cases hb with
    | start =>
      rw [read] at h
      split_ifs at h with hquote hbracket hdot hc
      · subst hquote
        exact ih (.inside .postgres []) h
      · subst hbracket
        exact ih (.inside .sqlServer []) h
      · have hbare : Bare [c].reverse := .word (isBareStart_iff.1 hc) (by simp)
        exact ih (.bare hbare) h
    | @bare before hbare =>
      rw [read] at h
      split_ifs at h with hdot hc
      · subst hdot
        exact hpoint (.bare hbare) h
      · have hnext : Bare (c :: before).reverse := by
          rw [List.reverse_cons]
          exact hbare.concat (isBareRest_iff.1 hc)
        obtain ⟨ps, hps, hparts⟩ := ih (.bare hnext) h
        exact ⟨ps, by simpa using hps, hparts⟩
    | inside d before =>
      rw [read] at h
      split_ifs at h with hc
      · subst hc
        obtain ⟨ps, hps, hparts⟩ := ih (.closed d before) h
        rw [toList_quote_partOf] at hps
        exact ⟨ps, by simpa using hps, hparts⟩
      · obtain ⟨ps, hps, hparts⟩ := ih (.inside d (c :: before)) h
        rw [List.reverse_cons, doubled_append, Dialect.doubled_ne hc] at hps
        exact ⟨ps, by simpa [Dialect.doubled] using hps, hparts⟩
    | closed d before =>
      rw [read] at h
      split_ifs at h with hc hempty hdot
      · subst hc
        obtain ⟨ps, hps, hparts⟩ := ih (.inside d (d.closeQuote :: before)) h
        rw [List.reverse_cons, doubled_append, Dialect.doubled_self] at hps
        rw [toList_quote_partOf]
        exact ⟨ps, by simpa [Dialect.doubled] using hps, hparts⟩
      · subst hdot
        exact hpoint (spells_quote d (partOf_ne_empty (by simpa using hempty))) h

/-! ## No second decomposition -/

/-- What may stand after a part. -/
def EndsPart (rest : List Char) : Prop := ∀ c, rest.head? = some c → c = '.'

theorem endsPart_nil : EndsPart [] := nofun

theorem endsPart_point : EndsPart ('.' :: rest) := by
  rintro _ ⟨⟩
  rfl

theorem Bare.takeWhile (h : Bare text) (hr : EndsPart rest) :
    (text ++ rest).takeWhile isBareRest = text := by
  rw [List.takeWhile_append_of_pos fun c hc => isBareRest_iff.2 (h.forall_rest c hc)]
  cases rest with
  | nil => simp
  | cons c rest =>
    rw [hr c rfl, List.takeWhile_cons_of_neg (by decide), List.append_nil]

theorem Bare.not_quote (h : Bare text) (heq : text ++ rest = (d.quote p).toList ++ rest') :
    False := by
  cases h with
  | word hc hcs =>
    rw [Dialect.toList_quote, List.cons_append, List.cons_append, List.cons.injEq] at heq
    exact hc.ne (by cases d <;> rfl) heq.1

/-- Where one part ends, no other one goes on. -/
theorem Spells.cancel (h : Spells text p) (h' : Spells text' p') (hr : EndsPart rest)
    (hr' : EndsPart rest') (heq : text ++ rest = text' ++ rest') :
    text = text' ∧ p = p' ∧ rest = rest' := by
  rcases h.bare_or_quote with ⟨hb, rfl⟩ | ⟨d, -, rfl⟩ <;>
    rcases h'.bare_or_quote with ⟨hb', rfl⟩ | ⟨d', -, rfl⟩
  · have htext : text = text' := by rw [← hb.takeWhile hr, heq, hb'.takeWhile hr']
    subst htext
    exact ⟨rfl, rfl, List.append_cancel_left heq⟩
  · exact (hb.not_quote heq).elim
  · exact (hb'.not_quote heq.symm).elim
  · have hd : d = d' := by
      rw [Dialect.toList_quote, Dialect.toList_quote] at heq
      have hopen := (List.cons.inj heq).1
      revert hopen
      cases d <;> cases d' <;> decide
    subst hd
    have hend {r : List Char} (hr : EndsPart r) : r.head? ≠ some d.closeQuote := by
      intro hclose
      have hdot := hr _ hclose
      cases d <;> exact absurd hdot (by decide)
    obtain ⟨rfl, rfl⟩ := Dialect.quote_cancel (hend hr) (hend hr') heq
    exact ⟨rfl, rfl, rfl⟩

theorem Decomposes.unique (h : Decomposes cs ps) (h' : Decomposes cs ps') : ps = ps' := by
  induction ps generalizing cs ps' with
  | nil => exact absurd rfl h.ne_nil
  | cons e ps ih =>
    obtain ⟨e', ps', rfl⟩ := List.exists_cons_of_ne_nil h'.ne_nil
    obtain ⟨hs, hrest⟩ := h.uncons
    obtain ⟨hs', hrest'⟩ := h'.uncons
    have hsame {rest rest' : List Char} (hr : EndsPart rest) (hr' : EndsPart rest')
        (heq : e.1 ++ rest = e'.1 ++ rest') : e = e' ∧ rest = rest' := by
      obtain ⟨htext, hpart, hrest⟩ := hs.cancel hs' hr hr' heq
      exact ⟨Prod.ext htext hpart, hrest⟩
    rcases hrest with ⟨rfl, rfl⟩ | ⟨rest, rfl, hd⟩ <;>
      rcases hrest' with ⟨rfl, heq⟩ | ⟨rest', heq, hd'⟩
    · rw [← List.append_nil e.1, ← List.append_nil e'.1] at heq
      rw [(hsame endsPart_nil endsPart_nil heq).1]
    · rw [← List.append_nil e.1] at heq
      exact absurd (hsame endsPart_nil endsPart_point heq).2 (by simp)
    · rw [← List.append_nil e'.1] at heq
      exact absurd (hsame endsPart_point endsPart_nil heq).2 (by simp)
    · obtain ⟨rfl, hrest⟩ := hsame endsPart_point endsPart_point heq
      obtain rfl := (List.cons.inj hrest).2
      rw [ih hd hd']

/-! ## Names -/

theorem parse_ok_iff {s : String} {i : Ident} :
    parse s = .ok i ↔ '\x00' ∉ s.toList ∧ read .start [] s.toList = .ok i.parts := by
  obtain ⟨parts⟩ := i
  unfold parse
  split_ifs with hempty hnul
  · rw [String.isEmpty_iff] at hempty
    subst hempty
    simp [read]
  · simpa using fun h => absurd hnul h
  · cases read .start [] s.toList <;> simp [Except.map, hnul]

/-- A text without NUL is read if it decomposes into parts, and only then; the decomposition is
    the only one, and the name has its parts in order. -/
theorem parse_spelled (s : String) :
    ((∃ i, parse s = .ok i) ↔ '\x00' ∉ s.toList ∧ ∃ ps, Decomposes s.toList ps) ∧
    (∀ i ps, parse s = .ok i → Decomposes s.toList ps → i.parts = ps.map Prod.snd) ∧
    ∀ ps ps', Decomposes s.toList ps → Decomposes s.toList ps' → ps = ps' := by
  refine ⟨⟨?_, ?_⟩, fun i ps hi hps => ?_, fun _ _ => Decomposes.unique⟩
  · rintro ⟨i, hi⟩
    obtain ⟨hnul, hread⟩ := parse_ok_iff.1 hi
    obtain ⟨ps, hps, -⟩ := decomposes_of_read .start hread
    exact ⟨hnul, ps, hps⟩
  · rintro ⟨hnul, ps, hps⟩
    exact ⟨⟨ps.map Prod.snd⟩, parse_ok_iff.2 ⟨hnul, read_decomposed hps⟩⟩
  · have hread := (parse_ok_iff.1 hi).2
    rw [read_decomposed hps] at hread
    exact (Except.ok.inj hread).symm

/-- A name with a part of each kind. -/
def mixedName : String := "_x$1.[a]]b].\"c\"\".d\""

/-- Its parts, as spelled and as read. -/
def mixedParts : List (List Char × String) :=
  [("_x$1".toList, "_x$1"), ("[a]]b]".toList, "a]b"), ("\"c\"\".d\"".toList, "c\".d")]

theorem mixedName_spelled : ∃ i, parse mixedName = .ok i ∧ Decomposes mixedName.toList mixedParts ∧
    i.parts = ["_x$1", "a]b", "c\".d"] ∧
    ∀ ps, Decomposes mixedName.toList ps → ps = mixedParts := by
  have hbare : Spells "_x$1".toList "_x$1" :=
    .bare (.word (isBareStart_iff.1 (by decide))
      fun c hc => isBareRest_iff.1 (List.all_eq_true.1 (by decide) c hc))
  have hbracketed : Spells "[a]]b]".toList "a]b" := by
    have htext : "[a]]b]" = Dialect.sqlServer.quote "a]b" := by decide +kernel
    rw [htext]
    exact spells_quote .sqlServer (by decide)
  have hquoted : Spells "\"c\"\".d\"".toList "c\".d" := by
    have htext : "\"c\"\".d\"" = Dialect.postgres.quote "c\".d" := by decide +kernel
    rw [htext]
    exact spells_quote .postgres (by decide)
  have hparts : Decomposes mixedName.toList mixedParts :=
    .cons hbare (.cons hbracketed (.single hquoted))
  obtain ⟨hread, hordered, hunique⟩ := parse_spelled mixedName
  obtain ⟨i, hi⟩ := hread.2 ⟨by decide, mixedParts, hparts⟩
  exact ⟨i, hi, hparts, hordered i mixedParts hi hparts,
    fun ps hps => hunique ps mixedParts hps hparts⟩

end Ident

end RecordGraph
