/-
  Names and parameter marks in SQL text.

  * `Dialect.scan` goes over a text and finds the names in quotes, and the parameter marks among
    the words outside of quotes.
  * An `Item` is a name, or a value that is bound; `numbered` is what a scan finds if the values
    are the parameters one after the other.
  * `Reads`: a fragment is scanned as the given items wherever it stands, and binds the values
    among them.  A fragment that `Continues` may stand right after another one.  The lemmas go along
    with the ways in which fragments are put together.
-/
import RecordGraph.Proofs.Sql.Rendering

namespace RecordGraph

variable {d : Dialect} {n : Nat} {rest : List Char}

/-! ## Scanning -/

/-- What a scan finds. -/
inductive Finding where
  | name (s : String)
  /-- The mark of a parameter, counted from one. -/
  | mark (n : Nat)
  deriving DecidableEq

/-- The numbers of the marks. -/
def marksOf (ts : List Finding) : List Nat :=
  ts.filterMap fun
    | .mark n => some n
    | .name _ => none

/-- A character of a word outside of quotes. -/
def isWordChar (c : Char) : Bool :=
  c.isAlphanum || c == '_' || c == '$' || c == '@' || c == '#' || 127 < c.toNat

/-- The number that some digits write. -/
def numberOf? (digits : List Char) : Option Nat :=
  if !digits.isEmpty && digits.all Char.isDigit then some (Nat.ofDigitChars 10 digits 0) else none

/-- Where a scan is.  Characters that have been read come last first. -/
inductive Scan where
  | between
  | word (before : List Char)
  | quoted (before : List Char)
  /-- After a closing quote, which ends the name unless it comes again. -/
  | closed (before : List Char)

namespace Dialect

/-- The number of the parameter whose mark a word is. -/
def markOf? : Dialect → List Char → Option Nat
  | .postgres, '$' :: digits => numberOf? digits
  | .sqlServer, '@' :: 'p' :: digits => (numberOf? digits).map (· + 1)
  | _, _ => none

/-- What a word is found to be. -/
def wordFindings (d : Dialect) (before : List Char) : List Finding :=
  (d.markOf? before.reverse).toList.map .mark

/-- Where a scan is after a character with which something begins. -/
def entered (d : Dialect) (c : Char) : Scan :=
  if c = d.openQuote then .quoted [] else if isWordChar c then .word [c] else .between

/-- What is found in a text from the given place on. -/
def scanFrom (d : Dialect) : Scan → List Char → List Finding
  | .between, [] => []
  | .word before, [] => d.wordFindings before
  | .quoted _, [] => []
  | .closed before, [] => [.name (Ident.partOf before)]
  | .between, c :: cs => scanFrom d (d.entered c) cs
  | .word before, c :: cs =>
    if isWordChar c then scanFrom d (.word (c :: before)) cs
    else d.wordFindings before ++ scanFrom d (d.entered c) cs
  | .quoted before, c :: cs =>
    if c = d.closeQuote then scanFrom d (.closed before) cs
    else scanFrom d (.quoted (c :: before)) cs
  | .closed before, c :: cs =>
    if c = d.closeQuote then scanFrom d (.quoted (c :: before)) cs
    else .name (Ident.partOf before) :: scanFrom d (d.entered c) cs

/-- The names and marks in a text. -/
def scan (d : Dialect) (s : String) : List Finding := d.scanFrom .between s.toList

end Dialect

/-- Words and names before the text end where it begins. -/
def Breaks (d : Dialect) (rest : List Char) : Prop :=
  ∀ c, rest.head? = some c → isWordChar c = false ∧ c ≠ d.closeQuote

theorem breaks_nil : Breaks d [] := nofun

theorem breaks_cons {c : Char} (h : isWordChar c = false) (hc : c ≠ d.closeQuote) :
    Breaks d (c :: rest) := by
  rintro _ ⟨⟩
  exact ⟨h, hc⟩

namespace Dialect

/-! ## Words -/

theorem scanFrom_word (h : Breaks d rest) (before : List Char) :
    d.scanFrom (.word before) rest = d.wordFindings before ++ d.scanFrom .between rest := by
  cases rest with
  | nil => simp [scanFrom]
  | cons c rest =>
    obtain ⟨hw, -⟩ := h c rfl
    simp [scanFrom, hw]

theorem scanFrom_letters {letters : List Char} (h : ∀ c ∈ letters, isWordChar c = true)
    (before : List Char) : d.scanFrom (.word before) (letters ++ rest) =
      d.scanFrom (.word (letters.reverse ++ before)) rest := by
  induction letters generalizing before with
  | nil => rfl
  | cons c letters ih =>
    rw [List.forall_mem_cons] at h
    rw [List.cons_append, scanFrom, if_pos h.1, ih h.2, List.reverse_cons, List.append_assoc]
    rfl

/-- A word is read to its end. -/
theorem scan_letters {c : Char} {letters : List Char} (hc : isWordChar c = true)
    (ho : c ≠ d.openQuote) (h : ∀ c ∈ letters, isWordChar c = true) (hr : Breaks d rest) :
    d.scanFrom .between (c :: letters ++ rest) =
      (d.markOf? (c :: letters)).toList.map .mark ++ d.scanFrom .between rest := by
  rw [List.cons_append, scanFrom, entered, if_neg ho, if_pos hc, scanFrom_letters h,
    scanFrom_word hr, wordFindings]
  simp

theorem isWordChar_of_isDigit {c : Char} (h : c.isDigit = true) : isWordChar c = true := by
  simp [isWordChar, Char.isAlphanum, h]

theorem numberOf_toString (n : Nat) : numberOf? (toString n).toList = some n := by
  have hd : (toString n).toList = Nat.toDigits 10 n := by
    rw [Nat.toString_eq_repr, Nat.repr_eq_ofList_toDigits, String.toList_ofList]
  have hall : (Nat.toDigits 10 n).all Char.isDigit = true :=
    List.all_eq_true.2 fun c hc => Nat.isDigit_of_mem_toDigits (by decide) (by decide) hc
  rw [hd, numberOf?, hall, Nat.ofDigitChars_ten_toDigits]
  simp [Nat.toDigits_ne_nil]

theorem scan_placeholder (hn : 1 ≤ n) (hr : Breaks d rest) :
    d.scanFrom .between ((d.placeholder n).toList ++ rest) =
      .mark n :: d.scanFrom .between rest := by
  have hdigits (k : Nat) : ∀ c ∈ (toString k).toList, isWordChar c = true :=
    fun c hc => isWordChar_of_isDigit (isDigit_toString hc)
  cases d with
  | postgres =>
    have hp : (postgres.placeholder n).toList = '$' :: (toString n).toList := by
      simp [placeholder]
    rw [hp, scan_letters (by decide) (by decide) (hdigits n) hr, markOf?, numberOf_toString]
    rfl
  | sqlServer =>
    have hp : (sqlServer.placeholder n).toList = '@' :: 'p' :: (toString (n - 1)).toList := by
      simp [placeholder]
    have hletters : ∀ c ∈ 'p' :: (toString (n - 1)).toList, isWordChar c = true :=
      List.forall_mem_cons.2 ⟨by decide, hdigits (n - 1)⟩
    rw [hp, scan_letters (by decide) (by decide) hletters hr, markOf?, numberOf_toString,
      Option.map_some, Nat.sub_add_cancel hn]
    rfl

/-! ## Names -/

theorem scanFrom_closed (h : Breaks d rest) (before : List Char) :
    d.scanFrom (.closed before) rest =
      .name (Ident.partOf before) :: d.scanFrom .between rest := by
  cases rest with
  | nil => simp [scanFrom]
  | cons c rest =>
    obtain ⟨-, hc⟩ := h c rfl
    simp [scanFrom, hc]

theorem scanFrom_doubled (h : Breaks d rest) (name before : List Char) :
    d.scanFrom (.quoted before) (doubled d.closeQuote name ++ d.closeQuote :: rest) =
      .name (String.ofList (before.reverse ++ name)) :: d.scanFrom .between rest := by
  induction name generalizing before with
  | nil => simp [doubled, scanFrom, scanFrom_closed h, Ident.partOf]
  | cons c name ih =>
    by_cases hc : c = d.closeQuote
    · subst hc
      rw [doubled_self, List.cons_append, scanFrom, if_pos rfl, List.cons_append, scanFrom,
        if_pos rfl, ih]
      simp
    · rw [doubled_ne hc, List.cons_append, scanFrom, if_neg hc, ih]
      simp

/-- A name in quotes is read as it was before it was put in quotes. -/
theorem scan_quote (h : Breaks d rest) (name : String) :
    d.scanFrom .between ((d.quote name).toList ++ rest) =
      .name name :: d.scanFrom .between rest := by
  rw [toList_quote, List.cons_append, scanFrom, entered, if_pos rfl, List.append_assoc]
  exact (scanFrom_doubled h name.toList []).trans (by simp)

end Dialect

/-! ## Texts without names and marks -/

/-- Nothing is found in the text, if what follows it does not go on with a word. -/
def Silent (d : Dialect) (text : List Char) : Prop :=
  ∀ rest, Breaks d rest → d.scanFrom .between (text ++ rest) = d.scanFrom .between rest

/-- Nothing is found in the text, whatever follows it. -/
def Passed (d : Dialect) (text : List Char) : Prop :=
  ∀ rest, d.scanFrom .between (text ++ rest) = d.scanFrom .between rest

/-- A character that begins neither names nor marks. -/
def isPlainChar (c : Char) : Bool := c != '"' && c != '[' && c != '$' && c != '@'

/-- A character that ends words and names. -/
def isBreak (c : Char) : Bool := !isWordChar c && c != '"' && c != ']'

/-- A text of plain characters. -/
def isPlain (s : String) : Bool := s.toList.all isPlainChar

/-- A plain text that ends with a break. -/
def isLead (s : String) : Bool := isPlain s && s.toList.getLast?.any isBreak

/-- The text begins with a break. -/
def opens (s : String) : Bool := s.toList.head?.any isBreak

theorem isPlainChar_ne {c : Char} (h : isPlainChar c = true) :
    c ≠ d.openQuote ∧ c ≠ '$' ∧ c ≠ '@' := by
  simp only [isPlainChar, Bool.and_eq_true, bne_iff_ne] at h
  obtain ⟨⟨⟨hq, hb⟩, hm⟩, ha⟩ := h
  exact ⟨by cases d <;> assumption, hm, ha⟩

theorem breaks_of_isBreak {c : Char} (h : isBreak c = true) : Breaks d (c :: rest) := by
  simp only [isBreak, Bool.and_eq_true, bne_iff_ne, Bool.not_eq_true'] at h
  obtain ⟨⟨hw, hq⟩, hb⟩ := h
  exact breaks_cons hw (by cases d <;> assumption)

theorem breaks_of_opens {s : String} (h : opens s = true) : Breaks d (s.toList ++ rest) := by
  obtain ⟨c, hc, hb⟩ := (Option.any_eq_true _ _).1 h
  obtain ⟨cs, hcs⟩ := List.head?_eq_some_iff.1 hc
  rw [hcs]
  exact breaks_of_isBreak hb

/-- A word that begins with neither sign of a mark is none. -/
theorem Dialect.wordFindings_of_ne {before : List Char} {c : Char} (hm : c ≠ '$') (ha : c ≠ '@') :
    d.wordFindings (before ++ [c]) = [] := by
  have hnone : d.markOf? (c :: before.reverse) = none := by
    unfold markOf?
    split
    · rename_i heq; exact absurd (List.cons.inj heq).1 hm
    · rename_i heq; exact absurd (List.cons.inj heq).1 ha
    · rfl
  rw [wordFindings, List.reverse_append, List.reverse_singleton, List.singleton_append, hnone]
  rfl

/-- Plain characters are passed, between words and in a word that is no mark. -/
theorem scanFrom_plain (hr : Breaks d rest) {cs : List Char} (h : ∀ c ∈ cs, isPlainChar c = true) :
    d.scanFrom .between (cs ++ rest) = d.scanFrom .between rest ∧
    ∀ before c, c ≠ '$' → c ≠ '@' →
      d.scanFrom (.word (before ++ [c])) (cs ++ rest) = d.scanFrom .between rest := by
  induction cs with
  | nil =>
    refine ⟨rfl, fun before c hm ha => ?_⟩
    rw [List.nil_append, Dialect.scanFrom_word hr, Dialect.wordFindings_of_ne hm ha]
    rfl
  | cons x cs ih =>
    rw [List.forall_mem_cons] at h
    obtain ⟨hbetween, hword⟩ := ih h.2
    obtain ⟨ho, hm', ha'⟩ := isPlainChar_ne (d := d) h.1
    have hentered : d.scanFrom (d.entered x) (cs ++ rest) = d.scanFrom .between rest := by
      unfold Dialect.entered
      rw [if_neg ho]
      split
      · exact hword [] x hm' ha'
      · exact hbetween
    refine ⟨hentered, fun before c hm ha => ?_⟩
    rw [List.cons_append, Dialect.scanFrom]
    split
    · exact hword (x :: before) c hm ha
    · rw [Dialect.wordFindings_of_ne hm ha, hentered]
      rfl

theorem silent_of_isPlain {s : String} (h : isPlain s = true) : Silent d s.toList :=
  fun _ hr => (scanFrom_plain hr (List.all_eq_true.1 h)).1

theorem Dialect.scan_break {c : Char} (hp : isPlainChar c = true) (hb : isBreak c = true) :
    d.scanFrom .between (c :: rest) = d.scanFrom .between rest := by
  obtain ⟨ho, -⟩ := isPlainChar_ne (d := d) hp
  have hbreaks : Breaks d (c :: rest) := breaks_of_isBreak hb
  obtain ⟨hw, -⟩ := hbreaks c rfl
  rw [scanFrom, entered, if_neg ho, hw]
  rfl

theorem passed_of_isLead {s : String} (h : isLead s = true) : Passed d s.toList := by
  intro rest
  rw [isLead, Bool.and_eq_true] at h
  obtain ⟨hp, hlast⟩ := h
  obtain ⟨c, hc, hb⟩ := (Option.any_eq_true _ _).1 hlast
  obtain ⟨cs, hcs⟩ := List.getLast?_eq_some_iff.1 hc
  have hall := List.all_eq_true.1 hp
  rw [hcs, List.append_assoc, List.singleton_append]
  rw [hcs, List.forall_mem_append, List.forall_mem_singleton] at hall
  rw [(scanFrom_plain (breaks_of_isBreak hb) hall.1).1, Dialect.scan_break hall.2 hb]

/-! ## Items -/

/-- What a statement names or binds. -/
inductive Item where
  | name (s : String)
  | value (v : Value)
  deriving DecidableEq

/-- The values among some items. -/
def valuesOf (items : List Item) : List Value :=
  items.filterMap fun
    | .value v => some v
    | .name _ => none

/-- What a scan finds if the values are the parameters from the `n`-th on. -/
def numbered : (n : Nat) → List Item → List Finding
  | _, [] => []
  | n, .name s :: items => .name s :: numbered n items
  | n, .value _ :: items => .mark n :: numbered (n + 1) items

@[simp] theorem valuesOf_append (xs ys : List Item) :
    valuesOf (xs ++ ys) = valuesOf xs ++ valuesOf ys := List.filterMap_append

theorem numbered_append (n : Nat) (xs ys : List Item) :
    numbered n (xs ++ ys) = numbered n xs ++ numbered (n + (valuesOf xs).length) ys := by
  induction xs generalizing n with
  | nil => rfl
  | cons x xs ih =>
    cases x with
    | name s => simp [numbered, ih, valuesOf]
    | value v => simp [numbered, ih, valuesOf, Nat.add_assoc, Nat.add_comm 1]

/-- The marks count the values. -/
theorem marksOf_numbered (n : Nat) (items : List Item) :
    marksOf (numbered n items) = List.range' n (valuesOf items).length := by
  induction items generalizing n with
  | nil => rfl
  | cons x items ih =>
    cases x with
    | name s => exact ih n
    | value v =>
      have hvalues : valuesOf (.value v :: items) = v :: valuesOf items := rfl
      rw [hvalues, List.length_cons, List.range'_succ, ← ih]
      rfl

/-! ## Fragments -/

/-- The fragment binds the values of the items, and is scanned as them before anything that
    ends words and names. -/
structure Reads (d : Dialect) (f : Fragment) (items : List Item) : Prop where
  params : f.params = valuesOf items
  scan : ∀ n rest, 1 ≤ n → Breaks d rest → d.scanFrom .between ((f.sqlFrom d n).toList ++ rest) =
    numbered n items ++ d.scanFrom .between rest

/-- The fragment ends words and names that stand before it. -/
structure Continues (d : Dialect) (f : Fragment) (items : List Item) : Prop
    extends Reads d f items where
  breaks : ∀ n rest, Breaks d rest → Breaks d ((f.sqlFrom d n).toList ++ rest)

namespace Reads

variable {f g : Fragment} {xs ys : List Item} {s : String}

theorem name (s : String) : Reads d [.name s] [.name s] where
  params := rfl
  scan n rest _ hr := by
    rw [toList_sqlFrom_name]
    simpa [Fragment.sqlFrom, numbered] using Dialect.scan_quote hr s

theorem bind (v : Value) : Reads d [.bind v] [.value v] where
  params := rfl
  scan n rest hn hr := by
    rw [toList_sqlFrom_bind]
    simpa [Fragment.sqlFrom, numbered] using Dialect.scan_placeholder hn hr

theorem text (h : Silent d s.toList) : Reads d [.text s] [] where
  params := rfl
  scan n rest _ hr := by
    rw [toList_sqlFrom_text]
    simpa [Fragment.sqlFrom, numbered] using h rest hr

theorem lead (h : Passed d s.toList) (hf : Reads d f xs) : Reads d (.text s :: f) xs where
  params := hf.params
  scan n rest hn hr := by
    rw [toList_sqlFrom_text, List.append_assoc, h, hf.scan n rest hn hr]

theorem append (hf : Reads d f xs) (hg : Continues d g ys) : Reads d (f ++ g) (xs ++ ys) where
  params := by rw [Fragment.params_append, hf.params, hg.params, valuesOf_append]
  scan n rest hn hr := by
    rw [Fragment.toList_sqlFrom_append, List.append_assoc, hf.scan n _ hn (hg.breaks _ rest hr),
      hg.scan _ rest (by omega) hr, numbered_append, hf.params, List.append_assoc]

end Reads

namespace Continues

variable {f g : Fragment} {xs ys : List Item} {s : String}

theorem nil : Continues d [] [] := ⟨⟨rfl, fun _ _ _ _ => rfl⟩, fun _ _ hr => hr⟩

/-- A text between two fragments. -/
theorem link (h : isLead s = true) (ho : opens s = true) (hf : Reads d f xs) :
    Continues d (.text s :: f) xs where
  toReads := hf.lead (passed_of_isLead h)
  breaks n rest _ := by
    rw [toList_sqlFrom_text, List.append_assoc]
    exact breaks_of_opens ho

/-- A text after a fragment. -/
theorem text (h : isPlain s = true) (ho : opens s = true) : Continues d [.text s] [] where
  toReads := .text (silent_of_isPlain h)
  breaks n rest _ := by
    rw [toList_sqlFrom_text, List.append_assoc]
    exact breaks_of_opens ho

theorem append (hf : Continues d f xs) (hg : Continues d g ys) :
    Continues d (f ++ g) (xs ++ ys) where
  toReads := hf.toReads.append hg
  breaks n rest hr := by
    rw [Fragment.toList_sqlFrom_append, List.append_assoc]
    exact hf.breaks n _ (hg.breaks _ rest hr)

end Continues

theorem Reads.joined {α : Type} (between : String) (h : isLead between = true)
    (ho : opens between = true) {f : α → Fragment} {items : α → List Item} :
    ∀ as : List α, (∀ a ∈ as, Reads d (f a) (items a)) →
      Reads d (Fragment.joined between (as.map f)) (as.flatMap items)
  | [], _ => Continues.nil.toReads
  | [a], hf => by simpa [Fragment.joined] using hf a (by simp)
  | a :: b :: as, hf => by
    have hrest := Reads.joined between h ho (b :: as) fun x hx => hf x (List.mem_cons_of_mem a hx)
    simpa [Fragment.joined] using (hf a (by simp)).append (.link h ho hrest)

/-- A statement of a fragment names and binds what the fragment does. -/
theorem Reads.scan_sql {f : Fragment} {items : List Item} (h : Reads d f items) :
    d.scan (f.sql d) = numbered 1 items := by
  have hscan := h.scan 1 [] (Nat.le_refl 1) breaks_nil
  rwa [List.append_nil, Dialect.scanFrom, List.append_nil] at hscan

end RecordGraph
