/-
  The outer text of a statement, character by character.

  A `Level` is what a scan of the outer text knows of the text before it: the quotes that it is in
  and the number of open groups.  The outer text of texts one after the other is that of each of
  them from its own level (`outer_append`).  Text without marks leaves the level as it is and shows
  at the top level only; a name in quotes does not show, whatever is in it (`hides_quote`).
-/
import RecordGraph.Proofs.Sql.Comparisons
import RecordGraph.Sql.RowLimit

namespace RecordGraph

/-- A character that opens or closes quotes or groups. -/
def isMark (c : Char) : Bool :=
  c == '\'' || c == '"' || c == '[' || c == ']' || c == '(' || c == ')'

/-- A text without marks. -/
def Unmarked (cs : List Char) : Prop := ∀ c ∈ cs, isMark c = false

instance (cs : List Char) : Decidable (Unmarked cs) :=
  decidable_of_iff (cs.all (!isMark ·) = true) (by simp [Unmarked])

theorem isMark_of_isDigit {c : Char} (h : c.isDigit = true) : isMark c = false := by
  simp only [isMark, Bool.or_eq_false_iff, beq_eq_false_iff_ne]
  refine ⟨⟨⟨⟨⟨?_, ?_⟩, ?_⟩, ?_⟩, ?_⟩, ?_⟩ <;> rintro rfl <;> cases h

theorem unmarked_append {xs ys : List Char} : Unmarked (xs ++ ys) ↔ Unmarked xs ∧ Unmarked ys :=
  List.forall_mem_append

theorem unmarked_toString (n : Nat) : Unmarked (toString n).toList :=
  fun _ hc => isMark_of_isDigit (isDigit_toString hc)

/-- Where a scan of the outer text is. -/
structure Level where
  /-- The character that ends the quotes around. -/
  closing : Option Char
  /-- The number of open groups. -/
  depth : Nat
  deriving DecidableEq

namespace Level

variable {l l' l'' : Level} {c close : Char} {cs xs ys name : List Char} {k : Nat}

/-- In a number of groups, outside of quotes. -/
def inGroups (k : Nat) : Level := ⟨none, k⟩

/-- Outside of quotes and groups. -/
def top : Level := inGroups 0

/-- The level after a character. -/
def next (l : Level) (c : Char) : Level :=
  match l.closing with
  | some close => if c = close then inGroups l.depth else l
  | none =>
    if c = '\'' ∨ c = '"' then ⟨some c, l.depth⟩
    else if c = '[' then ⟨some ']', l.depth⟩
    else if c = '(' then inGroups (l.depth + 1)
    else if c = ')' then inGroups (l.depth - 1)
    else l

/-- The level after a text. -/
def after (l : Level) (cs : List Char) : Level := cs.foldl next l

/-- What the outer text has in the place of a character.  A bracket that closes nothing is a
    character like others. -/
def shown (l : Level) (c : Char) : Char :=
  if l = top ∧ (isMark c = false ∨ c = ']') then c.toLower else ' '

/-- The outer text from a level on. -/
def outer (l : Level) (cs : List Char) : List Char := outerFrom l.closing l.depth cs

/-! ## Texts one after the other -/

@[simp] theorem after_nil (l : Level) : l.after [] = l := rfl

@[simp] theorem after_cons (l : Level) (c : Char) (cs : List Char) :
    l.after (c :: cs) = (l.next c).after cs := rfl

theorem after_append (l : Level) (xs ys : List Char) :
    l.after (xs ++ ys) = (l.after xs).after ys := List.foldl_append

theorem top_outer (cs : List Char) : top.outer cs = outerText cs := rfl

@[simp] theorem outer_nil (l : Level) : l.outer [] = [] := by
  unfold outer outerFrom
  rfl

theorem outer_cons (l : Level) (c : Char) (cs : List Char) :
    l.outer (c :: cs) = l.shown c :: (l.next c).outer cs := by
  obtain ⟨closing, depth⟩ := l
  cases closing with
  | some close =>
    simp only [outer, outerFrom, shown, next]
    split <;> simp [top, inGroups]
  | none =>
    simp only [outer, outerFrom, shown, next, isMark]
    split_ifs with hquote
    · rcases hquote with rfl | rfl <;> simp_all
    all_goals simp_all [top, inGroups]

theorem outer_append (l : Level) (xs ys : List Char) :
    l.outer (xs ++ ys) = l.outer xs ++ (l.after xs).outer ys := by
  induction xs generalizing l with
  | nil => simp
  | cons x xs ih => simp [outer_cons, ih]

/-! ## Text without marks -/

/-- The quotes around are ended by a mark. -/
def Valid (l : Level) : Prop := ∀ close, l.closing = some close → isMark close = true

theorem valid_inGroups (k : Nat) : (inGroups k).Valid := nofun

theorem valid_top : top.Valid := valid_inGroups 0

theorem Valid.next (h : l.Valid) (c : Char) : (l.next c).Valid := by
  unfold Level.next
  split
  · split
    · exact valid_inGroups _
    · exact h
  · split_ifs with hquote
    · rintro _ ⟨⟩
      rcases hquote with rfl | rfl <;> rfl
    · rintro _ ⟨⟩
      rfl
    · exact valid_inGroups _
    · exact valid_inGroups _
    · exact h

theorem Valid.after (h : l.Valid) (cs : List Char) : (l.after cs).Valid := by
  induction cs generalizing l with
  | nil => exact h
  | cons c cs ih => exact ih (h.next c)

theorem next_unmarked (hl : l.Valid) (hc : isMark c = false) : l.next c = l := by
  unfold Level.next
  split
  · rename_i close hclose
    rw [if_neg]
    rintro rfl
    rw [hl _ hclose] at hc
    cases hc
  · simp only [isMark, Bool.or_eq_false_iff, beq_eq_false_iff_ne] at hc
    simp [hc]

theorem after_unmarked (hl : l.Valid) (h : Unmarked cs) : l.after cs = l := by
  induction cs with
  | nil => rfl
  | cons c cs ih =>
    rw [Unmarked, List.forall_mem_cons] at h
    rw [after_cons, next_unmarked hl h.1, ih h.2]

theorem outer_unmarked (h : Unmarked cs) : top.outer cs = cs.map Char.toLower := by
  induction cs with
  | nil => rfl
  | cons c cs ih =>
    rw [Unmarked, List.forall_mem_cons] at h
    have hnext : top.next c = top := next_unmarked valid_top h.1
    rw [outer_cons, hnext, ih h.2, shown, if_pos ⟨rfl, .inl h.1⟩]
    rfl

/-! ## Text that does not show -/

/-- The text leads from one level to another, and none of it shows. -/
structure Hides (l : Level) (cs : List Char) (l' : Level) : Prop where
  after : l.after cs = l'
  outer : l.outer cs = List.replicate cs.length ' '

theorem Hides.nil : Hides l [] l := ⟨rfl, outer_nil l⟩

theorem Hides.cons (hc : l.shown c = ' ') (h : Hides (l.next c) cs l') : Hides l (c :: cs) l' where
  after := h.after
  outer := by rw [outer_cons, hc, h.outer, List.length_cons, List.replicate_succ]

theorem Hides.append (h : Hides l xs l') (h' : Hides l' ys l'') : Hides l (xs ++ ys) l'' where
  after := by rw [after_append, h.after, h'.after]
  outer := by
    rw [outer_append, h.after, h.outer, h'.outer, List.length_append, List.replicate_add]

theorem shown_below (h : l ≠ top) (c : Char) : l.shown c = ' ' := if_neg fun hl => h hl.1

/-- Opening and closing marks do not show, whether they are marks in their place or not. -/
theorem shown_mark (hc : isMark c = true) (hb : c ≠ ']') (l : Level) : l.shown c = ' ' := by
  refine if_neg ?_
  rintro ⟨-, hplain | hbracket⟩
  · rw [hc] at hplain
    cases hplain
  · exact hb hbracket

theorem hides_unmarked (hl : l.Valid) (hne : l ≠ top) (h : Unmarked cs) : Hides l cs l := by
  induction cs with
  | nil => exact .nil
  | cons c cs ih =>
    rw [Unmarked, List.forall_mem_cons] at h
    refine .cons (shown_below hne c) ?_
    rw [next_unmarked hl h.1]
    exact ih h.2

/-! ## Names in quotes -/

/-- In quotes inside of groups. -/
def inQuotes (close : Char) (k : Nat) : Level := ⟨some close, k⟩

theorem next_closing (close : Char) (k : Nat) : (inQuotes close k).next close = inGroups k :=
  if_pos rfl

theorem next_inQuotes (h : c ≠ close) (k : Nat) : (inQuotes close k).next c = inQuotes close k :=
  if_neg h

theorem inQuotes_ne_top (close : Char) (k : Nat) : inQuotes close k ≠ top := nofun

/-- Where the closing character also opens quotes, a doubled one ends and begins them. -/
theorem hides_doubled (h : close = '"' ∨ close ∉ name) (k : Nat) :
    Hides (inQuotes close k) (Dialect.doubled close name ++ [close]) (inGroups k) := by
  induction name with
  | nil =>
    refine .cons (shown_below (inQuotes_ne_top close k) close) ?_
    rw [next_closing]
    exact .nil
  | cons c name ih =>
    have ih := ih (h.imp_right List.not_mem_of_not_mem_cons)
    by_cases hc : c = close
    · obtain rfl : close = '"' := h.resolve_right fun hmem => hmem (by rw [hc]; exact .head _)
      rw [hc, Dialect.doubled_self, List.cons_append, List.cons_append]
      refine .cons (shown_below (inQuotes_ne_top _ k) _) (.cons ?_ ?_)
      · exact shown_mark rfl (by decide) _
      · rw [next_closing]
        exact ih
    · rw [Dialect.doubled_ne hc, List.cons_append]
      refine .cons (shown_below (inQuotes_ne_top close k) c) ?_
      rw [next_inQuotes hc]
      exact ih

end Level

/-- A name whose quotes end at their closing character only: where the closing character does not
    open quotes as well, there is none in the name. -/
def Dialect.Shut (d : Dialect) (name : String) : Prop := d = .sqlServer → ']' ∉ name.toList

instance (d : Dialect) (name : String) : Decidable (d.Shut name) :=
  inferInstanceAs (Decidable (_ → _))

theorem Level.hides_quote {d : Dialect} {name : String} (h : d.Shut name) (k : Nat) :
    Hides (inGroups k) (d.quote name).toList (inGroups k) := by
  rw [Dialect.toList_quote]
  have hclose : d.closeQuote = '"' ∨ d.closeQuote ∉ name.toList := by
    cases d with
    | postgres => exact .inl rfl
    | sqlServer => exact .inr (h rfl)
  have hopen : (inGroups k).next d.openQuote = inQuotes d.closeQuote k := by cases d <;> rfl
  refine .cons ?_ ?_
  · cases d <;> exact shown_mark rfl (by decide) _
  · rw [hopen]
    exact hides_doubled hclose k

end RecordGraph
