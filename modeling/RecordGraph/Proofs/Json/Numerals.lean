/-
  Numbers in the text of documents.

  A number is read as far as it goes, and what follows it in a document does not go on with it
  (`Ends`).  A whole number in range is read back from its text (`reads_whole`).  What is written
  for a fraction is read to its end as well (`reads_fractionText`), but the number that is read
  need not be the one that was written.
-/
import Mathlib.Data.List.Basic
import Mathlib.Data.List.TakeDrop
import Mathlib.Data.List.TakeWhile
import RecordGraph.Json.Reader

namespace RecordGraph.Json

/-! ## What follows -/

/-- What may follow a document inside of another one, or at the end. -/
def Ends (rest : List Char) : Prop := ∀ c ∈ rest.head?, c = ',' ∨ c = ']' ∨ c = '\x7d'

theorem ends_nil : Ends [] := nofun

theorem ends_cons {c : Char} (rest : List Char) (h : c = ',' ∨ c = ']' ∨ c = '\x7d') :
    Ends (c :: rest) := by
  rintro _ ⟨⟩
  exact h

variable {α β : Type}

/-- However a document goes on, all of a text is read, with the given result; with `none` the text
    cannot be read. -/
def Reads (read : List Char → Rest α) (cs : List Char) (result : Option α) : Prop :=
  ∀ rest, Ends rest → read (cs ++ rest) = result.map (·, rest)

/-- However a document goes on, a text is read as if nothing followed, and to its end. -/
def ReadsWhole (read : List Char → Rest α) (cs : List Char) : Prop :=
  Reads read cs ((read cs).map Prod.fst)

theorem Reads.map {read : List Char → Rest α} {cs : List Char} {result : Option α}
    (h : Reads read cs result) (f : α → β) :
    Reads (fun cs => (read cs).map fun p => (f p.1, p.2)) cs (result.map f) := by
  intro rest hrest
  simp only [h rest hrest, Option.map_map]
  rfl

/-! ## Digits -/

/-- One digit or more. -/
structure Digits (ds : List Char) : Prop where
  isDigit : ∀ c ∈ ds, c.isDigit = true
  ne_nil : ds ≠ []

theorem Digits.append {ds ds' : List Char} (h : Digits ds) (h' : ∀ c ∈ ds', c.isDigit = true) :
    Digits (ds ++ ds') :=
  ⟨fun c hc => (List.mem_append.1 hc).elim (h.isDigit c) (h' c),
    fun hnil => h.ne_nil (List.append_eq_nil_iff.1 hnil).1⟩

theorem digits_decimalDigits (n : Nat) : Digits (decimalDigits n) :=
  ⟨fun _ hc => Nat.isDigit_of_mem_toDigits (by decide) (by decide) hc, Nat.toDigits_ne_nil⟩

/-- The text does not go on with a digit. -/
def Stops (rest : List Char) : Prop := ∀ c ∈ rest.head?, c.isDigit = false

theorem Ends.stops {rest : List Char} (h : Ends rest) : Stops rest := by
  intro c hc
  rcases h c hc with rfl | rfl | rfl <;> rfl

theorem stops_cons {c : Char} (rest : List Char) (h : c.isDigit = false) : Stops (c :: rest) := by
  rintro _ ⟨⟩
  exact h

theorem spanDigits_append {ds rest : List Char} (hds : Digits ds) (h : Stops rest) :
    spanDigits (ds ++ rest) = (ds, rest) := by
  have hstop : rest.takeWhile Char.isDigit = [] ∧ rest.dropWhile Char.isDigit = rest := by
    cases rest with
    | nil => exact ⟨rfl, rfl⟩
    | cons c rest => simp [h c rfl]
  rw [spanDigits, List.span_eq_takeWhile_dropWhile, List.takeWhile_append_of_pos hds.isDigit,
    List.dropWhile_append_of_pos hds.isDigit, hstop.1, hstop.2, List.append_nil]

theorem spanDigits_digits {ds : List Char} (hds : Digits ds) : spanDigits ds = (ds, []) := by
  simpa using spanDigits_append hds ends_nil.stops

theorem Digits.isEmpty {ds : List Char} (h : Digits ds) : ds.isEmpty = false := by
  simpa using h.ne_nil

/-! ## Fractions -/

/-- What makes a number a fraction: a point, or an exponent with its sign. -/
inductive Tail : List Char → Prop
  | point {ds : List Char} : Digits ds → Tail ('.' :: ds)
  | power {sign : Char} {es : List Char} : sign = '+' ∨ sign = '-' → Digits es →
      Tail ('e' :: sign :: es)
  | pointPower {ds es : List Char} {sign : Char} : Digits ds → sign = '+' ∨ sign = '-' →
      Digits es → Tail ('.' :: (ds ++ 'e' :: sign :: es))

variable {negative : Bool} {significand : Nat} {exponent : Int} {ds es tail : List Char}
  {sign : Char}

theorem readExponent_whole (hsign : sign = '+' ∨ sign = '-') (hes : Digits es) :
    ReadsWhole (readExponent negative significand exponent) (sign :: es) := by
  intro rest hrest
  rcases hsign with rfl | rfl
  all_goals
    simp only [List.cons_append, readExponent, spanDigits_append hes hrest.stops,
      spanDigits_digits hes, hes.isEmpty]
    split_ifs <;> simp only [Option.map_none, Option.map_some, Option.map_map] <;> rfl

theorem readTail_point (hds : Digits ds) :
    ReadsWhole (readTail negative significand exponent) ('.' :: ds) := by
  intro rest hrest
  simp only [List.cons_append, readTail, spanDigits_append hds hrest.stops, spanDigits_digits hds,
    hds.isEmpty, Bool.false_eq_true, if_false, Option.map_map]
  cases rest with
  | nil => rfl
  | cons c rest => rcases hrest c rfl with rfl | rfl | rfl <;> rfl

theorem readTail_pointPower (hds : Digits ds) (cs : List Char) :
    readTail negative significand exponent ('.' :: (ds ++ 'e' :: cs)) =
      readExponent negative (absorb significand 0 ds).1 (exponent - (absorb significand 0 ds).2)
        cs := by
  simp only [readTail, spanDigits_append hds (stops_cons (c := 'e') cs rfl), hds.isEmpty,
    Bool.false_eq_true, if_false]

theorem Tail.whole (h : Tail tail) : ReadsWhole (readTail negative significand exponent) tail := by
  intro rest hrest
  cases h with
  | point hds => exact readTail_point hds rest hrest
  | power hsign hes => exact readExponent_whole hsign hes rest hrest
  | pointPower hds hsign hes =>
    simp only [List.cons_append, List.append_assoc, readTail_pointPower hds]
    exact readExponent_whole hsign hes rest hrest

theorem Tail.head (h : Tail tail) : ∃ cs, tail = '.' :: cs ∨ tail = 'e' :: cs := by
  cases h with
  | point => exact ⟨_, .inl rfl⟩
  | power => exact ⟨_, .inr rfl⟩
  | pointPower => exact ⟨_, .inl rfl⟩

/-- What is read behind the digits of a number that has a point or an exponent. -/
theorem readNumber_tail (hds : Digits ds) (htail : ∃ cs, tail = '.' :: cs ∨ tail = 'e' :: cs) :
    readNumber negative (ds ++ tail) =
      if ds.head? = some '0' ∧ 1 < ds.length then none
      else readTail negative (absorb 0 0 ds).1 (ds.length - (absorb 0 0 ds).2 : Nat) tail := by
  obtain ⟨cs, rfl | rfl⟩ := htail
  · simp only [readNumber, spanDigits_append hds (stops_cons (c := '.') cs rfl), hds.isEmpty,
      Bool.false_eq_true, false_or]
  · simp only [readNumber, spanDigits_append hds (stops_cons (c := 'e') cs rfl), hds.isEmpty,
      Bool.false_eq_true, false_or]

/-- The text of a fraction without its sign. -/
inductive Numeral : List Char → Prop
  | mk {ds tail : List Char} : Digits ds → Tail tail → Numeral (ds ++ tail)

theorem Numeral.whole {cs : List Char} (h : Numeral cs) : ReadsWhole (readNumber negative) cs := by
  obtain @⟨ds, tail, hds, htail⟩ := h
  intro rest hrest
  obtain ⟨cs, hcs⟩ := htail.head
  have hgoes : ∃ cs, tail ++ rest = '.' :: cs ∨ tail ++ rest = 'e' :: cs :=
    ⟨cs ++ rest, hcs.imp (by rintro rfl; rfl) (by rintro rfl; rfl)⟩
  rw [List.append_assoc, readNumber_tail hds hgoes, readNumber_tail hds ⟨cs, hcs⟩]
  split
  · rfl
  · exact htail.whole rest hrest

/-- The text starts with a digit. -/
def DigitFirst (cs : List Char) : Prop := ∃ c cs', cs = c :: cs' ∧ c.isDigit = true

theorem Digits.first_append (h : Digits ds) (cs : List Char) : DigitFirst (ds ++ cs) := by
  obtain ⟨c, ds, rfl⟩ := List.exists_cons_of_ne_nil h.ne_nil
  exact ⟨c, ds ++ cs, rfl, h.isDigit c List.mem_cons_self⟩

theorem first_decimalDigits (n : Nat) : DigitFirst (decimalDigits n) := by
  simpa using (digits_decimalDigits n).first_append []

theorem Numeral.first {cs : List Char} (h : Numeral cs) : DigitFirst cs := by
  obtain ⟨hds, -⟩ := h
  exact hds.first_append _

/-- Digits on both sides of a point. -/
theorem numeral_point (hds : Digits ds) (hes : Digits es) : Numeral (ds ++ '.' :: es) :=
  .mk hds (.point hes)

theorem digits_zeros (n : Nat) : ∀ c ∈ List.replicate n '0', c.isDigit = true := by
  intro c hc
  rw [List.eq_of_mem_replicate hc]
  rfl

theorem Digits.take {n : Nat} (h : Digits ds) (hn : 0 < n) : Digits (ds.take n) :=
  ⟨fun c hc => h.isDigit c (List.mem_of_mem_take hc), by simpa [hn.ne'] using h.ne_nil⟩

theorem Digits.drop {n : Nat} (h : Digits ds) (hn : n < ds.length) : Digits (ds.drop n) :=
  ⟨fun c hc => h.isDigit c (List.mem_of_mem_drop hc), by simpa using hn⟩

theorem numeral_scientific (d : Decimal) : Numeral d.scientific := by
  have hfirst : Digits ((decimalDigits d.digits).take 1) :=
    (digits_decimalDigits d.digits).take (by decide)
  have hpower (power : Int) : Digits (decimalDigits power.natAbs) := digits_decimalDigits _
  have hsign (power : Int) : (if power < 0 then '-' else '+') = '+' ∨
      (if power < 0 then '-' else '+') = '-' := by
    split
    · exact .inr rfl
    · exact .inl rfl
  unfold Decimal.scientific
  dsimp only
  split
  · rw [List.append_nil]
    exact .mk hfirst (.power (hsign _) (hpower _))
  · rename_i hone
    have hmore : Digits ((decimalDigits d.digits).drop 1) := by
      have hpos := List.length_pos_iff.2 (digits_decimalDigits d.digits).ne_nil
      exact (digits_decimalDigits d.digits).drop (by omega)
    rw [List.append_assoc]
    exact .mk hfirst (.pointPower hmore (hsign _) (hpower _))

theorem numeral_positional {d : Decimal} (h : d.exponent < 0) : Numeral d.positional := by
  obtain ⟨k, hk⟩ := Int.eq_negSucc_of_lt_zero h
  have hds := digits_decimalDigits d.digits
  rw [Decimal.positional, hk]
  dsimp only
  split
  · exact numeral_point (hds.take (by omega)) (hds.drop (by omega))
  · have hfraction (n : Nat) : Digits (List.replicate n '0' ++ decimalDigits d.digits) :=
      ⟨fun c hc => (List.mem_append.1 hc).elim (digits_zeros n c) (hds.isDigit c),
        fun hnil => hds.ne_nil (List.append_eq_nil_iff.1 hnil).2⟩
    exact numeral_point (digits_decimalDigits 0) (hfraction _)

theorem numeral_fractional (d : Decimal) : Numeral d.fractional := by
  unfold Decimal.fractional
  dsimp only
  split
  · split
    · rename_i hwhole
      obtain ⟨n, hn⟩ := Int.eq_ofNat_of_zero_le hwhole
      rw [Decimal.positional, hn]
      have hds := (digits_decimalDigits d.digits).append (digits_zeros n)
      exact numeral_point hds (digits_decimalDigits 0)
    · rename_i hplaces
      exact numeral_positional (Int.not_le.1 hplaces)
  · exact numeral_scientific d

/-! ## Documents that are numbers -/

/-- How the text of a document begins: it can be told from a blank and from the end of an
    array. -/
def Opens (cs : List Char) : Prop := ∃ c cs', cs = c :: cs' ∧ isBlank c = false ∧ c ≠ ']'

theorem Opens.skipBlanks {cs : List Char} (h : Opens cs) : skipBlanks cs = cs := by
  obtain ⟨c, cs, rfl, hblank, -⟩ := h
  simp [Json.skipBlanks, hblank]

theorem DigitFirst.opens {cs : List Char} (h : DigitFirst cs) : Opens cs := by
  obtain ⟨c, cs, rfl, hc⟩ := h
  have hne {d : Char} (hd : d.isDigit = false) : c ≠ d := by
    rintro rfl
    rw [hd] at hc
    cases hc
  exact ⟨c, cs, rfl, by simp [isBlank, hne (d := ' ') rfl, hne (d := '\n') rfl,
    hne (d := '\r') rfl, hne (d := '\t') rfl], hne rfl⟩

theorem readDocument_minus (n room : Nat) (cs : List Char) :
    readDocument (n + 1) room ('-' :: cs) =
      (readNumber true cs).map fun p => (.number p.1, p.2) :=
  rfl

theorem readDocument_digit (n room : Nat) {cs : List Char} (h : DigitFirst cs) :
    readDocument (n + 1) room cs =
      (readNumber false cs).map fun p => (.number p.1, p.2) := by
  rw [readDocument, h.opens.skipBlanks]
  obtain ⟨c, cs, rfl, hc⟩ := h
  split <;> simp_all

/-- A numeral with its sign. -/
def signed (negative : Bool) (cs : List Char) : List Char := if negative then '-' :: cs else cs

theorem opens_signed {cs : List Char} (h : DigitFirst cs) : Opens (signed negative cs) := by
  cases negative with
  | false => exact h.opens
  | true => exact ⟨'-', cs, rfl, rfl, by decide⟩

theorem reads_signed {cs : List Char} {result : Option JsonNumber} (hfirst : DigitFirst cs)
    (h : Reads (readNumber negative) cs result) (n room : Nat) :
    Reads (readDocument (n + 1) room) (signed negative cs) (result.map .number) := by
  intro rest hrest
  rw [← h.map Json.number rest hrest]
  cases negative with
  | true => exact readDocument_minus n room _
  | false =>
    obtain ⟨c, cs, rfl, hc⟩ := hfirst
    exact readDocument_digit n room ⟨c, cs ++ rest, rfl, hc⟩

/-! ### Fractions -/

/-- What is written of a fraction: a numeral with its sign, or the word for none. -/
theorem fractionText_eq (x : Double) :
    (∃ negative cs, Numeral cs ∧ (fractionText x).toList = signed negative cs) ∨
      fractionText x = "null" := by
  unfold fractionText
  dsimp only
  split
  · rename_i negative _ _
    refine .inl ⟨negative, _, numeral_point (digits_decimalDigits 0) (digits_decimalDigits 0), ?_⟩
    cases negative <;> rfl
  · rename_i negative m e _ _
    refine .inl ⟨negative, _, numeral_fractional (shortest .binary64 .toEven m e), ?_⟩
    cases negative <;> simp [signed]
  · exact .inr rfl

theorem opens_fractionText (x : Double) : Opens (fractionText x).toList := by
  rcases fractionText_eq x with ⟨negative, cs, hcs, htext⟩ | htext
  · rw [htext]
    exact opens_signed hcs.first
  · rw [htext]
    exact ⟨'n', _, rfl, rfl, by decide⟩

theorem reads_fractionText (x : Double) :
    ∃ result, ∀ n room, Reads (readDocument (n + 1) room) (fractionText x).toList result := by
  rcases fractionText_eq x with ⟨negative, cs, hcs, htext⟩ | htext
  · exact ⟨_, fun n room => htext ▸ reads_signed hcs.first hcs.whole n room⟩
  · exact ⟨some .null, fun n room rest hrest => htext ▸ rfl⟩

/-! ### Whole numbers -/

theorem le_ofDigitChars (ds : List Char) (n : Nat) : n ≤ Nat.ofDigitChars 10 ds n := by
  induction ds generalizing n with
  | nil => exact le_rfl
  | cons d ds ih =>
    have hnext : n ≤ 10 * n + (d.toNat - '0'.toNat) := by omega
    exact hnext.trans (ih _)

/-- All digits of a number of 64 bits are taken. -/
theorem absorb_eq (ds : List Char) {n : Nat} (taken : Nat)
    (h : Nat.ofDigitChars 10 ds n < Nat.pow 2 64) :
    absorb n taken ds = (Nat.ofDigitChars 10 ds n, taken + ds.length) := by
  induction ds generalizing n taken with
  | nil => rfl
  | cons d ds ih =>
    have hnext : n * 10 + (d.toNat - '0'.toNat) = 10 * n + (d.toNat - '0'.toNat) := by
      rw [Nat.mul_comm]
    have hfits := (le_ofDigitChars ds (10 * n + (d.toNat - '0'.toNat))).trans_lt h
    rw [absorb, hnext, if_pos hfits, ih _ h, List.length_cons, Nat.add_right_comm, Nat.add_assoc]
    rfl

theorem absorb_decimalDigits {n : Nat} (h : n < Nat.pow 2 64) :
    absorb 0 0 (decimalDigits n) = (n, (decimalDigits n).length) := by
  have hvalue : Nat.ofDigitChars 10 (decimalDigits n) 0 = n := Nat.ofDigitChars_ten_toDigits
  rw [absorb_eq _ 0 (hvalue.trans_lt h), hvalue, Nat.zero_add]

theorem head_decimalDigits {n : Nat} (h : 0 < n) : (decimalDigits n).head? ≠ some '0' := by
  induction n using Nat.strongRecOn with
  | _ n ih =>
    unfold decimalDigits
    rw [Nat.toDigits_eq_if (by decide)]
    split
    · rename_i hone
      have hdigit : ∀ d < 10, 0 < d → [d.digitChar].head? ≠ some '0' := by decide
      exact hdigit n hone h
    · rw [List.head?_append_of_ne_nil _ Nat.toDigits_ne_nil]
      exact ih (n / 10) (by omega) (by omega)

/-- A number of more digits than one does not start with a zero. -/
theorem no_leading_zero (n : Nat) :
    ¬ ((decimalDigits n).head? = some '0' ∧ 1 < (decimalDigits n).length) := by
  rintro ⟨hhead, hlength⟩
  rcases Nat.eq_zero_or_pos n with rfl | hpos
  · exact absurd hlength (by decide)
  · exact head_decimalDigits hpos hhead

theorem reads_decimalDigits (negative : Bool) {n : Nat} (h : n < Nat.pow 2 64) :
    Reads (readNumber negative) (decimalDigits n)
      (some (if !negative then .whole n
        else if 0 < n ∧ n ≤ Nat.pow 2 63 then .whole (-n)
        else .fraction (Double.nearest true n))) := by
  intro rest hrest
  have hds := digits_decimalDigits n
  simp only [readNumber, spanDigits_append hds hrest.stops, hds.isEmpty, absorb_decimalDigits h,
    no_leading_zero, Nat.sub_self, Bool.false_eq_true, false_or, if_false, Nat.lt_irrefl]
  cases rest with
  | nil => split_ifs <;> rfl
  | cons c rest => rcases hrest c rfl with rfl | rfl | rfl <;> split_ifs <;> rfl

/-- A whole number that is kept as one. -/
def InRange (i : Int) : Prop := -(Nat.pow 2 63 : Nat) ≤ i ∧ i < (Nat.pow 2 64 : Nat)

theorem toString_eq (i : Int) :
    (toString i).toList = signed (decide (i < 0)) (decimalDigits i.natAbs) := by
  cases i with
  | ofNat n => exact String.toList_ofList
  | negSucc n =>
    change ("-" ++ String.ofList (Nat.toDigits 10 (n + 1))).toList = _
    have hneg : Int.negSucc n < 0 := Int.negSucc_lt_zero n
    simp only [String.toList_append, String.toList_ofList, hneg]
    rfl

theorem opens_whole (i : Int) : Opens (toString i).toList :=
  toString_eq i ▸ opens_signed (first_decimalDigits i.natAbs)

/-- A whole number in range is read back from its text. -/
theorem reads_whole {i : Int} (h : InRange i) (n room : Nat) :
    Reads (readDocument (n + 1) room) (toString i).toList (some (.number (.whole i))) := by
  have hfirst := first_decimalDigits i.natAbs
  have hpow : Nat.pow 2 64 = 2 * Nat.pow 2 63 := rfl
  obtain ⟨hlow, hhigh⟩ := h
  have hsize : i.natAbs < Nat.pow 2 64 := by
    have hpos : 0 < Nat.pow 2 63 := by decide
    omega
  rw [toString_eq]
  by_cases hneg : i < 0
  · have hvalue : (-(i.natAbs : Int)) = i := by omega
    have hread := reads_signed hfirst (reads_decimalDigits true hsize) n room
    have hbounds : 0 < i.natAbs ∧ i.natAbs ≤ Nat.pow 2 63 := by omega
    rw [if_neg (by decide), if_pos hbounds, hvalue] at hread
    rwa [decide_eq_true hneg]
  · have hvalue : (i.natAbs : Int) = i := by omega
    have hread := reads_signed hfirst (reads_decimalDigits false hsize) n room
    rw [if_pos (by decide), hvalue] at hread
    rwa [decide_eq_false hneg]

end RecordGraph.Json
