/-
  A strict reader of JSON documents.

  * `Json.read?` accepts exactly one document, nested less than 128 deep, with
    blanks allowed around its tokens; a member named twice has its later value.
  * A fraction is read by scaling the digits that fit in 64 bits by powers of
    ten, each step rounded, so a fraction of many digits need not be the nearest
    one; digits beyond those 64 bits only move the point.
-/
import RecordGraph.Json

namespace RecordGraph.Json

/-- What is left after a piece has been read. -/
abbrev Rest (α : Type) := Option (α × List Char)

/-- The four characters that may stand between tokens. -/
def isBlank (c : Char) : Bool := c = ' ' || c = '\n' || c = '\r' || c = '\t'

def skipBlanks (cs : List Char) : List Char := cs.dropWhile isBlank

/-! ## Strings -/

/-- The character that a letter after a reverse solidus stands for. -/
def unescaped? (c : Char) : Option Char :=
  if c = '"' then some '"'
  else if c = '\\' then some '\\'
  else if c = '/' then some '/'
  else if c = 'b' then some '\x08'
  else if c = 'f' then some '\x0c'
  else if c = 'n' then some '\n'
  else if c = 'r' then some '\r'
  else if c = 't' then some '\t'
  else none

/-- A number in the first half of a surrogate pair. -/
def isHighSurrogate (n : Nat) : Bool := 0xD800 ≤ n && n ≤ 0xDBFF

/-- A number in the second half of a surrogate pair. -/
def isLowSurrogate (n : Nat) : Bool := 0xDC00 ≤ n && n ≤ 0xDFFF

/-- The character of a surrogate pair. -/
def ofSurrogates (high low : Nat) : Char :=
  Char.ofNat (0x10000 + (high - 0xD800) * 0x400 + (low - 0xDC00))

/-- Reads up to the closing quote; `before` are the characters read, last first. -/
def readString (before : List Char) : List Char → Rest String
  | [] => none
  | '"' :: rest => some (String.ofList before.reverse, rest)
  | '\\' :: 'u' :: a :: b :: c :: d :: rest =>
    match ofHex? [a, b, c, d] with
    | none => none
    | some high =>
      if isHighSurrogate high then
        match rest with
        | '\\' :: 'u' :: a :: b :: c :: d :: rest =>
          match ofHex? [a, b, c, d] with
          | some low =>
            if isLowSurrogate low then readString (ofSurrogates high low :: before) rest else none
          | none => none
        | _ => none
      else if isLowSurrogate high then none
      else readString (Char.ofNat high :: before) rest
  | ['\\'] => none
  | '\\' :: c :: rest =>
    match unescaped? c with
    | some e => readString (e :: before) rest
    | none => none
  | c :: rest => if c.toNat < 32 then none else readString (c :: before) rest

/-! ## Numbers -/

/-- The digits a whole number starts with, and what follows them. -/
def spanDigits (cs : List Char) : List Char × List Char := cs.span Char.isDigit

/-- Takes digits into a number while it fits in 64 bits; the count tells how many
    it took. -/
def absorb (n taken : Nat) : List Char → Nat × Nat
  | [] => (n, taken)
  | c :: rest =>
    let next := n * 10 + (c.toNat - '0'.toNat)
    if next < Nat.pow 2 64 then absorb next (taken + 1) rest else (n, taken)

/-- Scales by `10 ^ exponent`, for numbers beyond the largest power of ten in
    steps of that power, at most `fuel` of them.  `none` if it grows out of the
    numbers. -/
def scale (fuel : Nat) (x : Double) (exponent : Int) : Option Double :=
  if exponent.natAbs ≤ 308 then
    let power := Double.nearest false (tenPow exponent.natAbs)
    if 0 ≤ exponent then
      let product := x.mulMagnitudes power
      if product.isInfinite then none else some product
    else some (x.divMagnitudes power)
  else if x.isZero then some x
  else if 0 ≤ exponent then none
  else match fuel with
    | 0 => some .zero
    | fuel + 1 =>
      scale fuel (x.divMagnitudes (Double.nearest false (tenPow 308))) (exponent + 308)

/-- A fraction of the given digits. -/
def ofParts (negative : Bool) (significand : Nat) (exponent : Int) : Option JsonNumber :=
  (scale 4 (Double.nearest false significand) exponent).map fun x =>
    .fraction (if negative then x.neg else x)

/-- The exponents that can be told apart; a larger one makes any number other
    than zero too large, or too small to be told from zero. -/
def largestExponent : Nat := Nat.pow 2 31 - 1

/-- Reads what follows the `e` of a number. -/
def readExponent (negative : Bool) (significand : Nat) (exponent : Int) (cs : List Char) :
    Rest JsonNumber :=
  let (positive, cs) : Bool × List Char := match cs with
    | '+' :: rest => (true, rest)
    | '-' :: rest => (false, rest)
    | _ => (true, cs)
  let (digits, rest) := spanDigits cs
  if digits.isEmpty then none
  else
    let power := digits.foldl (fun n c => n * 10 + (c.toNat - '0'.toNat)) 0
    if largestExponent < power then
      if significand ≠ 0 ∧ positive then none
      else some (.fraction (if negative then Double.zero.neg else .zero), rest)
    else
      let total := if positive then exponent + power else exponent - power
      (ofParts negative significand total).map (·, rest)

/-- Reads the fraction or exponent that may follow the digits of a number. -/
def readTail (negative : Bool) (significand : Nat) (exponent : Int) (cs : List Char) :
    Rest JsonNumber :=
  match cs with
  | '.' :: cs =>
    let (digits, rest) := spanDigits cs
    if digits.isEmpty then none
    else
      let (significand, taken) := absorb significand 0 digits
      match rest with
      | 'e' :: rest | 'E' :: rest => readExponent negative significand (exponent - taken) rest
      | _ => (ofParts negative significand (exponent - taken)).map (·, rest)
  | 'e' :: rest | 'E' :: rest => readExponent negative significand exponent rest
  | _ => (ofParts negative significand exponent).map (·, cs)

/-- Reads a number after its sign.  A number without fraction and exponent is
    whole if it fits; a negative zero is a fraction. -/
def readNumber (negative : Bool) (cs : List Char) : Rest JsonNumber :=
  let (digits, rest) := spanDigits cs
  if digits.isEmpty ∨ (digits.head? = some '0' ∧ 1 < digits.length) then none
  else
    let (significand, taken) := absorb 0 0 digits
    let dropped := digits.length - taken
    match rest with
    | '.' :: _ | 'e' :: _ | 'E' :: _ => readTail negative significand dropped rest
    | _ =>
      if 0 < dropped then readTail negative significand dropped rest
      else if !negative then some (.whole significand, rest)
      else if 0 < significand ∧ significand ≤ Nat.pow 2 63 then some (.whole (-significand), rest)
      else some (.fraction (Double.nearest true significand), rest)

/-! ## Documents -/

mutual

/-- Reads a document; `room` is how many levels of nesting are left. -/
def readDocument : (fuel room : Nat) → List Char → Rest Json
  | 0, _, _ => none
  | fuel + 1, room, cs =>
    match skipBlanks cs with
    | 'n' :: 'u' :: 'l' :: 'l' :: rest => some (.null, rest)
    | 't' :: 'r' :: 'u' :: 'e' :: rest => some (.bool true, rest)
    | 'f' :: 'a' :: 'l' :: 's' :: 'e' :: rest => some (.bool false, rest)
    | '"' :: rest => (readString [] rest).map fun (s, rest) => (.string s, rest)
    | '-' :: rest => (readNumber true rest).map fun (n, rest) => (.number n, rest)
    | '[' :: rest =>
      if room = 0 then none
      else match skipBlanks rest with
        | ']' :: rest => some (.array [], rest)
        | rest => (readItems fuel (room - 1) rest).map fun (xs, rest) => (.array xs, rest)
    | '\x7b' :: rest =>
      if room = 0 then none
      else match skipBlanks rest with
        | '\x7d' :: rest => some (.object [], rest)
        | rest => (readMembers fuel (room - 1) rest).map fun (ms, rest) => (.ofMembers ms, rest)
    | rest => (readNumber false rest).map fun (n, rest) => (.number n, rest)

/-- Reads the items of an array that is not empty, and its closing bracket. -/
def readItems : (fuel room : Nat) → List Char → Rest (List Json)
  | 0, _, _ => none
  | fuel + 1, room, cs =>
    match readDocument fuel room cs with
    | none => none
    | some (item, rest) =>
      match skipBlanks rest with
      | ',' :: rest => (readItems fuel room rest).map fun (items, rest) => (item :: items, rest)
      | ']' :: rest => some ([item], rest)
      | _ => none

/-- Reads the members of an object that is not empty, and its closing brace. -/
def readMembers : (fuel room : Nat) → List Char → Rest (List (String × Json))
  | 0, _, _ => none
  | fuel + 1, room, cs =>
    match skipBlanks cs with
    | '"' :: rest =>
      match readString [] rest with
      | none => none
      | some (name, rest) =>
        match skipBlanks rest with
        | ':' :: rest =>
          match readDocument fuel room rest with
          | none => none
          | some (value, rest) =>
            match skipBlanks rest with
            | ',' :: rest =>
              (readMembers fuel room rest).map fun (ms, rest) => ((name, value) :: ms, rest)
            | '\x7d' :: rest => some ([(name, value)], rest)
            | _ => none
        | _ => none
    | _ => none

end

/-- The deepest nesting that is read. -/
def deepest : Nat := 127

/-- Reads a text that holds one document and nothing else.  Every level and every
    item takes a character, so the length of the text bounds the recursion. -/
def read? (s : String) : Option Json :=
  let cs := s.toList
  match readDocument (2 * cs.length + 1) deepest cs with
  | some (json, rest) => if (skipBlanks rest).isEmpty then some json else none
  | none => none

end RecordGraph.Json
