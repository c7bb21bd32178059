/-
  The tokens of the texts of types: words, lifetimes, literals and signs.

  * `tokens` cuts a text into its tokens; what is blank, and comments, are left out.
  * `lead` says what a text starts with and how long it is.  Each of the functions
    named after a size counts the characters that go on with what has begun, so that
    a text is cut by dropping that many.
-/
import RecordGraph.Text.Words

namespace RecordGraph

/-- A word, a literal or a sign. -/
inductive Token where
  | word (w : String)
  | lifetime
  | literal
  /-- `::` -/
  | join
  /-- `->` -/
  | arrow
  | sign (c : Char)
  deriving DecidableEq

namespace Token

/-! ## Characters -/

/-- Spaces, the marks of direction and the mark of byte order. -/
def isBlank (c : Char) : Bool :=
  isSpace c || c = '\u200e' || c = '\u200f' || c = '\ufeff'

/-- Characters that start a word. -/
def startsWord (c : Char) : Bool := c.isAlpha || c = '_' || (0x80 ≤ c.toNat && !isBlank c)

/-- Characters that go on with a word. -/
def inWord (c : Char) : Bool := startsWord c || c.isDigit

/-- Characters that go on with the digits of a number. -/
def inDigits (c : Char) : Bool := c.isDigit || c = '_'

/-! ## Sizes -/

/-- How many characters of a class a text starts with. -/
def runSize (isIn : Char → Bool) (cs : List Char) : Nat := (cs.takeWhile isIn).length

/-- The word that may follow a literal. -/
def suffixSize : List Char → Nat
  | [] => 0
  | c :: cs => if startsWord c then runSize inWord (c :: cs) else 0

/-- The rest of a comment up to the end of the line. -/
def lineSize (cs : List Char) : Nat := runSize (· ≠ '\n') cs

/-- The rest of a comment, in which `depth` others are open. -/
def commentSize (depth : Nat) : List Char → Nat
  | '*' :: '/' :: cs => match depth with
    | 0 => 2
    | depth + 1 => 2 + commentSize depth cs
  | '/' :: '*' :: cs => 2 + commentSize (depth + 1) cs
  | _ :: cs => 1 + commentSize depth cs
  | [] => 0

/-- The rest of a quoted text, up to the mark that is not escaped. -/
def quotedSize (mark : Char) : List Char → Nat
  | '\\' :: _ :: cs => 2 + quotedSize mark cs
  | c :: cs => if c = mark then 1 + suffixSize cs else 1 + quotedSize mark cs
  | [] => 0

/-- The rest of a quoted text without escapes, up to the mark with enough signs. -/
def rawSize (signs : Nat) : List Char → Nat
  | '"' :: cs =>
    if (List.replicate signs '#').isPrefixOf cs then 1 + signs + suffixSize (cs.drop signs)
    else 1 + rawSize signs cs
  | _ :: cs => 1 + rawSize signs cs
  | [] => 0

/-- A quoted text without escapes, from the signs before its mark on. -/
def rawTextSize? (cs : List Char) : Option Nat :=
  let signs := runSize (· = '#') cs
  match cs.drop signs with
  | '"' :: rest => some (signs + 1 + rawSize signs rest)
  | _ => none

/-- A literal with letters in front, after its first letter. -/
def letteredSize? (c : Char) (cs : List Char) : Option Nat :=
  match c, cs with
  | 'b', '\'' :: rest => some (1 + quotedSize '\'' rest)
  | 'b', '"' :: rest => some (1 + quotedSize '"' rest)
  | 'c', '"' :: rest => some (1 + quotedSize '"' rest)
  | 'b', 'r' :: rest => (rawTextSize? rest).map (1 + ·)
  | 'c', 'r' :: rest => (rawTextSize? rest).map (1 + ·)
  | 'r', rest => rawTextSize? rest
  | _, _ => none

/-- The fractional part of a number.  A point before another one or before a word is
    none. -/
def fractionSize : List Char → Nat
  | '.' :: c :: cs => if c = '.' || startsWord c then 0 else 1 + runSize inDigits (c :: cs)
  | ['.'] => 1
  | _ => 0

/-- An exponent up to its sign. -/
def exponentSize : List Char → Nat
  | [] => 0
  | e :: cs =>
    let gap := runSize (· = '_') cs
    match cs.drop gap with
    | s :: digits =>
      if (e = 'e' || e = 'E') && (s = '+' || s = '-') &&
          ((digits.dropWhile (· = '_')).head?.any Char.isDigit) then gap + 2
      else 0
    | [] => 0

/-- The rest of a number: digits, a fractional part, an exponent and a word. -/
def numberSize (cs : List Char) : Nat :=
  let digits := runSize inDigits cs
  let fraction := digits + fractionSize (cs.drop digits)
  let exponent := fraction + exponentSize (cs.drop fraction)
  exponent + runSize inWord (cs.drop exponent)

/-! ## Tokens -/

/-- The token that a single quote starts: a character or a lifetime. -/
def quoteLead : List Char → Token × Nat
  | '\\' :: cs => (.literal, quotedSize '\'' ('\\' :: cs))
  | _ :: '\'' :: cs => (.literal, 2 + suffixSize cs)
  | 'r' :: '#' :: cs => (.lifetime, 2 + runSize inWord cs)
  | cs => (.lifetime, runSize inWord cs)

/-- The token that a letter starts: a literal or a word, which may be one that is
    marked to be no other word. -/
def wordLead (c : Char) (cs : List Char) : Token × Nat :=
  match letteredSize? c cs with
  | some n => (.literal, n)
  | none =>
    let size := match c, cs with
      | 'r', '#' :: rest => 1 + runSize inWord rest
      | _, _ => runSize inWord cs
    (.word (String.ofList (c :: cs.take size)), size)

/-- What a text starts with, if it is a token, and how many characters it has after
    the first. -/
def lead (c : Char) (cs : List Char) : Option Token × Nat :=
  match c, cs with
  | '/', '/' :: rest => (none, 1 + lineSize rest)
  | '/', '*' :: rest => (none, 1 + commentSize 0 rest)
  | ':', ':' :: _ => (some .join, 1)
  | '-', '>' :: _ => (some .arrow, 1)
  | '"', _ => (some .literal, quotedSize '"' cs)
  | '\'', _ => ((quoteLead cs).1, (quoteLead cs).2)
  | _, _ =>
    if isBlank c then (none, 0)
    else if c.isDigit then (some .literal, numberSize cs)
    else if startsWord c then (some (wordLead c cs).1, (wordLead c cs).2)
    else (some (.sign c), 0)

end Token

/-- The tokens of a text. -/
def tokens : List Char → List Token
  | [] => []
  | c :: cs =>
    let (token, size) := Token.lead c cs
    token.toList ++ tokens (cs.drop size)
termination_by cs => cs.length
decreasing_by simp only [List.length_drop, List.length_cons]; omega

end RecordGraph
