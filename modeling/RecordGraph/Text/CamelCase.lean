/-
  Names in camel case, with a capital at the start of each word.

  * `CamelCase.words` cuts a name into words: at characters that are neither letters
    nor digits, before a capital that follows a small letter, and before the last
    capital of several if a small letter follows it.
  * `camelCase` writes each word with a capital letter first and small letters after
    it, and nothing between the words.
-/
import RecordGraph.Text.Letter

namespace RecordGraph

namespace CamelCase

/-! ## Words -/

/-- What the letters of a word were last, as far as it is read. -/
inductive Mode where
  /-- The word has just begun, or has had no letters with case. -/
  | boundary
  | lower
  | upper
  deriving DecidableEq

/-- The mode after one more character. -/
def Mode.after (m : Mode) (c : Char) : Mode :=
  if Letter.isLower c then .lower else if Letter.isUpper c then .upper else m

/-- The words of a run of letters and digits.  The first word goes on from the given
    mode and characters. -/
def cutRun (m : Mode) (word : List Char) : List Char → List (List Char)
  | [] => []
  | [c] => [word ++ [c]]
  | c :: next :: rest =>
    if m.after c = .lower ∧ Letter.isUpper next then
      (word ++ [c]) :: cutRun .boundary [] (next :: rest)
    else if m = .upper ∧ Letter.isUpper c ∧ Letter.isLower next then
      word :: cutRun .boundary [c] (next :: rest)
    else cutRun (m.after c) (word ++ [c]) (next :: rest)

/-- The longest runs of letters and digits; some may be empty. -/
def runs : List Char → List (List Char)
  | [] => [[]]
  | c :: cs =>
    if Letter.isAlphanumeric c then
      match runs cs with
      | r :: rest => (c :: r) :: rest
      | [] => [[c]]
    else [] :: runs cs

/-- The words of a name. -/
def words (name : List Char) : List (List Char) := (runs name).flatMap (cutRun .boundary [])

/-! ## Letters -/

/-- The small form of the end of a word; a sigma at the end has a form of its own. -/
def small : List Char → List Char
  | [] => []
  | [c] => if c = 'Σ' then ['ς'] else Letter.toLower c
  | c :: cs => Letter.toLower c ++ small cs

/-- A word with a capital first. -/
def capitalized : List Char → List Char
  | [] => []
  | c :: cs => Letter.toUpper c ++ small cs

end CamelCase

/-- A name in camel case. -/
def camelCase (name : String) : String :=
  String.ofList ((CamelCase.words name.toList).flatMap CamelCase.capitalized)

end RecordGraph
