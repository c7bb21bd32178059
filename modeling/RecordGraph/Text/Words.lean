/-
  Words and patterns in texts.

  * `words` are the pieces of a text between spaces.
  * `cutAtFirst` cuts a text at the first occurrence of a pattern.
-/
namespace RecordGraph

/-- The characters that count as space between words. -/
def isSpace (c : Char) : Bool :=
  let n := c.toNat
  (9 ≤ n && n ≤ 13) || n == 0x20 || n == 0x85 || n == 0xA0 || n == 0x1680 ||
    (0x2000 ≤ n && n ≤ 0x200A) || n == 0x2028 || n == 0x2029 || n == 0x202F || n == 0x205F ||
    n == 0x3000

/-- The pieces between separators, empty ones included. -/
def splitAround (isSeparator : Char → Bool) : List Char → List (List Char)
  | [] => [[]]
  | c :: cs =>
    if isSeparator c then [] :: splitAround isSeparator cs
    else match splitAround isSeparator cs with
      | word :: rest => (c :: word) :: rest
      | [] => [[c]]

/-- The words between spaces. -/
def words (cs : List Char) : List (List Char) :=
  (splitAround isSpace cs).filter fun w => !w.isEmpty

/-- What is before the first occurrence of a pattern, and what follows it. -/
def cutAtFirst (pattern : List Char) : List Char → Option (List Char × List Char)
  | [] => if pattern.isEmpty then some ([], []) else none
  | c :: cs =>
    if pattern.isPrefixOf (c :: cs) then some ([], (c :: cs).drop pattern.length)
    else (cutAtFirst pattern cs).map fun (before, after) => (c :: before, after)

end RecordGraph
