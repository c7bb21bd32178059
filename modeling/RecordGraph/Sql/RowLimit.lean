/-
  Caps on the number of rows of a select.

  * `outerText` blanks out what is quoted or in parentheses, character by
    character, and puts the rest in lower case.
  * `Dialect.hasRowLimit` looks for a cap in the outer text only;
    `Dialect.applyRowLimit` adds one where there is none.
-/
import RecordGraph.Sql.Dialect
import RecordGraph.Text.Words

namespace RecordGraph

/-! ## The outer text -/

/-- Blanks out quoted text and groups in parentheses.  `closing` is the character
    that ends the quotes the scan is in, `depth` the number of open groups. -/
def outerFrom : (closing : Option Char) → (depth : Nat) → List Char → List Char
  | _, _, [] => []
  | some close, depth, c :: cs =>
    ' ' :: outerFrom (if c = close then none else some close) depth cs
  | none, depth, c :: cs =>
    if c = '\'' ∨ c = '"' then ' ' :: outerFrom (some c) depth cs
    else if c = '[' then ' ' :: outerFrom (some ']') depth cs
    else if c = '(' then ' ' :: outerFrom none (depth + 1) cs
    else if c = ')' then ' ' :: outerFrom none (depth - 1) cs
    else (if depth = 0 then c.toLower else ' ') :: outerFrom none depth cs

/-- A text with quoted text and groups blanked out, in lower case. -/
def outerText (sql : List Char) : List Char := outerFrom none 0 sql

namespace Dialect

/-- The outer statement already has a cap. -/
def hasRowLimit (d : Dialect) (sql : List Char) : Bool :=
  let outer := outerText sql
  match d with
  | postgres => (words outer).contains "limit".toList
  | sqlServer =>
    (cutAtFirst "select top ".toList outer).isSome ||
      (cutAtFirst "distinct top ".toList outer).isSome

/-- Puts a cap after the first `select`, or after the `distinct` that follows it. -/
def insertTop (n : Nat) (sql : List Char) : List Char :=
  match cutAtFirst "select ".toList (sql.map Char.toLower) with
  | none => sql
  | some (before, after) =>
    let at_ := before.length + "select ".toList.length
    let skipped :=
      if "distinct ".toList.isPrefixOf after then at_ + "distinct ".toList.length else at_
    sql.take skipped ++ ("top " ++ toString n ++ " ").toList ++ sql.drop skipped

/-- Caps a select at `n` rows; zero is no cap, and one that is there stays. -/
def applyRowLimit (d : Dialect) (sql : String) (n : Nat) : String :=
  if n = 0 ∨ d.hasRowLimit sql.toList then sql
  else match d with
    | postgres => sql ++ " limit " ++ toString n
    | sqlServer => String.ofList (insertTop n sql.toList)

end Dialect

end RecordGraph
