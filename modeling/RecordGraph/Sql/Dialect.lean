/-
  The two dialects of SQL: how each quotes names and writes parameters.
-/
namespace RecordGraph

/-- The dialect in which statements are written. -/
inductive Dialect where
  /-- `"name"`, `$1`, `limit n`. -/
  | postgres
  /-- `[name]`, `@p0`, `select top n`. -/
  | sqlServer
  deriving DecidableEq

namespace Dialect

/-- The schema of a table when none is given. -/
def defaultSchema : Dialect → String
  | postgres => "public"
  | sqlServer => "dbo"

/-- The character before a quoted name. -/
def openQuote : Dialect → Char
  | postgres => '"'
  | sqlServer => '['

/-- The character after a quoted name; inside the name it is written twice. -/
def closeQuote : Dialect → Char
  | postgres => '"'
  | sqlServer => ']'

/-- A text with every closing quote in it written twice. -/
def doubled (close : Char) : List Char → List Char
  | [] => []
  | c :: cs => if c = close then c :: c :: doubled close cs else c :: doubled close cs

/-- A name in quotes. -/
def quote (d : Dialect) (name : String) : String :=
  String.ofList (d.openQuote :: doubled d.closeQuote name.toList ++ [d.closeQuote])

/-- The mark of the `n`-th parameter, counted from one. -/
def placeholder : Dialect → Nat → String
  | postgres, n => "$" ++ toString n
  | sqlServer, n => "@p" ++ toString (n - 1)

end Dialect

end RecordGraph
