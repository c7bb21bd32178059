/-
  SQL text in pieces, and statements.

  * A `Fragment` is plain text, names still to be quoted and values still to be
    bound.  `Fragment.sql` writes it in a dialect, the `n`-th value as the `n`-th
    parameter mark, and `Fragment.params` are the values in that order; so a
    value never gets into the text of a statement.
  * A `Statement` is what an executor is handed.
-/
import RecordGraph.Sql.Dialect
import RecordGraph.Value

namespace RecordGraph

/-- A piece of SQL. -/
inductive Piece where
  | text (s : String)
  /-- A name, to be quoted. -/
  | name (s : String)
  /-- A value, to be bound. -/
  | bind (v : Value)
  deriving DecidableEq

/-- SQL in pieces, in the order of the text. -/
abbrev Fragment := List Piece

namespace Fragment

/-- The text of a fragment whose first value is the `n`-th parameter. -/
def sqlFrom (d : Dialect) : (n : Nat) → Fragment → String
  | _, [] => ""
  | n, .text s :: rest => s ++ sqlFrom d n rest
  | n, .name s :: rest => d.quote s ++ sqlFrom d n rest
  | n, .bind _ :: rest => d.placeholder n ++ sqlFrom d (n + 1) rest

/-- The text of a fragment. -/
def sql (d : Dialect) (f : Fragment) : String := sqlFrom d 1 f

/-- The values of a fragment, in the order of their marks. -/
def params : Fragment → List Value
  | [] => []
  | .bind v :: rest => v :: params rest
  | .text _ :: rest => params rest
  | .name _ :: rest => params rest

/-- The fragments with a text between them. -/
def joined (between : String) : List Fragment → Fragment
  | [] => []
  | [f] => f
  | f :: fs => f ++ .text between :: joined between fs

end Fragment

/-- A test that takes null for false: whether a column, already written, has the
    given truth value. -/
def Dialect.booleanTest (d : Dialect) (column : Fragment) (expected : Bool) : Fragment :=
  let (otherwise, value) := match d, expected with
    | .postgres, true => ("false", "true")
    | .postgres, false => ("false", "false")
    | .sqlServer, true => ("0", "1")
    | .sqlServer, false => ("0", "0")
  .text "coalesce(" :: column ++ [.text ("," ++ otherwise ++ ")=" ++ value)]

/-! ## Statements -/

/-- What a statement does. -/
inductive StatementKind where
  | select
  | count
  | insert
  | update
  | delete
  /-- A select of no rows, for the columns of a table. -/
  | describe
  /-- A call of a procedure or function that returns rows. -/
  | procedure
  deriving DecidableEq

def StatementKind.name : StatementKind → String
  | select => "select"
  | count => "count"
  | insert => "insert"
  | update => "update"
  | delete => "delete"
  | describe => "describe"
  | procedure => "procedure"

/-- A text with its parameters in the order of their marks. -/
structure Statement where
  kind : StatementKind
  sql : String
  params : List Value
  deriving DecidableEq

namespace Statement

/-- The statement of a fragment. -/
def of (d : Dialect) (kind : StatementKind) (f : Fragment) : Statement :=
  ⟨kind, f.sql d, f.params⟩

/-- A select written by hand. -/
def raw (sql : String) (params : List Value) : Statement := ⟨.select, sql, params⟩

end Statement

end RecordGraph
