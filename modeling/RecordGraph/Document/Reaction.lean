/-
  What a PostgreSQL server does, as documents.

  A cell is a text of hexadecimal digits, or null; a column is a name and the name
  of a type.
-/
import RecordGraph.Document.Value
import RecordGraph.Postgres.Client

namespace RecordGraph

namespace Postgres

/-! ## Writing -/

/-- The document of a value in binary form. -/
def sentDocument (sent : Option (List UInt8)) : Json := (sent.map Json.ofBytes).getD .null

/-- The document of the parameters that were bound, each time some were. -/
def boundDocument (bound : List (List (Option (List UInt8)))) : Json :=
  .array (bound.map fun sent => .array (sent.map sentDocument))

end Postgres

/-! ## Reading -/

namespace Json

open Postgres

def asSqlType (j : Json) : Read SqlType := do return .ofName (← j.asText)

/-- A name and the name of a type. -/
def asColumn (j : Json) : Read (String × SqlType) := do
  match ← j.asList with
  | [name, t] => return (← name.asText, ← t.asSqlType)
  | _ => misread "column"

def asServerFailure (j : Json) : Read ServerFailure := do
  let stage ← j.text? "at"
  return ⟨← j.textAt "code", ← j.textAt "message", ← j.text? "constraint",
    stage == some "prepare"⟩

/-- The cells of a row. -/
def asSent (j : Json) : Read (List (Option (List UInt8))) := do
  (← j.asList).mapM (optional asBytes)

def asReaction (j : Json) : Read Reaction := do
  let tag ← j.text? "tag"
  return ⟨← (← j.listAt "param_types").mapM asSqlType, ← (← j.listAt "columns").mapM asColumn,
    ← (← j.listAt "rows").mapM asSent, tag.getD "",
    ← optional asServerFailure (j.part "error")⟩

end Json

end RecordGraph
