/-
  Queries that are put together step by step.

  Each step changes the description of the select or fails; the first failure is
  remembered, and the query fails with it when it is run.
-/
import RecordGraph.Session.Reading

namespace RecordGraph

/-- A query under construction. -/
structure Query (τ : Type) where
  map : TableMap τ
  spec : QuerySpec
  failure : Option Error

namespace Query

variable {τ : Type}

/-- The column that `changedWithin` looks at. -/
def lastChangeField : String := "LastChange"

/-- Everything that the map reads. -/
def ofMap (m : TableMap τ) : Query τ := ⟨m, .all, none⟩

/-- Remembers a failure, if there was none before. -/
def fail (q : Query τ) (e : Error) : Query τ := { q with failure := q.failure.or (some e) }

/-- Reads from a table or view, unless its name is none. -/
def fromObject (q : Query τ) : Except Ident.Fault Ident → Query τ
  | .ok ident => { q with spec := { q.spec with source := .object ident } }
  | .error f => q.fail f.toError

/-- Reads from another table or view, by default in the schema of the map. -/
def fromView (q : Query τ) (name : String) : Query τ := q.fromObject (objectIdent q.map.schema name)

/-- Reads from a table or view in a schema. -/
def fromSchema (q : Query τ) (schema name : String) : Query τ :=
  q.fromObject (Ident.qualified schema name)

/-- Reads from a whole select. -/
def fromSql (q : Query τ) (sql : String) : Query τ :=
  { q with spec := { q.spec with source := .sql sql } }

/-- Drops all conditions for another one. -/
def onlyWhere (q : Query τ) (c : Condition) : Query τ :=
  { q with spec := { q.spec with conditions := [c] } }

/-- Adds a condition joined by `and`. -/
def and (q : Query τ) (c : Condition) : Query τ :=
  { q with spec := { q.spec with conditions := q.spec.conditions ++ [c] } }

/-- Adds a condition joined by `or`. -/
def or (q : Query τ) (c : Condition) : Query τ := q.and c.joinedByOr

/-- Only rows that have changed within some seconds before a moment. -/
def changedWithin (q : Query τ) (now : Moment) (seconds : Int) : Query τ :=
  q.and (Condition.blank.onField lastChangeField |>.isGreaterOrEqual
    (.zoned (now.minusSeconds seconds)))

/-- Adds a key to the order. -/
def orderBy (q : Query τ) (field : String) : Query τ :=
  { q with spec := { q.spec with order := q.spec.order.push field } }

/-- Gives the last key its direction. -/
def direction (q : Query τ) (descending : Bool) : Query τ :=
  match q.spec.order.settle descending with
  | .ok order => { q with spec := { q.spec with order := order } }
  | .error e => q.fail e

/-- Caps the number of rows; zero takes the cap away. -/
def take (q : Query τ) (n : Nat) : Query τ := { q with spec := { q.spec with take := n } }

/-- The select of the query. -/
def statement (q : Query τ) (d : Dialect) (variant : Variant) : Result Statement :=
  match q.failure with
  | some e => .error e
  | none => q.map.select d q.spec variant

end Query

namespace Session

variable {τ δ σ : Type} [Model τ] [DecidableEq τ]

/-- The records of a query. -/
def toList (q : Query τ) : Session τ δ σ (List Record) := do
  fetch q.map.owner (← q.statement (← config).dialect .short)

/-- A record with its relations. -/
def withRelations (t : τ) (r : Record) : Session τ δ σ Record := do
  let (_, r') ← onOther r (loadRelations t)
  return r'

/-- The records of a query from the extended view, with their relations. -/
def toExtendedList (q : Query τ) : Session τ δ σ (List Record) := do
  let records ← fetch q.map.owner (← q.statement (← config).dialect .full)
  records.mapM (withRelations q.map.owner)

/-- The first record of a query. -/
def firstOrDefault (q : Query τ) : Session τ δ σ (Option Record) := do
  return (← toList (q.take 1)).head?

/-- The failure of a count that is not an integer. -/
def notACount (v : Value) : Error := .decode "count" ("expected an integer, got " ++ v.kind)

/-- The number of rows of a query. -/
def count (q : Query τ) : Session τ δ σ Int64 := do
  match ← scalar (← q.statement (← config).dialect .count) with
  | none => return 0
  | some (.int n) => return n
  | some v => fail (notACount v)

end Session

end RecordGraph
