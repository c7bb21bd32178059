/-
  The configuration that maps, mappers and sessions share.
-/
import RecordGraph.Calendar
import RecordGraph.Naming
import RecordGraph.Sql.Dialect

namespace RecordGraph

/-- What becomes of diagnostics. -/
inductive Sink where
  /-- They are kept until they are taken. -/
  | collect
  /-- They are dropped. -/
  | discard
  /-- Each becomes an event. -/
  | trace
  deriving DecidableEq

/-- The configuration of a catalog. -/
structure Config where
  dialect : Dialect
  /-- A column without a field fails the mapping of its row. -/
  strict : Bool
  /-- A column without a field is reported. -/
  logUnmapped : Bool
  /-- Every statement is an event. -/
  traceSql : Bool
  /-- A column named after the type and `Id` is the column `Id`. -/
  typeIdAlias : Bool
  /-- The schema of maps that name none. -/
  defaultSchema : Option String
  naming : Naming
  /-- What the clock shows. -/
  now : Moment
  /-- The column whose moment must not be later than the one a record was read
      with, if that is checked before an update. -/
  staleColumn : Option String
  sink : Sink
  deriving DecidableEq

namespace Config

/-- The column that is checked when none is named. -/
def defaultStaleColumn : String := "LastChange"

/-- The schema of maps that name none, or else that of the dialect. -/
def schema (c : Config) : String := c.defaultSchema.getD c.dialect.defaultSchema

end Config

end RecordGraph
