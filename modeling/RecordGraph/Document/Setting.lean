/-
  Configurations, relations and the settings of maps as documents.
-/
import RecordGraph.Config
import RecordGraph.Document.Value
import RecordGraph.Record.Setting

namespace RecordGraph

namespace Json

def asDialect : Json → Read Dialect
  | .null | .string "postgres" => .ok .postgres
  | .string "sqlserver" => .ok .sqlServer
  | _ => misread "dialect"

def asNaming : Json → Read Naming
  | .null | .string "plural" => .ok .plural
  | .string "singular" => .ok .singular
  | _ => misread "naming"

def asSink : Json → Read Sink
  | .null | .string "collect" => .ok .collect
  | .string "noop" => .ok .discard
  | .string "tracing" => .ok .trace
  | _ => misread "sink"

/-- The column of the check for stale records, if there is one. -/
def asStaleColumn : Json → Read (Option String)
  | .null | .bool false => .ok none
  | .bool true => .ok (some Config.defaultStaleColumn)
  | .string column => .ok (some column)
  | _ => misread "column"

/-- A configuration; what is not given has a default. -/
def asConfig (j : Json) : Read Config := do
  return {
    dialect := ← (j.part "dialect").asDialect
    strict := ← j.flagAt "strict"
    logUnmapped := ← j.flagAt "log_unmapped"
    traceSql := ← j.flagAt "trace_sql"
    typeIdAlias := (← optional asFlag (j.part "type_id_alias")).getD true
    defaultSchema := ← j.text? "default_schema"
    naming := ← (j.part "naming").asNaming
    now := (← optional asMoment (j.part "clock")).getD .epoch
    staleColumn := ← (j.part "stale_check").asStaleColumn
    sink := ← (j.part "sink").asSink }

/-- Where the rows of a relation are read from, if that is given. -/
def asReadCommand (j : Json) : Read (Option ReadCommand) := do
  let view := (← j.text? "view").map ReadCommand.source
  let procedure := (← j.text? "procedure").map ReadCommand.procedure
  let function := (← j.text? "function").map ReadCommand.function
  return (view.or procedure).or function

def asRelationSpec (j : Json) : Read RelationSpec := do
  return {
    property := ← j.textAt "property"
    table := ← j.text? "table"
    read := ← j.asReadCommand
    readOnly := (j.member? "read_only").isSome
    masterField := ← j.text? "master_field"
    childField := ← j.text? "child_field"
    masterProperty := ← j.text? "master_property"
    childProperty := ← j.text? "child_property" }

/-- One setting; the names of types are read by `typeOf`. -/
def asSetting {τ : Type} (typeOf : Json → Read τ) (j : Json) : Read (Setting τ) := do
  match ← j.asList with
  | [.string "table", schema, name] => return .table (← schema.asText) (← name.asText)
  | [.string "named", name] => return .named (← name.asText)
  | [.string "schema", name] => return .schema (← name.asText)
  | [.string "keys", fields] => return .keys (← fields.asTexts)
  | [.string "id", field] => return .id (← field.asText)
  | [.string "read_only", fields] => return .readOnly (← fields.asTexts)
  | [.string "include_id_in_insert"] => return .includeIdInInsert
  | [.string "query_with_view"] => return .queryWithView
  | [.string "query_with_views", short, full] =>
    return .queryWithViews (← short.asText) (← full.asText)
  | [.string "by_default_order_by", field] => return .orderBy (← field.asText)
  | [.string "then_by", field] => return .orderBy (← field.asText)
  | [.string "ascending"] => return .direction false
  | [.string "descending"] => return .direction true
  | [.string "has_reference", column, path] =>
    return .reference (← column.asText) (← path.asText)
  | [.string "with_many", child, spec] =>
    return .relation .oneToMany (← typeOf child) (← spec.asRelationSpec)
  | [.string "with_many_to_many", child, spec] =>
    return .relation .manyToMany (← typeOf child) (← spec.asRelationSpec)
  | _ => misread "setting"

def asSettings {τ : Type} (typeOf : Json → Read τ) (j : Json) : Read (List (Setting τ)) := do
  (← j.asList).mapM (asSetting typeOf)

end Json

end RecordGraph
