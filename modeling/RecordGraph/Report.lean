/-
  What is told besides results.

  * A `Diagnostic` is an anomaly that was passed over.
  * An `Event` is a line of the log: a target, a level and named fields.
-/
import RecordGraph.Sql.Fragment

namespace RecordGraph

/-! ## Diagnostics -/

/-- An anomaly that did not stop the operation. -/
inductive Diagnostic where
  /-- A column matches no field. -/
  | unmappedColumn (typeName column : String)
  /-- The path of a column stops at a part that is not a nested record. -/
  | unresolvedPath (typeName column segment : String)
  /-- The value of a column does not fit its field. -/
  | columnDecode (typeName column message : String)
  /-- A value that the database sent cannot be read; it is null. -/
  | columnRead (sqlType column message : String)
  /-- A relation, or one of its records, was left as it is. -/
  | relationSkipped (typeName relation reason : String)
  deriving DecidableEq

namespace Diagnostic

/-- The name of the kind of a diagnostic. -/
def kind : Diagnostic → String
  | unmappedColumn .. => "unmapped_column"
  | unresolvedPath .. => "unresolved_path"
  | columnDecode .. => "column_decode"
  | columnRead .. => "column_read"
  | relationSkipped .. => "relation_skipped"

/-- The fields of a diagnostic by name. -/
def fields : Diagnostic → List (String × String)
  | unmappedColumn t c => [("type_name", t), ("column", c)]
  | unresolvedPath t c s => [("type_name", t), ("column", c), ("segment", s)]
  | columnDecode t c m => [("type_name", t), ("column", c), ("message", m)]
  | columnRead t c m => [("sql_type", t), ("column", c), ("message", m)]
  | relationSkipped t r m => [("type_name", t), ("relation", r), ("reason", m)]

/-- The type that the diagnostic is about. -/
def typeName : Diagnostic → String
  | unmappedColumn t _ => t
  | unresolvedPath t _ _ => t
  | columnDecode t _ _ => t
  | columnRead t _ _ => t
  | relationSkipped t _ _ => t

end Diagnostic

/-! ## Events -/

/-- A line of the log. -/
inductive Event where
  /-- A type has got its map. -/
  | mapRegistered (typeName : String)
  /-- A statement is handed to the executor. -/
  | executing (s : Statement)
  /-- A one-to-many relation has been brought in line. -/
  | childrenSynchronized (parent relation : String) (deleted updated inserted : Nat)
  /-- A many-to-many relation has been brought in line. -/
  | linksSynchronized (parent relation : String) (unlinked linked : Nat)
  /-- A child has no place for the key of its parent. -/
  | parentKeyDropped (child field segment : String)
  /-- A child has no place for the key in its link. -/
  | linkKeyDropped (child field segment : String)
  | diagnosed (d : Diagnostic)
  deriving DecidableEq

namespace Event

/-- The part of the program that an event comes from. -/
def target : Event → String
  | mapRegistered _ => "graphorm.catalog"
  | executing _ => "graphorm.sql"
  | childrenSynchronized .. => "graphorm.relation"
  | linksSynchronized .. => "graphorm.relation"
  | parentKeyDropped .. => "graphorm.relation"
  | linkKeyDropped .. => "graphorm.relation"
  | diagnosed (.columnRead ..) => "graphorm.pg"
  | diagnosed _ => "graphorm.mapper"

def level : Event → String
  | diagnosed _ => "WARN"
  | _ => "DEBUG"

/-- What an event says. -/
def message : Event → String
  | mapRegistered _ => "schema map registered"
  | executing _ => "executing statement"
  | childrenSynchronized .. => "one-to-many synchronized"
  | linksSynchronized .. => "many-to-many synchronized"
  | parentKeyDropped .. => "child has no field for the parent key"
  | linkKeyDropped .. => "child has no field for the link key"
  | diagnosed (.unmappedColumn ..) => "unmapped column"
  | diagnosed (.unresolvedPath ..) => "unresolved path segment"
  | diagnosed (.columnDecode ..) => "column skipped"
  | diagnosed (.columnRead ..) => "column read as null"
  | diagnosed (.relationSkipped ..) => "relation skipped"

/-- The fields that an event has besides its message. -/
def details : Event → List (String × String)
  | mapRegistered t => [("type_name", t)]
  | executing s =>
    [("kind", s.kind.name), ("param_count", toString s.params.length), ("sql", s.sql)]
  | childrenSynchronized p r d u i =>
    [("parent", p), ("relation", r), ("deleted", toString d), ("updated", toString u),
      ("inserted", toString i)]
  | linksSynchronized p r u l =>
    [("parent", p), ("relation", r), ("unlinked", toString u), ("linked", toString l)]
  | parentKeyDropped c f s => [("child", c), ("field", f), ("segment", s)]
  | linkKeyDropped c f s => [("child", c), ("field", f), ("segment", s)]
  | diagnosed d => d.fields

/-- All fields by name; a field called `message` stands for the message. -/
def fields (e : Event) : List (String × String) := ("message", e.message) :: e.details

end Event

end RecordGraph
