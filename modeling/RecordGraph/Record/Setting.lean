/-
  What a map of a record type to its tables may be told: the settings of a map,
  and the description of a relation to a collection of children.
-/
import RecordGraph.Sql.Ident

namespace RecordGraph

/-! ## Relations -/

/-- Where the rows of a relation are read from. -/
inductive ReadCommand where
  /-- A table or view, restricted to the key of the parent. -/
  | source (name : String)
  /-- A procedure that takes the key of the parent. -/
  | procedure (name : String)
  /-- A function that takes the key of the parent and returns rows. -/
  | function (name : String)
  deriving DecidableEq

/-- How the rows of the children relate to the row of the parent. -/
inductive RelationKind where
  /-- The row of a child carries the key of its parent. -/
  | oneToMany
  /-- The rows of a link table carry both keys. -/
  | manyToMany
  deriving DecidableEq

/-- A collection of children and the names by which it is stored.  Names that are
    not given have defaults. -/
structure RelationSpec where
  /-- The collection field of the parent. -/
  property : String
  /-- The table written to. -/
  table : Option String
  read : Option ReadCommand
  /-- The collection is read and never written. -/
  readOnly : Bool
  /-- The column that holds the key of the parent. -/
  masterField : Option String
  /-- The column of the link table that holds the key of the child. -/
  childField : Option String
  /-- The field of the parent that has the key. -/
  masterProperty : Option String
  /-- The field of the child that has the key. -/
  childProperty : Option String
  deriving DecidableEq

/-- The identifier of a table or view: a name with points or quotes is taken
    apart, a bare one is put in the schema. -/
def objectIdent (schema name : String) : Except Ident.Fault Ident :=
  if '.' ∈ name.toList ∨ name.toList.head? = some '"' ∨ name.toList.head? = some '[' then
    Ident.parse name
  else Ident.qualified schema name

namespace RelationSpec

/-- A relation with defaults for all names. -/
def ofProperty (property : String) : RelationSpec :=
  ⟨property, none, none, false, none, none, none, none⟩

/-- The table or view when none is given. -/
def defaultObject (s : RelationSpec) (parentType : String) : String := parentType ++ s.property

/-- The table that is written to, unless the relation is read only. -/
def writeTable (s : RelationSpec) (schema parentType : String) :
    Except Ident.Fault (Option Ident) :=
  if s.readOnly then .ok none
  else (objectIdent schema (s.table.getD (s.defaultObject parentType))).map some

/-- Where rows are read from: the table, unless something else is given. -/
def readCommand (s : RelationSpec) (parentType : String) : ReadCommand :=
  s.read.getD (.source (s.table.getD (s.defaultObject parentType)))

/-- The column that holds the key of the parent. -/
def masterColumn (s : RelationSpec) (parentType : String) : String :=
  s.masterField.getD (parentType ++ "Id")

/-- The link column that holds the key of the child. -/
def childColumn (s : RelationSpec) (childType : String) : String :=
  s.childField.getD (childType ++ "Id")

end RelationSpec

/-! ## Settings -/

/-- One thing that a map is told.  `τ` are the names of record types. -/
inductive Setting (τ : Type) where
  | table (schema name : String)
  | named (name : String)
  | schema (name : String)
  /-- The key fields, instead of `Id`. -/
  | keys (fields : List String)
  /-- Fields that are never written. -/
  | readOnly (fields : List String)
  /-- The key is given by the caller, not by the database. -/
  | includeIdInInsert
  /-- Selects read from the view named after the table. -/
  | queryWithView
  /-- Selects read from the given views. -/
  | queryWithViews (short full : String)
  /-- One more key of the default order. -/
  | orderBy (field : String)
  /-- The direction of the last key of the default order. -/
  | direction (descending : Bool)
  /-- The value written to a column is the one at a path. -/
  | reference (column path : String)
  | relation (kind : RelationKind) (child : τ) (spec : RelationSpec)

/-- A single key field. -/
def Setting.id {τ : Type} (field : String) : Setting τ := .keys [field]

end RecordGraph
