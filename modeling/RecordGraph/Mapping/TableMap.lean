/-
  Maps of record types to their tables.

  * A `MapDraft` collects settings one after the other; the first thing that goes
    wrong is remembered.
  * `MapDraft.finish` fills in the names that were not given and checks the rest;
    the result is a `TableMap`, in which every name is settled.
  * `TableMap.skipsOnWrite` says which columns are never written.
-/
import RecordGraph.Config
import RecordGraph.Record.Access
import RecordGraph.Sql.OrderBy

namespace RecordGraph

/-! ## Faults -/

/-- Why a map does not hold together. -/
inductive MapFault where
  /-- A key is neither a field nor the key of a nested record. -/
  | keyNotField (typeName key : String)
  | noKeys (typeName : String)
  /-- The path of a reference starts at no field. -/
  | unknownReference (typeName column head : String)
  /-- The type already has a map. -/
  | alreadyRegistered (typeName : String)
  /-- A key that the database made has no place in the record. -/
  | keyWithoutField (typeName segment : String)
  deriving DecidableEq

namespace MapFault

def message : MapFault → String
  | keyNotField t k => t ++ ": key field " ++ k ++ " is not a field"
  | noKeys t => t ++ ": no key fields"
  | unknownReference t c h => t ++ ": reference " ++ c ++ " points at unknown field " ++ h
  | alreadyRegistered t => t ++ " is already registered"
  | keyWithoutField t s => t ++ ": generated key has no field " ++ s

def toError (f : MapFault) : Error := .schema f.message

end MapFault

/-- The complaint about a second relation on one collection. -/
def declaredTwice (property : String) : Error :=
  .relationIntegrity property "relation declared twice"

/-! ## Relations of a map -/

/-- A relation whose collection has been found in the parent. -/
structure Relation (τ : Type) where
  kind : RelationKind
  child : τ
  /-- The slot of the collection in the parent. -/
  slot : Nat
  spec : RelationSpec

/-! ## Drafts -/

/-- A map that is still being told. -/
structure MapDraft (τ : Type) where
  owner : τ
  schema : Option String
  table : Option String
  keys : Option (List String)
  readOnly : List String
  generatedKey : Bool
  useView : Bool
  shortView : Option String
  fullView : Option String
  order : OrderBy
  references : List (String × String)
  relations : List (Relation τ)
  failure : Option Error

namespace MapDraft

variable {τ : Type}

/-- Nothing told yet. -/
def blank (owner : τ) : MapDraft τ where
  owner := owner
  schema := none
  table := none
  keys := none
  readOnly := []
  generatedKey := true
  useView := false
  shortView := none
  fullView := none
  order := .none
  references := []
  relations := []
  failure := none

/-- Remembers what went wrong, if nothing did before. -/
def fail (m : MapDraft τ) (e : Error) : MapDraft τ :=
  { m with failure := m.failure.or (some e) }

variable [Model τ] [DecidableEq τ]

/-- Adds a relation, if its collection is there and has no relation yet. -/
def addRelation (m : MapDraft τ) (kind : RelationKind) (child : τ) (spec : RelationSpec) :
    MapDraft τ :=
  if m.relations.any fun r => r.spec.property = spec.property then
    m.fail (declaredTwice spec.property)
  else match collectionSlot m.owner spec.property child with
    | .ok slot => { m with relations := m.relations ++ [⟨kind, child, slot, spec⟩] }
    | .error f => m.fail (.relationIntegrity spec.property f.message)

/-- Takes one setting. -/
def tell (m : MapDraft τ) : Setting τ → MapDraft τ
  | .table schema name => { m with schema := some schema, table := some name }
  | .named name => { m with table := some name }
  | .schema name => { m with schema := some name }
  | .keys fields => { m with keys := some fields }
  | .readOnly fields => { m with readOnly := m.readOnly ++ fields }
  | .includeIdInInsert => { m with generatedKey := false }
  | .queryWithView => { m with useView := true }
  | .queryWithViews short full =>
    { m with useView := true, shortView := some short, fullView := some full }
  | .orderBy field => { m with order := m.order.push field }
  | .direction descending =>
    match m.order.settle descending with
    | .ok order => { m with order := order }
    | .error e => m.fail e
  | .reference column path => { m with references := m.references ++ [(column, path)] }
  | .relation kind child spec => m.addRelation kind child spec

/-- Takes settings one after the other. -/
def tellAll (m : MapDraft τ) (settings : List (Setting τ)) : MapDraft τ :=
  settings.foldl tell m

/-- What a type says about its own map. -/
def ofType (t : τ) : MapDraft τ := (blank t).tellAll (Model.type t).settings

end MapDraft

/-! ## Maps -/

/-- Which rows a select is after. -/
inductive Variant where
  /-- The rows of the table or of the short view. -/
  | short
  /-- The rows of the extended view. -/
  | full
  /-- The number of the short rows. -/
  | count
  deriving DecidableEq

/-- A map of a record type to its tables. -/
structure TableMap (τ : Type) where
  owner : τ
  schema : String
  table : String
  keys : List String
  readOnly : List String
  /-- The database makes the key of a new row. -/
  generatedKey : Bool
  shortView : Option String
  fullView : Option String
  order : OrderBy
  references : List (String × String)
  relations : List (Relation τ)

namespace TableMap

variable {τ : Type}

/-- The table that is written to. -/
def tableIdent (m : TableMap τ) : Result Ident :=
  (objectIdent m.schema m.table).mapError Ident.Fault.toError

/-- The view of a variant, if there is one. -/
def view (m : TableMap τ) : Variant → Option String
  | .short => m.shortView
  | .count => m.shortView
  | .full => m.fullView.or m.shortView

/-- What a select reads from. -/
def source (m : TableMap τ) (variant : Variant) : Result Ident :=
  match m.view variant with
  | some view => (objectIdent m.schema view).mapError Ident.Fault.toError
  | none => m.tableIdent

def isKey (m : TableMap τ) (field : String) : Bool := m.keys.contains field

def isReadOnly (m : TableMap τ) (field : String) : Bool := m.readOnly.contains field

/-- The column is never written.  A key that the caller gives is written even if
    it is read only. -/
def skipsOnWrite (m : TableMap τ) (column : String) : Bool :=
  m.isReadOnly column && !(m.isKey column && !m.generatedKey)

/-- The path whose value is written to a column. -/
def reference? (m : TableMap τ) (column : String) : Option String := m.references.lookup column

/-- The table that a relation writes to, unless it is read only. -/
def writeTable [Model τ] (m : TableMap τ) (spec : RelationSpec) : Result (Option Ident) :=
  (spec.writeTable m.schema (typeName m.owner)).mapError Ident.Fault.toError

/-- The values of the key fields; a key that leads nowhere is null. -/
def keyValues [Model τ] (m : TableMap τ) (r : Record) : List Value :=
  m.keys.map fun k => (resolveValue m.owner r k).getD .null

end TableMap

/-! ## Finishing a draft -/

namespace MapDraft

variable {τ : Type} [Model τ]

/-- The key fields and the fields never written.  Without keys of its own a map
    has the key `Id`, which the database makes. -/
def keysAndReadOnly (m : MapDraft τ) : List String × List String :=
  match m.keys with
  | some keys => (keys, m.readOnly)
  | none => (["Id"], if m.readOnly.contains "Id" then m.readOnly else m.readOnly ++ ["Id"])

/-- The draft with every name settled. -/
def settled (m : MapDraft τ) (config : Config) : TableMap τ :=
  let table := m.table.getD (config.naming.tableName (typeName m.owner))
  let view (given : Option String) : Option String :=
    if m.useView then some (given.getD (table ++ "Query")) else given
  let (keys, readOnly) := m.keysAndReadOnly
  { owner := m.owner
    schema := m.schema.getD config.schema
    table := table
    keys := keys
    readOnly := readOnly
    generatedKey := m.generatedKey
    shortView := view m.shortView
    fullView := view m.fullView
    order := m.order
    references := m.references
    relations := m.relations }

/-- The key is a field, or names the key of a nested record. -/
def keyIsField (owner : τ) (key : String) : Bool :=
  hasField owner key ||
    match FieldName.stem? key with
    | some x => nestedHasField owner x "Id"
    | none => false

/-- The first part of a path. -/
def headOf (path : String) : String := (FieldName.segments path).head?.getD ""

/-- Checks the keys and references of a map, and that the names of its tables and
    views are names. -/
def check (m : TableMap τ) : Result Unit := do
  let owner := typeName m.owner
  match m.keys.find? fun k => !keyIsField m.owner k with
  | some key => throw (MapFault.keyNotField owner key).toError
  | none => pure ()
  if m.keys.isEmpty then throw (MapFault.noKeys owner).toError
  match m.references.find? fun r => !hasField m.owner (headOf r.2) with
  | some (column, path) => throw (MapFault.unknownReference owner column (headOf path)).toError
  | none => pure ()
  let _ ← m.tableIdent
  let _ ← m.source .short
  let _ ← m.source .full
  m.relations.forM fun r => do
    let _ ← m.writeTable r.spec

/-- The map of a draft, unless something is wrong with it. -/
def finish (m : MapDraft τ) (config : Config) : Result (TableMap τ) := do
  match m.failure with
  | some e => throw e
  | none =>
    let map := m.settled config
    check map
    return map

end MapDraft

end RecordGraph
