/-
  Record types from declarations of structs.

  * `Declaration.outline` is the outline of a record type, or the first fault of the
    declaration: the marks of the struct, then field by field, then the key.
  * `Outline.settings` are what a map of the type is told.
  * `Outline.recordType` is the type of records, once it is said what each field
    holds.
-/
import RecordGraph.Declaration
import RecordGraph.Record.Type
import RecordGraph.Text.CamelCase

namespace RecordGraph

/-! ## Fields -/

/-- How the content of a field is reached. -/
inductive Reach where
  | scalar
  | nested
  /-- A nested record in a box. -/
  | nestedBox
  | collection
  deriving DecidableEq

/-- The type of a field that holds the moment of the last change. -/
inductive ChangeType where
  | optional
  /-- The moment is always there. -/
  | bare
  deriving DecidableEq

/-- A field that takes part in rows. -/
structure FieldOutline where
  /-- The name in the struct. -/
  name : String
  /-- The name in rows and conditions. -/
  column : String
  reach : Reach
  /-- The field is marked as the key. -/
  isKey : Bool
  isDeleted : Bool
  isGhost : Bool
  lastChange : Option ChangeType
  deriving DecidableEq

/-- How a field of a role is reached; the role is refused if the type does not fit. -/
def FieldRole.reach (role : FieldRole) (t : TypeExpr) : Except DeclarationFault (Option Reach) :=
  match role with
  | .scalar => .ok (some .scalar)
  | .nested =>
    if t.insideOption.isNone then .error .nestedType
    else .ok (some (if t.isOptionalBox then .nestedBox else .nested))
  | .collection => if t.isOptionalVec then .ok (some .collection) else .error .collectionType
  | .skip => .ok none

namespace FieldDeclaration

/-- The name without the signs that allow it to be any word. -/
def plainName (name : List Char) : List Char :=
  match name with
  | 'r' :: '#' :: rest => plainName rest
  | cs => cs

/-- The name in rows when none is given. -/
def defaultColumn (d : FieldDeclaration) : String :=
  camelCase (String.ofList (plainName d.name.toList))

/-- The type of the moment of the last change. -/
def changeType (d : FieldDeclaration) : ChangeType :=
  if d.type.insideOption.isSome then .optional else .bare

/-- The outline of a field; nothing if it is left out. -/
def outline (d : FieldDeclaration) : Except DeclarationFault (Option FieldOutline) := do
  let m ← FieldMarks.read d.marks
  let reach ← m.role.reach d.type
  return reach.map fun r =>
    ⟨d.name, m.column.getD d.defaultColumn, r, m.isKey, m.isDeleted, m.isGhost,
      if m.isLastChange then some d.changeType else none⟩

end FieldDeclaration

/-- The outlines of fields that take part in rows.  At most one may be marked as the
    key. -/
def outlinesOf (keySeen : Bool) :
    List FieldDeclaration → Except DeclarationFault (List FieldOutline)
  | [] => .ok []
  | d :: ds => do
    match ← d.outline with
    | none => outlinesOf keySeen ds
    | some f =>
      if f.isKey && keySeen then .error .secondKey
      else return f :: (← outlinesOf (keySeen || f.isKey) ds)

/-! ## Types -/

/-- What a declaration says of a record type. -/
structure Outline where
  /-- The name of the struct. -/
  name : String
  marks : StructMarks
  /-- The fields that take part in rows, in the order of their declaration. -/
  fields : List FieldOutline
  key : FieldOutline
  deriving DecidableEq

/-- The name of a field that is the key if none is marked. -/
def implicitKey : String := "id"

/-- The column of a key that the database generates. -/
def generatedKeyColumn : String := "Id"

/-- The field marked as the key, or else the field named so. -/
def keyField (fields : List FieldOutline) : Option FieldOutline :=
  (fields.find? (·.isKey)).or (fields.reverse.find? fun f => f.name = implicitKey)

/-- The outline of a declared type. -/
def Declaration.outline (d : Declaration) : Except DeclarationFault Outline := do
  match d.form with
  | .tuple => .error .noFieldNames
  | .unit => .error .noFieldNames
  | .enum => .error .noStruct
  | .union => .error .noStruct
  | .namedFields =>
    let marks ← StructMarks.read d.marks
    let fields ← outlinesOf false d.fields
    match keyField fields with
    | none => .error .noKey
    | some key => return ⟨d.name, marks, fields, key⟩

namespace Outline

/-- The name from which other names are made. -/
def typeName (o : Outline) : String := o.marks.name.getD o.name

/-- The last field marked as deleted. -/
def deleted? (o : Outline) : Option FieldOutline := o.fields.reverse.find? (·.isDeleted)

/-- The last field marked as ghost. -/
def ghost? (o : Outline) : Option FieldOutline := o.fields.reverse.find? (·.isGhost)

/-- The last field that holds the moment of the last change. -/
def lastChange? (o : Outline) : Option FieldOutline :=
  o.fields.reverse.find? (·.lastChange.isSome)

/-! ## Settings -/

variable {τ : Type}

/-- Where the table is. -/
def tableSettings (o : Outline) : List (Setting τ) :=
  match o.marks.schema, o.marks.table with
  | some s, some t => [.table s t]
  | some s, none => [.schema s]
  | none, some t => [.named t]
  | none, none => []

/-- A key that is not the generated one is named, and is never written. -/
def keySettings (o : Outline) : List (Setting τ) :=
  if o.key.column = generatedKeyColumn then []
  else [.id o.key.column, .readOnly [o.key.column]]

/-- What a map of the type is told. -/
def settings (o : Outline) : List (Setting τ) := o.tableSettings ++ o.keySettings

/-! ## Records -/

/-- The slot of a field. -/
def slotOf (o : Outline) (f : FieldOutline) : Nat := o.fields.findIdx (·.name = f.name)

/-- The columns of the fields with what they reach, in the order of declaration. -/
def columns (o : Outline) (content : FieldOutline → Shape τ) : List (String × Access τ) :=
  o.fields.mapIdx fun i f => (f.column, (content f).access i)

/-- The type of records with a slot for every field, once it is said what each field
    holds. -/
def recordType (o : Outline) (content : FieldOutline → Shape τ) : RecordType τ where
  name := o.typeName
  members := o.fields.map fun f => ⟨f.name, content f⟩
  fields := .ofList (o.columns content)
  key r := r.scalar (o.slotOf o.key)
  isNew r := (r.scalar (o.slotOf o.key)).isUnsetKey
  isDeleted r := o.deleted?.any fun f => r.flag (o.slotOf f)
  isGhost r := o.ghost?.any fun f => r.flag (o.slotOf f)
  lastChange r := o.lastChange?.bind fun f => r.moment? (o.slotOf f)
  settings := o.settings

end Outline

end RecordGraph
