/-
  Declarations of structs and outlines of record types as documents.

  A mark is a list of a word and, if it has one, a text.  Marks are grouped in lists;
  the groups mean nothing.
-/
import RecordGraph.Declaration.Outline
import RecordGraph.Document

namespace RecordGraph

/-! ## Writing -/

def Reach.name : Reach → String
  | scalar => "field"
  | nested => "nested"
  | nestedBox => "nested_boxed"
  | collection => "collection"

def ChangeType.name : ChangeType → String
  | optional => "optional"
  | bare => "bare"

namespace FieldOutline

/-- The method by which a field is registered, its column, and the field by which it
    is read and by which it is written. -/
def document (f : FieldOutline) : Json :=
  .array [.string f.reach.name, .string f.column, .string f.name, .string f.name]

/-- The name of a field, if there is one. -/
def nameDocument (f : Option FieldOutline) : Json := (f.map fun f => .string f.name).getD .null

/-- The name of a field of moments and its type. -/
def changeDocument (f : FieldOutline) : Json :=
  .array [.string f.name, (f.lastChange.map fun t => .string t.name).getD .null]

end FieldOutline

/-- A setting as a call, if declarations make it. -/
def Setting.call? : Setting Empty → Option (String × List String)
  | .table s n => some ("table", [s, n])
  | .schema s => some ("schema", [s])
  | .named n => some ("named", [n])
  | .keys fields => some ("id", [",".intercalate fields])
  | .readOnly fields => some ("read_only", [",".intercalate fields])
  | _ => none

/-- Settings as calls; null if there are none. -/
def settingsDocument (settings : List (Setting Empty)) : Json :=
  if settings.isEmpty then .null
  else .array ((settings.filterMap Setting.call?).map fun (name, arguments) =>
    .array [.string name, .array (arguments.map .string)])

def Outline.document (o : Outline) : Json :=
  Json.ofMembers [("self", .string o.name), ("type_name", .string o.typeName),
    ("fields", .array (o.fields.map FieldOutline.document)), ("key", .string o.key.name),
    ("configure", settingsDocument o.settings),
    ("deleted", FieldOutline.nameDocument o.deleted?),
    ("ghost", FieldOutline.nameDocument o.ghost?),
    ("last_change", (o.lastChange?.map FieldOutline.changeDocument).getD .null)]

/-! ## Reading -/

namespace Json

def asMark (j : Json) : Read Mark := do
  match ← j.asTexts with
  | [word] => return .word word .nothing
  | [word, text] => return .word word (.text text)
  | _ => misread "mark"

/-- The marks of all groups. -/
def asMarks (j : Json) : Read (List Mark) := do
  return (← (← j.asList).mapM fun group => do (← group.asList).mapM asMark).flatten

def asForm : Json → Read DeclarationForm
  | .null | .string "named" => .ok .namedFields
  | .string "tuple" => .ok .tuple
  | .string "unit" => .ok .unit
  | .string "enum" => .ok .enum
  | .string "union" => .ok .union
  | _ => misread "form"

/-- A field; nothing if its type cannot be read. -/
def asField (j : Json) : Read (Option FieldDeclaration) := do
  let name ← j.textAt "name"
  let marks ← (j.part "attrs").asMarks
  let type ← j.textAt "type"
  return (TypeExpr.read? type).map fun t => ⟨name, t, marks⟩

/-- A declaration; nothing if the type of a field cannot be read. -/
def asDeclaration (j : Json) : Read (Option Declaration) := do
  let name ← j.textAt "name"
  let form ← (j.part "shape").asForm
  let marks ← (j.part "attrs").asMarks
  let fields ← (← j.listAt "fields").mapM asField
  return (fields.mapM id).map fun fields => ⟨name, form, marks, fields⟩

end Json

end RecordGraph
