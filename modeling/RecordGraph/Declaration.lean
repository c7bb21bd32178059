/-
  Declarations of structs, and the marks on them.

  A declaration and each of its fields may carry marks, a word or a word with a text.
  `StructMarks.read` and `FieldMarks.read` say what they mean together, or why something that
  stands in their place is none.
-/
import RecordGraph.Declaration.TypeText

namespace RecordGraph

/-! ## Declarations -/

/-- What follows the word of a mark. -/
inductive MarkTail where
  | nothing
  /-- `= "text"` -/
  | text (s : String)
  /-- `= "text"` and something after it. -/
  | textAndMore
  /-- `=` and something that is no text. -/
  | value
  /-- Anything else, such as arguments in parentheses. -/
  | other
  deriving DecidableEq

/-- What stands in the place of a mark, or of a list of them, without a word. -/
inductive Wordless where
  | literal
  | sign
  /-- No list: `#[orm]` -/
  | unlisted
  /-- `#[orm = ...]` -/
  | value
  deriving DecidableEq

/-- What stands in the place of a mark.  Marks are `word` and `word = "text"`. -/
inductive Mark where
  | word (w : String) (tail : MarkTail)
  | wordless (what : Wordless)
  deriving DecidableEq

/-- A field as it is declared. -/
structure FieldDeclaration where
  name : String
  type : TypeExpr
  /-- All marks of the field, in order. -/
  marks : List Mark

/-- What is declared. -/
inductive DeclarationForm where
  | namedFields
  | tuple
  | unit
  | enum
  | union
  deriving DecidableEq

/-- A declared type. -/
structure Declaration where
  name : String
  form : DeclarationForm
  /-- All marks of the type itself, in order. -/
  marks : List Mark
  fields : List FieldDeclaration

/-! ## Faults -/

/-- Why a declaration is not one of a record type. -/
inductive DeclarationFault where
  | noFieldNames
  | noStruct
  | unknownStructMark
  | unknownFieldMark
  /-- The text of a mark is missing. -/
  | missingText
  /-- The text of a mark is none. -/
  | noText
  /-- Something follows where a mark has to end. -/
  | unexpectedText
  | noWord (what : Wordless)
  | conflictingRoles
  | nestedType
  | collectionType
  | secondKey
  | noKey
  deriving DecidableEq

namespace DeclarationFault

def message : DeclarationFault → String
  | noFieldNames => "Record can only be derived for structs with named fields"
  | noStruct => "Record can only be derived for structs"
  | unknownStructMark => "unknown struct attribute, expected `name`, `schema` or `table`"
  | unknownFieldMark => "unknown field attribute"
  | missingText => "expected `=`"
  | noText => "expected string literal"
  | unexpectedText => "expected `,`"
  | noWord .literal => "unexpected literal in nested attribute, expected identifier"
  | noWord .sign => "unexpected token in nested attribute, expected identifier"
  | noWord .unlisted => "expected attribute arguments in parentheses: #[orm(...)]"
  | noWord .value => "expected parentheses: #[orm(...)]"
  | conflictingRoles => "conflicting field roles"
  | nestedType => "#[orm(nested)] requires Option<T> or Option<Box<T>>"
  | collectionType => "#[orm(collection)] requires Option<Vec<T>>"
  | secondKey => "only one field may carry #[orm(id)], use SchemaMap::keys for composite keys"
  | noKey => "Record requires an `id` field or a field marked #[orm(id)]"

end DeclarationFault

namespace MarkTail

/-- The text of a mark that needs one. -/
def asText : MarkTail → Except DeclarationFault String
  | text s => .ok s
  | textAndMore => .error .unexpectedText
  | value => .error .noText
  | nothing => .error .missingText
  | other => .error .missingText

/-- A mark that is a word alone has to end after it. -/
def asEnd : MarkTail → Except DeclarationFault Unit
  | nothing => .ok ()
  | text _ => .error .unexpectedText
  | textAndMore => .error .unexpectedText
  | value => .error .unexpectedText
  | other => .error .unexpectedText

end MarkTail

/-! ## Marks of a struct -/

/-- What the marks of a struct say. -/
structure StructMarks where
  /-- The name from which other names are made. -/
  name : Option String
  schema : Option String
  table : Option String
  deriving DecidableEq

namespace StructMarks

def empty : StructMarks := ⟨none, none, none⟩

/-- One more mark; a later text stands in place of an earlier one. -/
def add (m : StructMarks) : Mark → Except DeclarationFault StructMarks
  | .word "name" tail => return { m with name := some (← tail.asText) }
  | .word "schema" tail => return { m with schema := some (← tail.asText) }
  | .word "table" tail => return { m with table := some (← tail.asText) }
  | .word _ _ => .error .unknownStructMark
  | .wordless what => .error (.noWord what)

/-- What all marks say. -/
def read (marks : List Mark) : Except DeclarationFault StructMarks := marks.foldlM add empty

end StructMarks

/-! ## Marks of a field -/

/-- How a field takes part in rows. -/
inductive FieldRole where
  | scalar
  | nested
  | collection
  /-- The field is left out. -/
  | skip
  deriving DecidableEq

/-- What the marks of a field say. -/
structure FieldMarks where
  isKey : Bool
  column : Option String
  role : FieldRole
  isDeleted : Bool
  isGhost : Bool
  isLastChange : Bool
  deriving DecidableEq

namespace FieldMarks

def empty : FieldMarks := ⟨false, none, .scalar, false, false, false⟩

/-- Gives a role to a field that has none yet, or the same one. -/
def setRole (m : FieldMarks) (role : FieldRole) : Except DeclarationFault FieldMarks :=
  if m.role = .scalar ∨ m.role = role then .ok { m with role := role }
  else .error .conflictingRoles

/-- One more word that has no text. -/
def addWord (m : FieldMarks) (word : String) : Except DeclarationFault FieldMarks :=
  match word with
  | "id" => .ok { m with isKey := true }
  | "nested" => m.setRole .nested
  | "collection" => m.setRole .collection
  | "skip" => m.setRole .skip
  | "deleted" => .ok { m with isDeleted := true }
  | "ghost" => .ok { m with isGhost := true }
  | "last_change" => .ok { m with isLastChange := true }
  | _ => .error .unknownFieldMark

/-- One more mark; a later column stands in place of an earlier one. -/
def add (m : FieldMarks) : Mark → Except DeclarationFault FieldMarks
  | .word "column" tail => return { m with column := some (← tail.asText) }
  | .word w tail => do
    let m' ← m.addWord w
    tail.asEnd
    return m'
  | .wordless what => .error (.noWord what)

/-- What all marks say. -/
def read (marks : List Mark) : Except DeclarationFault FieldMarks := marks.foldlM add empty

end FieldMarks

end RecordGraph
