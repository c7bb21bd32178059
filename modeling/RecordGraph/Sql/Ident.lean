/-
  Names of tables and columns, of one or more parts.

  * `Ident.parse` reads parts with points between them.  A part is bare (a letter
    or underscore, then letters, digits, underscores and dollar signs), or any
    text in double quotes or in square brackets, where the closing character is
    written twice.
  * `Ident.fragment` writes every part in the quotes of the dialect.
-/
import RecordGraph.Error
import RecordGraph.Sql.Fragment

namespace RecordGraph

/-- A name of one or more parts, such as a schema and a table. -/
structure Ident where
  parts : List String
  deriving DecidableEq

namespace Ident

/-- Why a text is not a name. -/
inductive Fault where
  /-- The text is empty. -/
  | empty
  /-- There is a NUL in it. -/
  | nul
  /-- A part has nothing between its quotes. -/
  | emptyPart
  /-- A bare part has no characters. -/
  | emptySegment
  /-- Nothing follows a point. -/
  | trailingPoint
  /-- Something other than a point follows a part. -/
  | noPoint (found : Char)
  /-- A quote is not closed. -/
  | unclosed
  /-- A character that a bare part cannot have there. -/
  | badCharacter (found : Char)
  deriving DecidableEq

namespace Fault

def message : Fault → String
  | empty => "Identifier cannot be empty"
  | nul => "Identifier cannot contain NUL character"
  | emptyPart => "Empty identifier"
  | emptySegment => "Empty identifier segment"
  | trailingPoint => "Trailing '.' in identifier"
  | noPoint c => "Expected '.' between identifier parts, got '" ++ c.toString ++ "'"
  | unclosed => "Unclosed quoted identifier"
  | badCharacter c => "Invalid character in identifier: '" ++ c.toString ++ "'"

def toError (f : Fault) : Error := .validation f.message

end Fault

/-! ## Parts as given -/

/-- Accepts a part that is not empty and has no NUL. -/
def checkPart (name : String) : Except Fault Unit :=
  if name.isEmpty then .error .emptyPart
  else if '\x00' ∈ name.toList then .error .nul
  else .ok ()

/-- The name of a column, points and all. -/
def column (name : String) : Except Fault Ident := do
  checkPart name
  return ⟨[name]⟩

/-- A name in a schema, both as they are. -/
def qualified (schema name : String) : Except Fault Ident := do
  checkPart schema
  checkPart name
  return ⟨[schema, name]⟩

/-! ## Reading -/

/-- A character that a bare part may start with. -/
def isBareStart (c : Char) : Bool := c == '_' || c.isAlpha

/-- A character that may follow in a bare part. -/
def isBareRest (c : Char) : Bool := c == '_' || c == '$' || c.isAlphanum

/-- Where the reader is.  The characters of the part come last first. -/
inductive Mode where
  /-- Before a part. -/
  | start
  /-- In a bare part. -/
  | bare (before : List Char)
  /-- Between the quotes of a part. -/
  | inside (close : Char) (before : List Char)
  /-- After a closing character, which ends the part unless it comes again. -/
  | closed (close : Char) (before : List Char)

/-- The part whose characters come last first. -/
def partOf (before : List Char) : String := String.ofList before.reverse

/-- Reads from the given place on; `done` are the parts read, last first. -/
def read (mode : Mode) (done : List String) : List Char → Except Fault (List String)
  | [] =>
    match mode with
    | .start => .error (if done.isEmpty then .empty else .trailingPoint)
    | .bare before => .ok (partOf before :: done).reverse
    | .inside .. => .error .unclosed
    | .closed _ before =>
      if before.isEmpty then .error .emptyPart else .ok (partOf before :: done).reverse
  | c :: cs =>
    match mode with
    | .start =>
      if c = '"' then read (.inside '"' []) done cs
      else if c = '[' then read (.inside ']' []) done cs
      else if c = '.' then .error .emptySegment
      else if isBareStart c then read (.bare [c]) done cs
      else .error (.badCharacter c)
    | .bare before =>
      if c = '.' then read .start (partOf before :: done) cs
      else if isBareRest c then read (.bare (c :: before)) done cs
      else .error (.badCharacter c)
    | .inside close before =>
      if c = close then read (.closed close before) done cs
      else read (.inside close (c :: before)) done cs
    | .closed close before =>
      if c = close then read (.inside close (c :: before)) done cs
      else if before.isEmpty then .error .emptyPart
      else if c = '.' then read .start (partOf before :: done) cs
      else .error (.noPoint c)

/-- Reads a name of one or more parts. -/
def parse (s : String) : Except Fault Ident :=
  if s.isEmpty then .error .empty
  else if '\x00' ∈ s.toList then .error .nul
  else (read .start [] s.toList).map Ident.mk

/-! ## Writing -/

/-- The last part. -/
def name (i : Ident) : String := i.parts.getLast?.getD ""

/-- Every part in quotes, with points between them. -/
def fragment (i : Ident) : Fragment := Fragment.joined "." (i.parts.map fun p => [.name p])

/-- The text of a name in a dialect. -/
def sql (d : Dialect) (i : Ident) : String := i.fragment.sql d

end Ident

end RecordGraph
