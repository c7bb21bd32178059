/-
  Names that are made from other names.

  * `Naming.tableName` is the name of the table of a record type: the name of the
    type, or its English plural.
  * `FieldName.segments` are the parts of a dotted path, and `FieldName.stem?` is
    the `X` of a name `XId` that refers to the key of a nested record `X`.
-/
namespace RecordGraph

/-! ## Tables -/

/-- How the name of a table is made from the name of a record type. -/
inductive Naming where
  | plural
  | singular
  deriving DecidableEq

namespace Naming

def isVowel (c : Char) : Bool := c = 'a' || c = 'e' || c = 'i' || c = 'o' || c = 'u'

/-- The text ends with one of the given endings. -/
def endsWithAny (endings : List String) (cs : List Char) : Bool :=
  endings.any fun e => e.toList.isSuffixOf cs

/-- The character that decides whether a final `y` becomes `ies`: its place is
    counted by the bytes of the name, so it is the last but one in a name of
    ASCII letters and none in others that are too short for the count. -/
def beforeLast (name : String) : Option Char := name.toList[name.utf8ByteSize - 2]?

/-- The English plural of a name. -/
def pluralOf (name : String) : String :=
  let cs := name.toList
  if cs.getLast? = some 'y' ∧ 1 < name.utf8ByteSize ∧ !(beforeLast name).any isVowel then
    String.ofList cs.dropLast ++ "ies"
  else if endsWithAny ["s", "x", "z", "ch", "sh"] cs then name ++ "es"
  else name ++ "s"

/-- The name of the table of a type. -/
def tableName : Naming → String → String
  | plural, name => pluralOf name
  | singular, name => name

end Naming

/-! ## Fields -/

namespace FieldName

/-- The parts of a path between its points, at least one. -/
def segmentsOf : List Char → List (List Char)
  | [] => [[]]
  | c :: cs =>
    if c = '.' then [] :: segmentsOf cs
    else match segmentsOf cs with
      | s :: rest => (c :: s) :: rest
      | [] => [[c]]

/-- The parts of a dotted path. -/
def segments (path : String) : List String := (segmentsOf path.toList).map String.ofList

/-- A path of more than one part. -/
def isDotted (path : String) : Bool := '.' ∈ path.toList

/-- The `X` of a name `XId`, if it is not empty. -/
def stem? (name : String) : Option String :=
  match name.toList.reverse with
  | 'd' :: 'I' :: c :: rest => some (String.ofList (c :: rest).reverse)
  | _ => none

/-- The path to the key of a nested record. -/
def keyPath (nested : String) : String := nested ++ ".Id"

end FieldName

end RecordGraph
