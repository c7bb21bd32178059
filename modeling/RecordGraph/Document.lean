/-
  Reading documents part by part.

  A part that is missing reads like null, and null is read as the empty list and as
  false.
-/
import RecordGraph.Json

namespace RecordGraph

/-- What a document should have where it has something else. -/
structure Misread where
  expected : String
  deriving DecidableEq

/-- What is read from a document. -/
abbrev Read (α : Type) := Except Misread α

/-- The document has something else in place of what is expected. -/
def misread {α : Type} (expected : String) : Read α := .error ⟨expected⟩

namespace Json

/-! ## Whole documents -/

def asList : Json → Read (List Json)
  | .array items => .ok items
  | .null => .ok []
  | _ => misread "list"

def asText : Json → Read String
  | .string s => .ok s
  | _ => misread "text"

def asFlag : Json → Read Bool
  | .bool b => .ok b
  | .null => .ok false
  | _ => misread "flag"

def asInt : Json → Read Int
  | .number (.whole i) => .ok i
  | _ => misread "whole number"

def asNat (j : Json) : Read Nat := do
  match ← j.asInt with
  | .ofNat n => return n
  | .negSucc _ => misread "natural number"

/-- Bytes in hexadecimal digits. -/
def asBytes (j : Json) : Read (List UInt8) := do
  match bytesOfHex? (← j.asText).toList with
  | some bs => return bs
  | none => misread "hexadecimal digits"

def asTexts (j : Json) : Read (List String) := do (← j.asList).mapM asText

/-- Nothing if the document is null. -/
def optional {α : Type} (read : Json → Read α) : Json → Read (Option α)
  | .null => .ok none
  | j => (read j).map some

/-- The word that a list starts with, and what follows it. -/
def asCall (j : Json) : Read (String × List Json) := do
  match ← j.asList with
  | [] => misread "call"
  | name :: rest => return (← name.asText, rest)

/-! ## Parts -/

/-- The part of an object under a name, or null. -/
def part (j : Json) (name : String) : Json := (j.member? name).getD .null

def listAt (j : Json) (name : String) : Read (List Json) := (j.part name).asList

def textAt (j : Json) (name : String) : Read String := (j.part name).asText

def flagAt (j : Json) (name : String) : Read Bool := (j.part name).asFlag

def natAt (j : Json) (name : String) : Read Nat := (j.part name).asNat

def textsAt (j : Json) (name : String) : Read (List String) := (j.part name).asTexts

def text? (j : Json) (name : String) : Read (Option String) := optional asText (j.part name)

def nat? (j : Json) (name : String) : Read (Option Nat) := optional asNat (j.part name)

end Json

end RecordGraph
