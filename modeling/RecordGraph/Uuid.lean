/-
  Universally unique identifiers: 128 bits, written as 32 hexadecimal digits.

  * `Uuid.text` is the hyphenated lower-case form.
  * `Uuid.parse?` reads that form in any case, plain, wrapped in braces or behind
    `urn:uuid:`, and the form without hyphens.
-/
import RecordGraph.Number.Places

namespace RecordGraph

/-- An identifier of 128 bits. -/
structure Uuid where
  value : BitVec 128
  deriving DecidableEq

namespace Uuid

/-- The identifier whose bits are all zero. -/
def zero : Uuid := ⟨0⟩

/-- The sixteen bytes, the highest first. -/
def bytes (u : Uuid) : List UInt8 := toBigEndian 16 u.value.toNat

/-- The identifier of sixteen bytes, the highest first. -/
def ofBytes (bs : List UInt8) : Uuid := ⟨.ofNat 128 (ofBigEndian bs)⟩

/-- The lengths of the groups of digits between hyphens. -/
def groups : List Nat := [8, 4, 4, 4, 12]

/-- Cuts digits into groups and puts hyphens between them. -/
def hyphenate : List Nat → List Char → List Char
  | [], cs => cs
  | [n], cs => cs.take n
  | n :: ns, cs => cs.take n ++ '-' :: hyphenate ns (cs.drop n)

/-- The digits of a hyphenated form: groups of the given lengths with one hyphen
    between them. -/
def unhyphenate? : List Nat → List Char → Option (List Char)
  | [], cs => if cs.isEmpty then some [] else none
  | [n], cs => if cs.length = n then some cs else none
  | n :: ns, cs =>
    match cs.drop n with
    | '-' :: rest => (unhyphenate? ns rest).map (cs.take n ++ ·)
    | _ => none

/-- The hyphenated lower-case form. -/
def text (u : Uuid) : String := String.ofList (hyphenate groups (toHex 32 u.value.toNat))

/-- The identifier with the given 32 digits. -/
def ofDigits? (cs : List Char) : Option Uuid :=
  if cs.length = 32 then (ofHex? cs).map fun n => ⟨.ofNat 128 n⟩ else none

/-- The mark before a hyphenated form, in any case. -/
def urnMark : List Char := "urn:uuid:".toList

/-- What is inside the wrappings that a hyphenated form may have. -/
def unwrap (cs : List Char) : List Char :=
  if (cs.take urnMark.length).map Char.toLower = urnMark then cs.drop urnMark.length
  else match cs with
    | '\x7b' :: rest => if rest.getLast? = some '\x7d' then rest.dropLast else cs
    | cs => cs

/-- Reads any of the accepted forms. -/
def parse? (s : String) : Option Uuid :=
  let cs := s.toList
  if cs.length = 32 then ofDigits? cs
  else (unhyphenate? groups (unwrap cs)).bind ofDigits?

end Uuid

end RecordGraph
