/-
  JSON documents and their compact text.

  * `Json` keeps whole numbers apart from fractions.  An object lists its
    members in ascending order of their names, each name once: `Json.ofMembers`
    brings any list of members into that form, of two of one name the later.
  * `Json.eqv` is equality of documents, with fractions compared as numbers.
  * `Json.text` writes a document without blanks.
-/
import RecordGraph.Number.Shortest
import RecordGraph.Number.Places

namespace RecordGraph

/-- A number: whole numbers from `-2 ^ 63` to `2 ^ 64 - 1` are exact, all others
    are rounded. -/
inductive JsonNumber where
  | whole (i : Int)
  | fraction (x : Double)
  deriving DecidableEq

/-- Numbers of one form are compared by value. -/
def JsonNumber.eqv : JsonNumber → JsonNumber → Bool
  | .whole i, .whole j => i == j
  | .fraction x, .fraction y => x.eqv y
  | _, _ => false

/-- A JSON document. -/
inductive Json where
  | null
  | bool (b : Bool)
  | number (n : JsonNumber)
  | string (s : String)
  | array (items : List Json)
  | object (members : List (String × Json))

namespace Json

/-! ## Members -/

/-- Puts a member in its place by name; a member of that name is replaced. -/
def insertMember (name : String) (value : Json) : List (String × Json) → List (String × Json)
  | [] => [(name, value)]
  | (n, v) :: rest =>
    if name < n then (name, value) :: (n, v) :: rest
    else if name = n then (name, value) :: rest
    else (n, v) :: insertMember name value rest

/-- The object with the given members, of two of one name the later. -/
def ofMembers (members : List (String × Json)) : Json :=
  object (members.foldl (fun ms m => insertMember m.1 m.2 ms) [])

/-- The member of the given name of an object. -/
def member? (name : String) : Json → Option Json
  | .object members => members.lookup name
  | _ => none

/-! ## Equality -/

mutual

/-- Equality of documents, with fractions compared as numbers. -/
def eqv : Json → Json → Bool
  | .null, .null => true
  | .bool a, .bool b => a == b
  | .number m, .number n => m.eqv n
  | .string s, .string t => s == t
  | .array xs, .array ys => itemsEqv xs ys
  | .object xs, .object ys => membersEqv xs ys
  | _, _ => false

/-- `eqv` item by item. -/
def itemsEqv : List Json → List Json → Bool
  | [], [] => true
  | x :: xs, y :: ys => x.eqv y && itemsEqv xs ys
  | _, _ => false

/-- `eqv` member by member, names included. -/
def membersEqv : List (String × Json) → List (String × Json) → Bool
  | [], [] => true
  | (m, x) :: xs, (n, y) :: ys => m == n && x.eqv y && membersEqv xs ys
  | _, _ => false

end

mutual

/-- Whether two documents are the same, decided by recursion on the first. -/
def decEq : (a b : Json) → Decidable (a = b)
  | .null, .null => isTrue rfl
  | .bool a, .bool b => decidable_of_iff (a = b) (by simp)
  | .number m, .number n => decidable_of_iff (m = n) (by simp)
  | .string s, .string t => decidable_of_iff (s = t) (by simp)
  | .array xs, .array ys =>
    have := itemsDecEq xs ys
    decidable_of_iff (xs = ys) (by simp)
  | .object xs, .object ys =>
    have := membersDecEq xs ys
    decidable_of_iff (xs = ys) (by simp)
  | .null, .bool _ | .null, .number _ | .null, .string _ | .null, .array _ | .null, .object _
  | .bool _, .null | .bool _, .number _ | .bool _, .string _ | .bool _, .array _
  | .bool _, .object _
  | .number _, .null | .number _, .bool _ | .number _, .string _ | .number _, .array _
  | .number _, .object _
  | .string _, .null | .string _, .bool _ | .string _, .number _ | .string _, .array _
  | .string _, .object _
  | .array _, .null | .array _, .bool _ | .array _, .number _ | .array _, .string _
  | .array _, .object _
  | .object _, .null | .object _, .bool _ | .object _, .number _ | .object _, .string _
  | .object _, .array _ => isFalse (by simp)

/-- `decEq` item by item. -/
def itemsDecEq : (xs ys : List Json) → Decidable (xs = ys)
  | [], [] => isTrue rfl
  | x :: xs, y :: ys =>
    have := x.decEq y
    have := itemsDecEq xs ys
    decidable_of_iff (x = y ∧ xs = ys) (by simp)
  | [], _ :: _ | _ :: _, [] => isFalse (by simp)

/-- `decEq` member by member. -/
def membersDecEq : (xs ys : List (String × Json)) → Decidable (xs = ys)
  | [], [] => isTrue rfl
  | (m, x) :: xs, (n, y) :: ys =>
    have := x.decEq y
    have := membersDecEq xs ys
    decidable_of_iff ((m = n ∧ x = y) ∧ xs = ys) (by simp)
  | [], _ :: _ | _ :: _, [] => isFalse (by simp)

end

instance : DecidableEq Json := decEq

/-! ## Text -/

/-- A character inside quotes: quotes, reverse solidi and control characters are
    escaped, all else stands for itself. -/
def escaped (c : Char) : List Char :=
  if c = '"' then ['\\', '"']
  else if c = '\\' then ['\\', '\\']
  else if c = '\n' then ['\\', 'n']
  else if c = '\r' then ['\\', 'r']
  else if c = '\t' then ['\\', 't']
  else if c = '\x08' then ['\\', 'b']
  else if c = '\x0c' then ['\\', 'f']
  else if c.toNat < 32 then ['\\', 'u'] ++ toHex 4 c.toNat
  else [c]

/-- A string in quotes. -/
def quoted (s : String) : String :=
  String.ofList ('"' :: s.toList.flatMap escaped ++ ['"'])

/-- A fraction always shows that it is one: `-0.0`, `100.0`, `1e+16`. -/
def fractionText (x : Double) : String :=
  let sign (negative : Bool) := if negative then "-" else ""
  match x.read with
  | .finite negative 0 _ => sign negative ++ "0.0"
  | .finite negative m e =>
    sign negative ++ String.ofList (shortest .binary64 .toEven m e).fractional
  | _ => "null"

mutual

/-- The text of a document, without blanks. -/
def text : Json → String
  | .null => "null"
  | .bool b => if b then "true" else "false"
  | .number (.whole i) => toString i
  | .number (.fraction x) => fractionText x
  | .string s => quoted s
  | .array items => "[" ++ itemsText items ++ "]"
  | .object members => "\x7b" ++ membersText members ++ "\x7d"

/-- The items with commas between them. -/
def itemsText : List Json → String
  | [] => ""
  | [item] => item.text
  | item :: rest => item.text ++ "," ++ itemsText rest

/-- The members with commas between them. -/
def membersText : List (String × Json) → String
  | [] => ""
  | [(name, value)] => quoted name ++ ":" ++ value.text
  | (name, value) :: rest => quoted name ++ ":" ++ value.text ++ "," ++ membersText rest

end

end Json

end RecordGraph
