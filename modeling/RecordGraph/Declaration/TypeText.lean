/-
  The types of fields in declarations of structs.

  * A `TypeExpr` is what matters of such a type: the last part of its name and its
    arguments.
  * `TypeExpr.read?` reads the text of a type, as `std::option::Option<Box<T>>`.
  * Tokens are read from left to right; when an angle bracket is closed, what it holds
    becomes a list of arguments.  What other brackets hold does not count.
-/
import RecordGraph.Declaration.Token

namespace RecordGraph

/-- The type of a field. -/
inductive TypeExpr where
  /-- A type with a name, of which the last part counts.  Arguments that are not
      types are nothing. -/
  | named (name : String) (arguments : List (Option TypeExpr))
  /-- Any other type: references, tuples, arrays, functions and so on. -/
  | unnamed

namespace TypeExpr

/-- The `T` of `wrapper<T>`. -/
def inside (wrapper : String) : TypeExpr → Option TypeExpr
  | named name [some t] => if name = wrapper then some t else none
  | _ => none

/-- The `T` of an `Option<T>`. -/
def insideOption : TypeExpr → Option TypeExpr := inside "Option"

/-- The type is an `Option<Box<T>>`. -/
def isOptionalBox (t : TypeExpr) : Bool := (t.insideOption.bind (inside "Box")).isSome

/-- The type is an `Option<Vec<T>>`. -/
def isOptionalVec (t : TypeExpr) : Bool := (t.insideOption.bind (inside "Vec")).isSome

/-! ## Pieces -/

/-- A token outside brackets, or what a bracket and its partner enclose. -/
inductive Piece where
  | word (w : String)
  | lifetime
  | literal
  | join
  | arrow
  | comma
  | sign (c : Char)
  /-- Arguments in angle brackets. -/
  | arguments (ts : List (Option TypeExpr))
  /-- Other brackets, by the one that opens them. -/
  | group (opening : Char)

/-- The type whose name is spelled by some pieces: parts that are joined, each with
    arguments or not.  A part with parentheses, as of a function, may be followed by
    others if it has no result or one in parentheses. -/
def ofParts : List Piece → TypeExpr
  | [.word w] => named w []
  | [.word w, .arguments ts] => named w ts
  | [.word w, .join, .arguments ts] => named w ts
  | .word _ :: .join :: .arguments _ :: .join :: rest => ofParts rest
  | .word _ :: .arguments _ :: .join :: rest => ofParts rest
  | .word _ :: .join :: .group '(' :: .join :: rest => ofParts rest
  | .word _ :: .group '(' :: .join :: rest => ofParts rest
  | .word _ :: .join :: .group '(' :: .arrow :: .group '(' :: .join :: rest => ofParts rest
  | .word _ :: .group '(' :: .arrow :: .group '(' :: .join :: rest => ofParts rest
  | .word _ :: .join :: rest => ofParts rest
  | _ => unnamed

/-- Words that start a type without a name. -/
def startsUnnamed (w : String) : Bool :=
  ["dyn", "impl", "fn", "for", "unsafe", "extern", "_"].contains w

/-- The type spelled by some pieces.  A name may start with `::`, or with angle brackets
    around what it is looked up in. -/
def ofPieces : List Piece → TypeExpr
  | .join :: rest => ofParts rest
  | .arguments _ :: .join :: rest => ofParts rest
  | .word w :: rest => if startsUnnamed w then unnamed else ofParts (.word w :: rest)
  | _ => unnamed

/-- The sign says something of a named part of a type: that it is another one, or what
    it has to fulfil. -/
def isConstraint (c : Char) : Bool := c = '=' || c = ':'

/-- The argument spelled by some pieces, if it is a type.  Lifetimes, constants and
    what is said of a named part of the type are not. -/
def argumentOf : List Piece → Option TypeExpr
  | [.lifetime] => none
  | [.literal] => none
  | [.sign '-', .literal] => none
  | [.word "true"] => none
  | [.word "false"] => none
  | [.group '\x7b'] => none
  | .word w :: .sign c :: rest =>
    if isConstraint c then none else some (ofPieces (.word w :: .sign c :: rest))
  | .word w :: .arguments ts :: .sign c :: rest =>
    if isConstraint c then none
    else some (ofPieces (.word w :: .arguments ts :: .sign c :: rest))
  | .word w :: .join :: .arguments ts :: .sign c :: rest =>
    if isConstraint c then none
    else some (ofPieces (.word w :: .join :: .arguments ts :: .sign c :: rest))
  | pieces => some (ofPieces pieces)

/-- Pieces between commas.  Nothing after the last comma counts for nothing. -/
def splitAtCommas (now : List Piece) : List Piece → List (List Piece)
  | [] => if now.isEmpty then [] else [now]
  | .comma :: rest => now :: splitAtCommas [] rest
  | p :: rest => splitAtCommas (now ++ [p]) rest

/-- What a bracket encloses, as a piece. -/
def enclosed (opening : Char) (pieces : List Piece) : Piece :=
  if opening = '<' then .arguments ((splitAtCommas [] pieces).map argumentOf)
  else .group opening

/-- The bracket that a closing one is the partner of. -/
def openingOf : Char → Option Char
  | '>' => some '<'
  | ')' => some '('
  | ']' => some '['
  | '\x7d' => some '\x7b'
  | _ => none

/-- Brackets that open. -/
def isOpening (c : Char) : Bool := c = '<' || c = '(' || c = '[' || c = '\x7b'

/-- A token that is not a bracket, as a piece. -/
def Piece.ofToken : Token → Piece
  | .word w => .word w
  | .lifetime => .lifetime
  | .literal => .literal
  | .join => .join
  | .arrow => .arrow
  | .sign c => if c = ',' then .comma else .sign c

/-- The innermost open bracket is not an angle bracket, so that angle brackets are signs
    like others. -/
def inGroup (outer : List (Char × List Piece)) : Bool := outer.head?.any (·.1 ≠ '<')

/-- The pieces of some tokens.  `outer` are the brackets that are open, each with the
    pieces before it; `now` are the pieces since the last of them. -/
def piecesFrom (outer : List (Char × List Piece)) (now : List Piece) :
    List Token → Option (List Piece)
  | [] => if outer.isEmpty then some now else none
  | .sign c :: rest =>
    if inGroup outer ∧ (c = '<' ∨ c = '>') then
      piecesFrom outer (now ++ [.sign c]) rest
    else if isOpening c then piecesFrom ((c, now) :: outer) [] rest
    else match openingOf c, outer with
      | none, _ => piecesFrom outer (now ++ [.ofToken (.sign c)]) rest
      | some _, [] => none
      | some o, (opening, before) :: outer' =>
        if o = opening then piecesFrom outer' (before ++ [enclosed opening now]) rest else none
  | t :: rest => piecesFrom outer (now ++ [.ofToken t]) rest

/-- Reads the text of a type; brackets without partners and empty text are not read. -/
def read? (text : String) : Option TypeExpr :=
  match piecesFrom [] [] (tokens text.toList) with
  | none => none
  | some [] => none
  | some pieces => some (ofPieces pieces)

end TypeExpr

end RecordGraph
