/-
  An executor that follows a script.

  A script is a list of replies.  A statement takes the first reply that is meant
  for it, which is then used up unless it is sticky.
-/
import RecordGraph.Session
import RecordGraph.Text.Words

namespace RecordGraph

/-- What a statement is answered with. -/
inductive Answer where
  | rows (rows : List Row)
  | columns (names : List String)
  | affected (n : Nat)
  | failure (e : Error)

/-- A reply of a script. -/
structure Reply where
  /-- The reply is meant for statements with this text in them, or else for all. -/
  pattern : Option String
  /-- The reply is never used up. -/
  sticky : Bool
  answer : Answer

/-- The replies that have not been used up. -/
abbrev Script := List Reply

namespace Script

/-- A text occurs in another. -/
def occursIn (pattern text : String) : Bool := (cutAtFirst pattern.toList text.toList).isSome

/-- The reply is meant for a statement. -/
def fits (s : Statement) (r : Reply) : Bool := r.pattern.all fun p => occursIn p s.sql

/-- The first reply for a statement, and what is left of the script. -/
def next (s : Statement) (script : Script) : Option (Answer × Script) :=
  (script.find? (fits s)).map fun r =>
    (r.answer, if r.sticky then script else script.eraseP (fits s))

/-- Answers a statement from the script. -/
def reply {α : Type} (read : Answer → Result α) (s : Statement) (script : Script) :
    Result α × Script :=
  match next s script with
  | some (.failure e, rest) => (.error e, rest)
  | some (a, rest) => (read a, rest)
  | none => (.error (.executor "no reply left"), script)

/-- The executor of scripts.  A reply of another kind is no rows, no changes, or no
    description. -/
def executor : Executor Script where
  query := reply fun
    | .rows rows => .ok rows
    | _ => .ok []
  execute := reply fun
    | .affected n => .ok n
    | _ => .ok 0
  describe := reply fun
    | .columns names => .ok names
    | _ => .error (.executor "describe expects columns")

/-- How many replies are waiting to be used up. -/
def remaining (script : Script) : Nat := script.countP fun r => !r.sticky

end Script

end RecordGraph
