/-
  Sending statements to a PostgreSQL server.

  * A `Reaction` is what the server does with one statement: the types that it
    tells when the statement is prepared, its rows, its closing word, or a failure.
  * `query`, `scalar`, `execute` and `describe` say what the client makes of a
    reaction; parameters are bound only if each of them can be encoded.
  * A column that cannot be read is null, and is reported.
-/
import RecordGraph.Error
import RecordGraph.Postgres.Wire
import RecordGraph.Report
import RecordGraph.Row

namespace RecordGraph.Postgres

/-! ## Failures of the server -/

/-- A failure that the server reports. -/
structure ServerFailure where
  /-- Five characters that tell the cause. -/
  code : String
  message : String
  /-- The constraint that was violated. -/
  constraint : Option String
  /-- The statement fails when it is prepared, not when it runs. -/
  atPrepare : Bool
  deriving DecidableEq

namespace ServerFailure

/-- The constraint and the message. -/
def text (f : ServerFailure) : String := f.constraint.getD "unknown" ++ ": " ++ f.message

/-- The failure of the statement: violated constraints are told apart. -/
def toError (f : ServerFailure) : Error :=
  match f.code with
  | "23505" => .uniqueViolation f.text
  | "23503" => .foreignKeyViolation f.text
  | "23514" => .checkViolation f.text
  | _ => .query f.message

end ServerFailure

/-! ## Reactions -/

/-- What the server does with a statement. -/
structure Reaction where
  parameters : List SqlType
  columns : List (String × SqlType)
  /-- Rows of columns in binary form; nothing stands for null. -/
  rows : List (List (Option (List UInt8)))
  /-- The words that end an answer; the last one may be a number of rows. -/
  tag : String
  failure : Option ServerFailure

/-- What happened when a statement was sent. -/
structure Exchange (α : Type) where
  /-- The parameters that were bound, each time some were. -/
  bound : List (List (Option (List UInt8)))
  reports : List Diagnostic
  result : Result α

namespace Exchange

/-- Goes on with the result; what was bound and reported stays. -/
def map {α β : Type} (f : α → β) (x : Exchange α) : Exchange β :=
  ⟨x.bound, x.reports, x.result.map f⟩

end Exchange

/-- Why parameters cannot be bound. -/
inductive BindFault where
  | wrongCount (expected actual : Nat)
  | parameter (place : Nat)
  deriving DecidableEq

namespace BindFault

def message : BindFault → String
  | wrongCount expected actual =>
    "expected " ++ toString expected ++ " parameters but got " ++ toString actual
  | parameter place => "error serializing parameter " ++ toString place

def toError (f : BindFault) : Error := .query f.message

end BindFault

/-- The forms of some parameters, the first of which has the given place. -/
def encodeFrom (place : Nat) :
    List (SqlType × Value) → Except BindFault (List (Option (List UInt8)))
  | [] => .ok []
  | (t, v) :: rest =>
    match encode t v with
    | .error _ => .error (.parameter place)
    | .ok sent => (encodeFrom (place + 1) rest).map (sent :: ·)

/-- The forms of all parameters. -/
def bindParameters (types : List SqlType) (params : List Value) :
    Except BindFault (List (Option (List UInt8))) :=
  if types.length = params.length then encodeFrom 0 (types.zip params)
  else .error (.wrongCount types.length params.length)

/-! ## Rows -/

/-- The diagnostic about a column that cannot be read. -/
def unreadable (name : String) (t : SqlType) (f : DecodeFault) : Diagnostic :=
  .columnRead t.name name f.message

/-- The values of a row and what is reported about them. -/
def readCells : List ((String × SqlType) × Option (List UInt8)) → List Value × List Diagnostic
  | [] => ([], [])
  | ((name, t), sent) :: rest =>
    let (values, reports) := readCells rest
    match decode t sent with
    | .ok v => (v :: values, reports)
    | .error f => (.null :: values, unreadable name t f :: reports)

/-- Rows and what is reported about them. -/
def readRows (columns : List (String × SqlType)) :
    List (List (Option (List UInt8))) → List Row × List Diagnostic
  | [] => ([], [])
  | cells :: rest =>
    let (values, reports) := readCells (columns.zip cells)
    let (rows, more) := readRows columns rest
    (Row.ofColumns (columns.map Prod.fst) values :: rows, reports ++ more)

/-! ## Statements -/

/-- Prepares, binds and runs a statement, and reads what comes back. -/
def run {α : Type} (read : Reaction → α × List Diagnostic) (r : Reaction) (params : List Value) :
    Exchange α :=
  match r.failure with
  | some f =>
    if f.atPrepare then ⟨[], [], .error f.toError⟩
    else match bindParameters r.parameters params with
      | .error e => ⟨[], [], .error e.toError⟩
      | .ok sent => ⟨[sent], [], .error f.toError⟩
  | none =>
    match bindParameters r.parameters params with
    | .error e => ⟨[], [], .error e.toError⟩
    | .ok sent =>
      let (a, reports) := read r
      ⟨[sent], reports, .ok a⟩

/-- The rows of a statement. -/
def query : Reaction → List Value → Exchange (List Row) := run fun r => readRows r.columns r.rows

/-- The first value of the first row of a statement. -/
def scalar (r : Reaction) (params : List Value) : Exchange (Option Value) :=
  (query r params).map fun rows => rows.head?.bind fun row => row.value? 0

/-- The number of a word, below `2 ^ 64`; other words count as zero. -/
def countOf (word : List Char) : Nat :=
  let digits := if word.head? = some '+' then word.tail else word
  if digits.isEmpty ∨ !digits.all Char.isDigit then 0
  else
    let n := ofPlaces 10 (digits.map fun c => c.toNat - '0'.toNat)
    if n < Nat.pow 2 64 then n else 0

/-- The number of rows in the words that end an answer. -/
def affectedRows (tag : String) : Nat :=
  countOf ((tag.toList.reverse.takeWhile fun c => c ≠ ' ').reverse)

/-- The number of rows that a statement has changed. -/
def execute : Reaction → List Value → Exchange Nat := run fun r => (affectedRows r.tag, [])

/-- The names of the columns of a statement, which is only prepared. -/
def describe (r : Reaction) : Exchange (List String) :=
  match r.failure with
  | some f =>
    if f.atPrepare then ⟨[], [], .error f.toError⟩ else ⟨[], [], .ok (r.columns.map Prod.fst)⟩
  | none => ⟨[], [], .ok (r.columns.map Prod.fst)⟩

end RecordGraph.Postgres
