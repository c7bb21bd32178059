/-
  Sessions: work on records and a database.

  * An `Executor` answers statements; what it knows is a state of its own, so an
    answer may depend on all that was sent before.
  * A `Session` works on a focus, such as a record, in a `World`: the database,
    the requests sent to it, the diagnostics and events so far, and the catalog.
    When it fails, the world and the focus stay as far as the work had got.
  * `onOther` and `onChild` do a part of the work on another focus.
-/
import RecordGraph.Catalog

namespace RecordGraph

/-! ## Executors -/

/-- Answers statements; `δ` is what the executor knows. -/
structure Executor (δ : Type) where
  /-- The rows of a statement. -/
  query : Statement → δ → Result (List Row) × δ
  /-- The number of rows that a statement has changed. -/
  execute : Statement → δ → Result Nat × δ
  /-- The names of the columns of a statement. -/
  describe : Statement → δ → Result (List String) × δ

/-- How a statement is sent. -/
inductive Via where
  | query
  | execute
  | describe
  deriving DecidableEq

def Via.name : Via → String
  | query => "query"
  | execute => "execute"
  | describe => "describe"

/-- A statement that was sent. -/
structure Request where
  via : Via
  statement : Statement
  deriving DecidableEq

/-! ## Worlds -/

/-- What a session is given. -/
structure Env (δ : Type) where
  config : Config
  executor : Executor δ

/-- What sessions change besides their focus.  Lists grow at their end. -/
structure World (τ δ : Type) where
  database : δ
  requests : List Request
  diagnostics : List Diagnostic
  events : List Event
  catalog : Catalog τ

/-- A world in which nothing has happened. -/
def World.ofDatabase {τ δ : Type} (database : δ) : World τ δ := ⟨database, [], [], [], .empty⟩

/-- What became of some work. -/
structure Ran (τ δ σ α : Type) where
  result : Result α
  world : World τ δ
  focus : σ

/-- Work on a focus of type `σ` with an answer of type `α`. -/
def Session (τ δ σ α : Type) := Env δ → World τ δ → σ → Ran τ δ σ α

namespace Session

variable {τ δ σ ρ α β : Type}

/-- Does nothing. -/
def answer (a : α) : Session τ δ σ α := fun _ w x => ⟨.ok a, w, x⟩

/-- Goes on with the answer, unless there is none. -/
def andThen (s : Session τ δ σ α) (next : α → Session τ δ σ β) : Session τ δ σ β := fun env w x =>
  match s env w x with
  | ⟨.ok a, w', x'⟩ => next a env w' x'
  | ⟨.error e, w', x'⟩ => ⟨.error e, w', x'⟩

instance : Monad (Session τ δ σ) where
  pure := answer
  bind := andThen

/-- Fails if the result is a failure. -/
def ofResult (r : Result α) : Session τ δ σ α := fun _ w x => ⟨r, w, x⟩

instance : MonadLift Result (Session τ δ σ) := ⟨ofResult⟩

/-- Fails. -/
def fail (e : Error) : Session τ δ σ α := ofResult (.error e)

/-! ## Reading and changing -/

def config : Session τ δ σ Config := fun env w x => ⟨.ok env.config, w, x⟩

/-- The record or whatever else is worked on. -/
def focus : Session τ δ σ σ := fun _ w x => ⟨.ok x, w, x⟩

def setFocus (x : σ) : Session τ δ σ Unit := fun _ w _ => ⟨.ok (), w, x⟩

def catalog : Session τ δ σ (Catalog τ) := fun _ w x => ⟨.ok w.catalog, w, x⟩

def setCatalog (c : Catalog τ) : Session τ δ σ Unit :=
  fun _ w x => ⟨.ok (), { w with catalog := c }, x⟩

/-- Adds a line to the log. -/
def emit (e : Event) : Session τ δ σ Unit :=
  fun _ w x => ⟨.ok (), { w with events := w.events ++ [e] }, x⟩

/-- Keeps a diagnostic. -/
def keep (d : Diagnostic) : Session τ δ σ Unit :=
  fun _ w x => ⟨.ok (), { w with diagnostics := w.diagnostics ++ [d] }, x⟩

/-- Does with a diagnostic what the configuration says. -/
def diagnose (d : Diagnostic) : Session τ δ σ Unit := do
  match (← config).sink with
  | .collect => keep d
  | .discard => pure ()
  | .trace => emit (.diagnosed d)

/-! ## Statements -/

/-- Sends a statement. -/
def send (via : Via) (answered : Executor δ → Statement → δ → Result α × δ) (s : Statement) :
    Session τ δ σ α := fun env w x =>
  let (result, database) := answered env.executor s w.database
  ⟨result, { w with database := database, requests := w.requests ++ [⟨via, s⟩] }, x⟩

/-- Logs a statement that is about to be sent, if the configuration says so. -/
def trace (s : Statement) : Session τ δ σ Unit := do
  if (← config).traceSql then emit (.executing s)

def query (s : Statement) : Session τ δ σ (List Row) := do
  trace s
  send .query Executor.query s

def execute (s : Statement) : Session τ δ σ Nat := do
  trace s
  send .execute Executor.execute s

def describe (s : Statement) : Session τ δ σ (List String) := do
  trace s
  send .describe Executor.describe s

/-- The first value of the first row. -/
def scalar (s : Statement) : Session τ δ σ (Option Value) := do
  let rows ← query s
  return rows.head?.bind fun row => row.value? 0

/-! ## Other focuses -/

/-- Works on something else, and gives back what became of it. -/
def onOther (other : ρ) (s : Session τ δ ρ α) : Session τ δ σ (α × ρ) := fun env w x =>
  match s env w other with
  | ⟨result, w', other'⟩ => ⟨result.map fun a => (a, other'), w', x⟩

/-- Works on one record of a collection of the record in focus, if it is there. -/
def onChild (slot i : Nat) (s : Session τ δ Record Unit) : Session τ δ Record Unit :=
  fun env w r =>
    match r.child? slot i with
    | none => ⟨.ok (), w, r⟩
    | some child =>
      match s env w child with
      | ⟨result, w', child'⟩ => ⟨result, w', r.setChild slot i child'⟩

/-! ## The catalog -/

variable [Model τ] [DecidableEq τ]

/-- The map of a type, made on first use. -/
def tableMap (t : τ) : Session τ δ σ (TableMap τ) := do
  let (m, c) ← (← catalog).tableMap (← config) t
  setCatalog c
  return m

/-- Gives a type its map. -/
def register (t : τ) (settings : List (Setting τ)) : Session τ δ σ Unit := do
  setCatalog (← (← catalog).register (← config) t settings)
  emit (.mapRegistered (typeName t))

/-- The type has its map. -/
def isRegistered (t : τ) : Session τ δ σ Bool := return ((← catalog).map? t).isSome

end Session

end RecordGraph
