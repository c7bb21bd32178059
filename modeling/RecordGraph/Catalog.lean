/-
  The catalog of a program: the map and the row mapper of every record type that
  has been used.

  A type gets its map once, by `register` or by the first use of it, and keeps it.
  `offer` and `enter` are the two ways in which a map that has been built gets into
  the catalog.
-/
import RecordGraph.Mapping.RowMapper
import RecordGraph.Mapping.TableMap

namespace RecordGraph

/-- The maps and mappers of the types used so far. -/
structure Catalog (τ : Type) where
  maps : List (τ × TableMap τ)
  mappers : List (τ × RowMapper τ)

namespace Catalog

variable {τ : Type}

def empty : Catalog τ := ⟨[], []⟩

variable [DecidableEq τ]

/-- The map of a type, if it has one. -/
def map? (c : Catalog τ) (t : τ) : Option (TableMap τ) := c.maps.lookup t

/-- Puts in a map for a type without one.  The map in the catalog is the answer. -/
def offer (c : Catalog τ) (t : τ) (m : TableMap τ) : TableMap τ × Catalog τ :=
  match c.map? t with
  | some stored => (stored, c)
  | none => (m, { c with maps := c.maps ++ [(t, m)] })

variable [Model τ]

/-- Puts in a map for a type that must not have one. -/
def enter (c : Catalog τ) (t : τ) (m : TableMap τ) : Result (Catalog τ) :=
  match c.map? t with
  | some _ => .error (MapFault.alreadyRegistered (typeName t)).toError
  | none => .ok { c with maps := c.maps ++ [(t, m)] }

/-- The map of a type as the type itself describes it. -/
def ownMap (config : Config) (t : τ) : Result (TableMap τ) := (MapDraft.ofType t).finish config

/-- Gives a type its map: what the type says itself, and then the given settings. -/
def register (c : Catalog τ) (config : Config) (t : τ) (settings : List (Setting τ)) :
    Result (Catalog τ) := do
  let m ← ((MapDraft.ofType t).tellAll settings).finish config
  c.enter t m

/-- The map of a type, made on first use. -/
def tableMap (c : Catalog τ) (config : Config) (t : τ) : Result (TableMap τ × Catalog τ) :=
  match c.map? t with
  | some m => .ok (m, c)
  | none => (ownMap config t).map (c.offer t)

/-! ## Row mappers -/

/-- The row mapper of a type, made on first use. -/
def mapper (c : Catalog τ) (config : Config) (t : τ) : RowMapper τ :=
  (c.mappers.lookup t).getD (.ofConfig config t)

/-- Keeps what a row mapper has learnt. -/
def keepMapper (c : Catalog τ) (t : τ) (m : RowMapper τ) : Catalog τ :=
  { c with mappers := (t, m) :: c.mappers.filter fun e => e.1 ≠ t }

end Catalog

end RecordGraph
