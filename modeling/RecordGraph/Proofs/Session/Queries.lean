/-
  Queries that are put together step by step.

  * `QueryStep` are the steps; what a query has become after some of them is told from the list of
    steps alone.  `conditionsOf` are the conditions from the last `where` on, `keysOf` the keys with
    the first direction after each, and the source and the cap are the last ones given.
  * `firstMisuse` is the first step that makes no sense where it stands: a name that is none, or a
    direction with no key before it that waits for one.
  * One step more changes each of these in its own way, and so the query (`Query.apply_described`).
    `built_ends` says what becomes of a query when it is run: it fails with its first misuse and
    sends nothing, or else it sends the select that the steps describe.
-/
import Mathlib.Data.List.DropRight
import RecordGraph.Proofs.Samples
import RecordGraph.Proofs.Session.Alike
import RecordGraph.Session.Query

namespace RecordGraph

variable {τ δ σ : Type}

/-! ## Steps -/

/-- A step in which a query is put together. -/
inductive QueryStep where
  | fromView (name : String)
  | fromSchema (schema name : String)
  | fromSql (sql : String)
  | onlyWhere (c : Condition)
  | and (c : Condition)
  | or (c : Condition)
  | orderBy (field : String)
  | direction (descending : Bool)
  | take (n : Nat)

namespace Query

/-- The query after one more step. -/
def apply (q : Query τ) : QueryStep → Query τ
  | .fromView name => q.fromView name
  | .fromSchema schema name => q.fromSchema schema name
  | .fromSql sql => q.fromSql sql
  | .onlyWhere c => q.onlyWhere c
  | .and c => q.and c
  | .or c => q.or c
  | .orderBy field => q.orderBy field
  | .direction descending => q.direction descending
  | .take n => q.take n

/-- The query that some steps put together, on everything that a map reads. -/
def built (m : TableMap τ) (steps : List QueryStep) : Query τ := steps.foldl apply (ofMap m)

end Query

namespace QueryStep

/-! ## What steps say -/

def isWhere : QueryStep → Bool
  | onlyWhere _ => true
  | _ => false

def isKey : QueryStep → Bool
  | orderBy _ => true
  | _ => false

/-- The condition that a step adds, with how it is joined to those before. -/
def condition? : QueryStep → Option Condition
  | onlyWhere c => some c
  | and c => some c
  | or c => some c.joinedByOr
  | _ => none

/-- What a step reads from, unless its name is none. -/
def source? (m : TableMap τ) : QueryStep → Option Source
  | fromView name => (objectIdent m.schema name).toOption.map .object
  | fromSchema schema name => (Ident.qualified schema name).toOption.map .object
  | fromSql sql => some (.sql sql)
  | _ => none

def cap? : QueryStep → Option Nat
  | take n => some n
  | _ => none

def direction? : QueryStep → Option Bool
  | direction descending => some descending
  | _ => none

/-- The step gives a key or a direction. -/
def orders (s : QueryStep) : Bool := s.isKey || s.direction?.isSome

/-- The conditions from the last `where` on, or all if there is none. -/
def conditionsOf (steps : List QueryStep) : List Condition :=
  ((steps.rdropWhile fun s => !s.isWhere).getLast?.toList ++
    steps.rtakeWhile fun s => !s.isWhere).filterMap condition?

/-- The last source, or else that of the map. -/
def sourceOf (m : TableMap τ) (steps : List QueryStep) : Source :=
  ((steps.filterMap (source? m)).getLast?).getD .map

/-- The last cap, or else none. -/
def capOf (steps : List QueryStep) : Nat := ((steps.filterMap cap?).getLast?).getD 0

/-- The first direction before the next key. -/
def nextDirection (steps : List QueryStep) : Option Bool :=
  (steps.takeWhile fun s => !s.isKey).findSome? direction?

/-- Every key, descending if the first direction after it and before the next key is. -/
def keysOf : List QueryStep → List OrderKey
  | [] => []
  | orderBy field :: steps => ⟨field, nextDirection steps = some true⟩ :: keysOf steps
  | _ :: steps => keysOf steps

/-- A key has been given after the last direction. -/
def awaitsDirection (steps : List QueryStep) : Bool :=
  (steps.filter orders).getLast?.any isKey

/-- The select that some steps describe. -/
def specOf (m : TableMap τ) (steps : List QueryStep) : QuerySpec where
  source := sourceOf m steps
  conditions := conditionsOf steps
  order := ⟨keysOf steps, awaitsDirection steps⟩
  take := capOf steps

/-- What is wrong with a name. -/
def nameError : Except Ident.Fault Ident → Option Error
  | .ok _ => none
  | .error fault => some fault.toError

/-- What is wrong with a step after some others.  Directions that were given too often before are
    misuses themselves, so up to the first misuse every direction has settled a key. -/
def misuse? (m : TableMap τ) (before : List QueryStep) : QueryStep → Option Error
  | fromView name => nameError (objectIdent m.schema name)
  | fromSchema schema name => nameError (Ident.qualified schema name)
  | direction _ => if awaitsDirection before then none else some OrderBy.strayDirection
  | _ => none

/-- The error of the first step that is a misuse after those before it. -/
def firstMisuse (m : TableMap τ) (steps : List QueryStep) : Option Error :=
  (steps.inits.zip steps).findSome? fun (before, s) => misuse? m before s

/-! ## One step more -/

variable {m : TableMap τ} {steps : List QueryStep} {s : QueryStep}

theorem conditionsOf_concat (steps : List QueryStep) (s : QueryStep) :
    conditionsOf (steps ++ [s]) =
      if s.isWhere then s.condition?.toList else conditionsOf steps ++ s.condition?.toList := by
  unfold conditionsOf
  rw [List.rdropWhile_concat, List.rtakeWhile_concat]
  by_cases hs : s.isWhere = true
  · cases hc : s.condition? <;> simp [hs, hc]
  · cases hc : s.condition? <;> simp [hs, hc]

theorem getLast_filterMap_concat {α : Type} (f : QueryStep → Option α) (steps : List QueryStep)
    (s : QueryStep) (a : α) : (((steps ++ [s]).filterMap f).getLast?).getD a =
      (f s).getD (((steps.filterMap f).getLast?).getD a) := by
  rw [List.filterMap_append]
  cases hs : f s <;> simp [hs]

theorem sourceOf_concat (steps : List QueryStep) (s : QueryStep) :
    sourceOf m (steps ++ [s]) = (s.source? m).getD (sourceOf m steps) :=
  getLast_filterMap_concat (source? m) steps s _

theorem capOf_concat (steps : List QueryStep) (s : QueryStep) :
    capOf (steps ++ [s]) = s.cap?.getD (capOf steps) :=
  getLast_filterMap_concat cap? steps s _

theorem awaitsDirection_concat (steps : List QueryStep) (s : QueryStep) :
    awaitsDirection (steps ++ [s]) = if s.orders then s.isKey else awaitsDirection steps := by
  unfold awaitsDirection
  rw [List.filter_append]
  by_cases hs : s.orders = true <;> simp [hs]

/-- Every step with those before it; a step at the end comes after all the others. -/
theorem inits_zip_concat (steps : List QueryStep) (s : QueryStep) :
    (steps ++ [s]).inits.zip (steps ++ [s]) = steps.inits.zip steps ++ [(steps, s)] := by
  induction steps with
  | nil => rfl
  | cons t steps ih =>
    simp only [List.cons_append, List.inits_cons, List.zip_cons_cons, List.zip_map_left, ih,
      List.map_append, List.map_cons, List.map_nil, Prod.map, id]

theorem firstMisuse_concat (steps : List QueryStep) (s : QueryStep) :
    firstMisuse m (steps ++ [s]) = (firstMisuse m steps).or (misuse? m steps s) := by
  rw [firstMisuse, inits_zip_concat, List.findSome?_append, List.findSome?_singleton]
  rfl

/-! ## Keys -/

theorem nextDirection_concat (steps : List QueryStep) (s : QueryStep) :
    nextDirection (steps ++ [s]) =
      if steps.any isKey then nextDirection steps else (nextDirection steps).or s.direction? := by
  induction steps with
  | nil => cases s <;> rfl
  | cons t steps ih =>
    cases t with
    | orderBy field => rfl
    | direction descending => exact (ite_self (some descending)).symm
    | _ => exact ih

/-- Without another key the next direction is missing just when nothing more orders. -/
theorem nextDirection_eq_none (h : steps.any isKey = false) :
    nextDirection steps = none ↔ steps.any orders = false := by
  induction steps with
  | nil => exact iff_of_true rfl rfl
  | cons t steps ih =>
    cases t with
    | orderBy field => cases h
    | direction descending => exact iff_of_false nofun nofun
    | _ => exact ih h

theorem awaitsDirection_cons (t : QueryStep) (steps : List QueryStep) :
    awaitsDirection (t :: steps) =
      if steps.any orders then awaitsDirection steps else t.isKey := by
  unfold awaitsDirection
  rw [List.filter_cons]
  by_cases hany : steps.any orders = true
  · obtain ⟨s, hs, ho⟩ := List.any_eq_true.1 hany
    have hne : steps.filter orders ≠ [] := List.ne_nil_of_mem (List.mem_filter.2 ⟨hs, ho⟩)
    rw [if_pos hany]
    split
    · rw [List.getLast?_cons_of_ne_nil hne]
    · rfl
  · have hnil : steps.filter orders = [] := by simpa using hany
    rw [if_neg hany, hnil]
    cases t <;> rfl

theorem keysOf_eq_nil : keysOf steps = [] ↔ steps.any isKey = false := by
  induction steps with
  | nil => exact iff_of_true rfl rfl
  | cons t steps ih =>
    cases t with
    | orderBy field => exact iff_of_false nofun nofun
    | _ => exact ih

theorem awaitsDirection_of_noKey (h : steps.any isKey = false) :
    awaitsDirection steps = false := by
  induction steps with
  | nil => rfl
  | cons t steps ih =>
    rw [List.any_cons, Bool.or_eq_false_iff] at h
    rw [awaitsDirection_cons, ih h.2, h.1, ite_self]

theorem orders_of_key (h : steps.any isKey = true) : steps.any orders = true := by
  obtain ⟨s, hs, hk⟩ := List.any_eq_true.1 h
  exact List.any_eq_true.2 ⟨s, hs, by rw [orders, hk, Bool.true_or]⟩

theorem noKey_of_noOrder (h : steps.any orders = false) : steps.any isKey = false :=
  Bool.eq_false_iff.2 fun hkey => Bool.eq_false_iff.1 h (orders_of_key hkey)

/-- A step that is no key lets no key wait that does not wait without it. -/
theorem awaitsDirection_cons_of_noKey {t : QueryStep} (h : t.isKey = false) :
    awaitsDirection (t :: steps) = awaitsDirection steps := by
  rw [awaitsDirection_cons]
  split
  · rfl
  · rename_i horders
    rw [h, awaitsDirection_of_noKey (noKey_of_noOrder (by simpa using horders))]

theorem keysOf_concat_key (steps : List QueryStep) (field : String) :
    keysOf (steps ++ [orderBy field]) = keysOf steps ++ [⟨field, false⟩] := by
  induction steps with
  | nil => rfl
  | cons t steps ih =>
    cases t with
    | orderBy name =>
      have hsame : nextDirection (steps ++ [orderBy field]) = nextDirection steps := by
        rw [nextDirection_concat]
        simp [direction?]
      rw [List.cons_append, keysOf, hsame, ih]
      rfl
    | _ => exact ih

theorem settleLast_cons (descending : Bool) (k : OrderKey) {ks : List OrderKey} (h : ks ≠ []) :
    OrderBy.settleLast descending (k :: ks) = k :: OrderBy.settleLast descending ks := by
  cases ks with
  | nil => exact absurd rfl h
  | cons k' ks => rfl

/-- A direction goes to the last key if that waits for one. -/
theorem keysOf_concat_direction (steps : List QueryStep) (descending : Bool) :
    keysOf (steps ++ [direction descending]) =
      if awaitsDirection steps then OrderBy.settleLast descending (keysOf steps)
      else keysOf steps := by
  induction steps with
  | nil => rfl
  | cons t steps ih =>
    cases t with
    | orderBy field =>
      rw [awaitsDirection_cons, List.cons_append, keysOf, keysOf, nextDirection_concat, ih]
      cases hkey : steps.any isKey with
      | true =>
        -- The key that may wait is a later one.
        have hne : keysOf steps ≠ [] := fun h => by rw [keysOf_eq_nil.1 h] at hkey; cases hkey
        rw [if_pos rfl, if_pos (orders_of_key hkey)]
        split
        · rw [settleLast_cons descending _ hne]
        · rfl
      | false =>
        rw [if_neg nofun, keysOf_eq_nil.2 hkey, awaitsDirection_of_noKey hkey]
        cases hnext : nextDirection steps with
        | none =>
          rw [(nextDirection_eq_none hkey).1 hnext]
          cases descending <;> rfl
        | some first =>
          have horders : steps.any orders = true := by
            by_contra hnone
            rw [(nextDirection_eq_none hkey).2 (by simpa using hnone)] at hnext
            cases hnext
          rw [if_pos horders]
          rfl
    | _ =>
      rw [awaitsDirection_cons_of_noKey rfl]
      exact ih

theorem keysOf_concat (steps : List QueryStep) (h : s.orders = false) :
    keysOf (steps ++ [s]) = keysOf steps := by
  rw [orders, Bool.or_eq_false_iff] at h
  induction steps with
  | nil => cases s <;> first | rfl | cases h.1
  | cons t steps ih =>
    cases t with
    | orderBy field =>
      have hsame : nextDirection (steps ++ [s]) = nextDirection steps := by
        have hnone : s.direction? = none := by simpa using h.2
        rw [nextDirection_concat, hnone, Option.or_none, ite_self]
      rw [List.cons_append, keysOf, hsame, ih]
      rfl
    | _ => exact ih

/-! ## The query after one step more -/

/-- A step that orders changes the order and nothing else. -/
theorem specOf_concat_orders (h : s.orders = true) :
    specOf m (steps ++ [s]) =
      { specOf m steps with order := ⟨keysOf (steps ++ [s]), s.isKey⟩ } := by
  have hrest : s.source? m = none ∧ s.isWhere = false ∧ s.condition? = none ∧ s.cap? = none := by
    cases s <;> first | exact ⟨rfl, rfl, rfl, rfl⟩ | cases h
  obtain ⟨hsource, hwhere, hcondition, hcap⟩ := hrest
  rw [specOf, sourceOf_concat, conditionsOf_concat, awaitsDirection_concat, capOf_concat, h,
    hsource, hwhere, hcondition, hcap, if_pos rfl, if_neg nofun]
  simp [specOf]

/-- Any other step leaves the order. -/
theorem specOf_concat (h : s.orders = false) :
    specOf m (steps ++ [s]) =
      ⟨(s.source? m).getD (sourceOf m steps),
        if s.isWhere then s.condition?.toList else conditionsOf steps ++ s.condition?.toList,
        ⟨keysOf steps, awaitsDirection steps⟩, s.cap?.getD (capOf steps)⟩ := by
  have hawaits : awaitsDirection (steps ++ [s]) = awaitsDirection steps := by
    rw [awaitsDirection_concat, if_neg (by simp [h])]
  rw [specOf, sourceOf_concat, conditionsOf_concat, keysOf_concat steps h, hawaits, capOf_concat]

theorem specOf_concat_of_noCondition (h : s.orders = false) (hw : s.isWhere = false)
    (hc : s.condition? = none) :
    specOf m (steps ++ [s]) =
      ⟨(s.source? m).getD (sourceOf m steps), conditionsOf steps,
        ⟨keysOf steps, awaitsDirection steps⟩, s.cap?.getD (capOf steps)⟩ := by
  rw [specOf_concat h, hw, hc, if_neg nofun, Option.toList_none, List.append_nil]

end QueryStep

namespace Query

open QueryStep

variable {m : TableMap τ}

/-- A query that reads from a name, or fails if it is none. -/
theorem fromObject_eq (q : Query τ) (ident : Except Ident.Fault Ident) :
    q.fromObject ident =
      ⟨q.map, { q.spec with source := (ident.toOption.map .object).getD q.spec.source },
        q.failure.or (nameError ident)⟩ := by
  cases ident with
  | ok i => simp [fromObject, Except.toOption, nameError]
  | error fault => rfl

/-- One step more makes of a query that some steps describe the one that all of them describe. -/
theorem apply_described (m : TableMap τ) (steps : List QueryStep) (e : Option Error)
    (s : QueryStep) : (Query.mk m (specOf m steps) e).apply s =
      ⟨m, specOf m (steps ++ [s]), e.or (misuse? m steps s)⟩ := by
  have hfine : e = e.or none := Option.or_none.symm
  cases s with
  | fromView name =>
    rw [specOf_concat_of_noCondition rfl rfl rfl]
    exact fromObject_eq ..
  | fromSchema schema name =>
    rw [specOf_concat_of_noCondition rfl rfl rfl]
    exact fromObject_eq ..
  | fromSql sql | take n =>
    rw [specOf_concat_of_noCondition rfl rfl rfl]
    exact congrArg _ hfine
  | onlyWhere c | and c | or c =>
    rw [specOf_concat rfl]
    exact congrArg _ hfine
  | orderBy field =>
    rw [specOf_concat_orders rfl, keysOf_concat_key]
    exact congrArg _ hfine
  | direction descending =>
    rw [specOf_concat_orders rfl, keysOf_concat_direction, misuse?]
    cases hopen : awaitsDirection steps with
    | true =>
      have hsettled : (specOf m steps).order.settle descending =
          .ok ⟨OrderBy.settleLast descending (keysOf steps), false⟩ := if_pos hopen
      rw [apply, direction, hsettled]
      exact congrArg _ hfine
    | false =>
      have hstray : (specOf m steps).order.settle descending = .error OrderBy.strayDirection :=
        if_neg (by simp [specOf, hopen])
      rw [apply, direction, hstray]
      simp [Query.fail, specOf, hopen, QueryStep.isKey]

/-- What the steps have made of a query: the select that they describe, and the first misuse. -/
theorem built_eq (m : TableMap τ) (steps : List QueryStep) :
    built m steps = ⟨m, specOf m steps, firstMisuse m steps⟩ := by
  induction steps using List.reverseRecOn with
  | nil => rfl
  | append_singleton steps s ih =>
    rw [built, List.foldl_append, ← built, ih, firstMisuse_concat]
    exact apply_described m steps _ s

/-! ## Running a query -/

/-- The ways in which a query is run. -/
inductive Ending where
  | toList
  | toExtendedList
  | firstOrDefault
  | count
  deriving DecidableEq

/-- What a query is answered with. -/
inductive Answer where
  | records (rs : List Record)
  | record (r : Option Record)
  | number (n : Int64)

namespace Ending

/-- What a query is read from. -/
def variant : Ending → Variant
  | toList => .short
  | toExtendedList => .full
  | firstOrDefault => .short
  | count => .count

/-- The first record is read with a cap of its own. -/
def capped : Ending → QuerySpec → QuerySpec
  | firstOrDefault, spec => { spec with take := 1 }
  | _, spec => spec

variable [Model τ] [DecidableEq τ]

def run (q : Query τ) : Ending → Session τ δ σ Answer
  | toList => return .records (← Session.toList q)
  | toExtendedList => return .records (← Session.toExtendedList q)
  | firstOrDefault => return .record (← Session.firstOrDefault q)
  | count => return .number (← Session.count q)

end Ending

section

open Session

variable [Model τ] [DecidableEq τ] (env : Env δ) (w : World τ δ) (x : σ)

/-- The number that a count is answered with. -/
def counted (s : Statement) : Session τ δ σ Int64 := do
  match ← scalar s with
  | none => return 0
  | some (.int n) => return n
  | some v => Session.fail (notACount v)

/-- What is done with the statement of a query. -/
def Ending.read (t : τ) (s : Statement) : Ending → Session τ δ σ Answer
  | toList => return .records (← fetch t s)
  | toExtendedList => do
    let rs ← fetch t s
    return .records (← rs.mapM (withRelations t))
  | firstOrDefault => return .record (← fetch t s).head?
  | count => return .number (← counted s)

/-- A query makes its statement first, and sends nothing if there is none. -/
theorem run_eq (q : Query τ) (ending : Ending) :
    (ending.run q : Session τ δ σ Answer) env w x =
      match (Query.mk q.map (ending.capped q.spec) q.failure).statement env.config.dialect
        ending.variant with
      | .error e => ⟨.error e, w, x⟩
      | .ok s => ending.read q.map.owner s env w x := by
  cases ending with
  | toList =>
    simp only [Ending.run, Session.toList, bind_assoc, config_bind, lift_bind, Ending.capped,
      Ending.variant, Ending.read]
    cases q.statement env.config.dialect .short <;> rfl
  | toExtendedList =>
    simp only [Ending.run, Session.toExtendedList, bind_assoc, config_bind, lift_bind,
      Ending.capped, Ending.variant, Ending.read]
    cases q.statement env.config.dialect .full <;> rfl
  | firstOrDefault =>
    simp only [Ending.run, Session.firstOrDefault, Session.toList, bind_assoc, config_bind,
      lift_bind, pure_bind, Ending.capped, Ending.variant, Ending.read, Query.take]
    cases Query.statement _ env.config.dialect .short <;> rfl
  | count =>
    simp only [Ending.run, Session.count, bind_assoc, config_bind, lift_bind, Ending.capped,
      Ending.variant, Ending.read, counted]
    cases q.statement env.config.dialect .count <;> rfl

variable {env w x} in
omit [Model τ] [DecidableEq τ] in
/-- Work that sends nothing adds nothing to what was sent before it. -/
theorem bind_requests {α β : Type} {s : Session τ δ σ α} {f : α → Session τ δ σ β}
    (h : ∀ a w x, (f a env w x).world.requests = w.requests) :
    ((s >>= f) env w x).world.requests = (s env w x).world.requests := by
  rw [bind_run]
  rcases s env w x with ⟨_ | a, w', x'⟩
  · rfl
  · exact h a w' x'

theorem fetch_requests (t : τ) (s : Statement) :
    ((fetch t s : Session τ δ σ _) env w x).world.requests = w.requests ++ [⟨.query, s⟩] := by
  have hquery : ((Session.query s : Session τ δ σ _) env w x).world.requests =
      w.requests ++ [⟨.query, s⟩] := by
    rw [query_run]
    rfl
  rw [fetch, bind_requests (fun rows w' x' => by rw [mapRows_run, World.toldAll_requests]; rfl)]
  exact hquery

omit [Model τ] [DecidableEq τ] in
theorem counted_requests (s : Statement) :
    ((counted s : Session τ δ σ _) env w x).world.requests = w.requests ++ [⟨.query, s⟩] := by
  have hscalar : ((scalar s : Session τ δ σ _) env w x).world.requests =
      w.requests ++ [⟨.query, s⟩] := by
    rw [scalar, bind_requests fun _ _ _ => rfl, query_run]
    rfl
  rw [counted, bind_requests fun found w' x' => ?_, hscalar]
  split <;> rfl

/-- The statement of a query is sent first; only an extended list sends more. -/
theorem read_requests (t : τ) (s : Statement) (ending : Ending) :
    ∃ more, ((ending.read t s : Session τ δ σ _) env w x).world.requests =
      w.requests ++ ⟨.query, s⟩ :: more ∧ (ending ≠ .toExtendedList → more = []) := by
  cases ending with
  | toList =>
    exact ⟨[], (bind_requests fun _ _ _ => rfl).trans (fetch_requests env w x t s), fun _ => rfl⟩
  | firstOrDefault =>
    exact ⟨[], (bind_requests fun _ _ _ => rfl).trans (fetch_requests env w x t s), fun _ => rfl⟩
  | count =>
    exact ⟨[], (bind_requests fun _ _ _ => rfl).trans (counted_requests env w x s), fun _ => rfl⟩
  | toExtendedList =>
    have hmore (r : Record) : Grows (withRelations t r : Session τ δ σ _) :=
      .bind (.onOther (.bind (.tableMap t) fun m => .loadRelationsOf m) r) fun _ => .pure _
    have hgrows (rs : List Record) : Grows (do
        return Answer.records (← rs.mapM (withRelations t)) : Session τ δ σ _) :=
      .bind (.mapM hmore rs) fun _ => .pure _
    have hfetch := fetch_requests env w x t s
    rw [Ending.read, bind_run]
    rcases hr : fetch t s env w x with ⟨_ | rs, w', x'⟩
    · rw [hr] at hfetch
      exact ⟨[], hfetch, fun _ => rfl⟩
    · rw [hr] at hfetch
      obtain ⟨more, h⟩ := (hgrows rs).requests env w' x'
      refine ⟨more, ?_, fun hne => absurd rfl hne⟩
      rw [← h, show w'.requests = _ from hfetch, List.append_assoc]
      rfl

end

/-- What becomes of a query that some steps put together.  If one of them is a misuse, the query
    fails with the first one, however it is run, and sends nothing.  If none is, its statement is
    the select that the steps describe, with a cap of one where only the first record is wanted;
    if that cannot be made nothing is sent, and otherwise it is sent first. -/
theorem built_ends [Model τ] [DecidableEq τ] (m : TableMap τ) (steps : List QueryStep) :
    match firstMisuse m steps with
    | some e =>
      (∀ d variant, (built m steps).statement d variant = .error e) ∧
      ∀ (ending : Ending) (env : Env δ) (w : World τ δ) (x : σ),
        ending.run (built m steps) env w x = ⟨.error e, w, x⟩
    | none =>
      (∀ d variant, (built m steps).statement d variant = m.select d (specOf m steps) variant) ∧
      ∀ (ending : Ending) (env : Env δ) (w : World τ δ) (x : σ),
        match m.select env.config.dialect (ending.capped (specOf m steps)) ending.variant with
        | .error e => ending.run (built m steps) env w x = ⟨.error e, w, x⟩
        | .ok s => ∃ more, (ending.run (built m steps) env w x).world.requests =
            w.requests ++ ⟨.query, s⟩ :: more ∧ (ending ≠ .toExtendedList → more = []) := by
  rw [built_eq]
  cases firstMisuse m steps with
  | some e => exact ⟨fun _ _ => rfl, fun ending env w x => run_eq env w x _ ending⟩
  | none =>
    refine ⟨fun _ _ => rfl, fun ending env w x => ?_⟩
    have hrun := run_eq env w x ⟨m, specOf m steps, none⟩ ending
    simp only [Query.statement] at hrun
    cases hs : m.select env.config.dialect (ending.capped (specOf m steps)) ending.variant with
    | error e =>
      rw [hs] at hrun
      exact hrun
    | ok s =>
      rw [hs] at hrun
      obtain ⟨more, hmore, hnone⟩ := read_requests env w x m.owner s ending
      exact ⟨more, (congrArg (fun r => r.world.requests) hrun).trans hmore, hnone⟩

/-- Steps some of which are undone by later ones. -/
def reconsidered : List QueryStep :=
  [.and (Condition.ofLeaf "Id" .isNull .nothing), .orderBy "Product", .direction true, .take 5,
    .onlyWhere (Condition.ofLeaf "Qty" .equal (.single (.int 1))), .orderBy "Qty", .orderBy "Id",
    .or (Condition.ofLeaf "OrderId" .isNull .nothing), .direction true, .take 2]

/-- Steps with two misuses. -/
def overturned : List QueryStep :=
  [.orderBy "Qty", .direction true, .direction false, .fromView "", .orderBy "Id"]

/-- What is asked for the first record of `reconsidered`. -/
def reconsideredSelect : Statement where
  kind := .select
  sql := "select * from \"sales\".\"OrderLines\" where \"Qty\" = $1 or \"OrderId\" is null" ++
    " order by \"Product\" desc, \"Qty\", \"Id\" desc limit 1"
  params := [.int 1]

/-- The first record of some steps, and the error of others. -/
theorem reconsidered_ends :
    (Ending.firstOrDefault.run (built Sample.lineMap reconsidered) Sample.scripted
      Sample.lineWorld ()).world.requests = [⟨.query, reconsideredSelect⟩] ∧
    Ending.count.run (built Sample.lineMap overturned) Sample.scripted Sample.lineWorld () =
      ⟨.error OrderBy.strayDirection, Sample.lineWorld, ()⟩ := by
  refine ⟨?_, (built_ends Sample.lineMap overturned).2 .count Sample.scripted _ ()⟩
  have hselect : Sample.lineMap.select .postgres
      (Ending.firstOrDefault.capped (specOf Sample.lineMap reconsidered)) .short =
        .ok reconsideredSelect := by
    decide +kernel
  have hends := (built_ends Sample.lineMap reconsidered).2 .firstOrDefault Sample.scripted
    Sample.lineWorld ()
  rw [show Sample.scripted.config.dialect = .postgres from rfl,
    show Ending.firstOrDefault.variant = .short from rfl, hselect] at hends
  obtain ⟨more, hsent, hnone⟩ := hends
  rw [hsent, hnone nofun]
  rfl

end Query

end RecordGraph
