/-
  Runs of sessions.

  A run is an equation `s env w x = ⟨.ok a, w', x'⟩`: on the world `w` and the focus
  `x` the session answers `a` and leaves `w'` and `x'`.  `bind_ok` takes a run apart;
  the primitive sessions are rewritten to what they leave (`World.sent`,
  `World.told`).
-/
import RecordGraph.Session.Saving

namespace RecordGraph

variable {τ δ σ ρ α β : Type}

/-! ## Worlds -/

namespace World

/-- The world after a statement was sent and the database has become `database`. -/
def sent (w : World τ δ) (config : Config) (via : Via) (s : Statement) (database : δ) :
    World τ δ :=
  { w with
    database := database
    requests := w.requests ++ [⟨via, s⟩]
    events := if config.traceSql then w.events ++ [.executing s] else w.events }

/-- The world after a statement was sent as a query. -/
def queried (w : World τ δ) (env : Env δ) (s : Statement) : World τ δ :=
  w.sent env.config .query s (env.executor.query s w.database).2

/-- The world after a statement was executed. -/
def executed (w : World τ δ) (env : Env δ) (s : Statement) : World τ δ :=
  w.sent env.config .execute s (env.executor.execute s w.database).2

/-- The world after a statement was described. -/
def described (w : World τ δ) (env : Env δ) (s : Statement) : World τ δ :=
  w.sent env.config .describe s (env.executor.describe s w.database).2

/-- The world after a diagnostic. -/
def told (w : World τ δ) (config : Config) (d : Diagnostic) : World τ δ :=
  match config.sink with
  | .collect => { w with diagnostics := w.diagnostics ++ [d] }
  | .discard => w
  | .trace => { w with events := w.events ++ [.diagnosed d] }

/-- The world after some diagnostics. -/
def toldAll (w : World τ δ) (config : Config) (ds : List Diagnostic) : World τ δ :=
  ds.foldl (fun w d => w.told config d) w

/-- The world after some lines in the log. -/
def logged (w : World τ δ) (es : List Event) : World τ δ := { w with events := w.events ++ es }

@[simp] theorem logged_nil (w : World τ δ) : w.logged [] = w := by simp [logged]

@[simp] theorem logged_logged (w : World τ δ) (es es' : List Event) :
    (w.logged es).logged es' = w.logged (es ++ es') := by simp [logged]

section
variable (w : World τ δ) (config : Config) (via : Via) (s : Statement) (database : δ)
  (d : Diagnostic) (es : List Event)

@[simp] theorem logged_database : (w.logged es).database = w.database := rfl

@[simp] theorem logged_requests : (w.logged es).requests = w.requests := rfl

@[simp] theorem logged_catalog : (w.logged es).catalog = w.catalog := rfl

@[simp] theorem sent_database : (w.sent config via s database).database = database := rfl

@[simp] theorem sent_requests :
    (w.sent config via s database).requests = w.requests ++ [⟨via, s⟩] := rfl

@[simp] theorem sent_catalog : (w.sent config via s database).catalog = w.catalog := rfl

@[simp] theorem queried_database (env : Env δ) :
    (w.queried env s).database = (env.executor.query s w.database).2 := rfl

@[simp] theorem queried_catalog (env : Env δ) : (w.queried env s).catalog = w.catalog := rfl

@[simp] theorem executed_database (env : Env δ) :
    (w.executed env s).database = (env.executor.execute s w.database).2 := rfl

@[simp] theorem executed_requests (env : Env δ) :
    (w.executed env s).requests = w.requests ++ [⟨.execute, s⟩] := rfl

@[simp] theorem executed_catalog (env : Env δ) : (w.executed env s).catalog = w.catalog := rfl

@[simp] theorem described_database (env : Env δ) :
    (w.described env s).database = (env.executor.describe s w.database).2 := rfl

@[simp] theorem described_catalog (env : Env δ) : (w.described env s).catalog = w.catalog := rfl

@[simp] theorem told_database : (w.told config d).database = w.database := by
  unfold told; split <;> rfl

@[simp] theorem told_requests : (w.told config d).requests = w.requests := by
  unfold told; split <;> rfl

@[simp] theorem told_catalog : (w.told config d).catalog = w.catalog := by
  unfold told; split <;> rfl

end

@[simp] theorem toldAll_database (w : World τ δ) (config : Config) (ds : List Diagnostic) :
    (w.toldAll config ds).database = w.database := by
  induction ds generalizing w with
  | nil => rfl
  | cons d ds ih => exact (ih _).trans (told_database w config d)

@[simp] theorem toldAll_requests (w : World τ δ) (config : Config) (ds : List Diagnostic) :
    (w.toldAll config ds).requests = w.requests := by
  induction ds generalizing w with
  | nil => rfl
  | cons d ds ih => exact (ih _).trans (told_requests w config d)

@[simp] theorem toldAll_catalog (w : World τ δ) (config : Config) (ds : List Diagnostic) :
    (w.toldAll config ds).catalog = w.catalog := by
  induction ds generalizing w with
  | nil => rfl
  | cons d ds ih => exact (ih _).trans (told_catalog w config d)

end World

namespace Session

variable {env : Env δ} {w w' : World τ δ} {x x' : σ} {a a' : α} {b : β}

/-! ## Sequences -/

theorem run_of_isOk {out : Ran τ δ σ Unit} (h : out.result.isOk = true) :
    out = ⟨.ok (), out.world, out.focus⟩ := by
  rcases out with ⟨_ | _, w, x⟩
  · cases h
  · rfl

instance : LawfulMonad (Session τ δ σ) := .mk' (Session τ δ σ)
  (by
    intro α s
    funext env w x
    change andThen s (fun a => answer (id a)) env w x = _
    unfold andThen answer
    rcases s env w x with ⟨_ | a, w', x'⟩ <;> rfl)
  (fun _ _ => rfl)
  (by
    intro α β γ s f g
    funext env w x
    change andThen (andThen s f) g env w x = andThen s (fun a => andThen (f a) g) env w x
    unfold andThen
    rcases s env w x with ⟨_ | a, w', x'⟩ <;> rfl)

theorem bind_ok {s : Session τ δ σ α} {f : α → Session τ δ σ β} :
    (s >>= f) env w x = ⟨.ok b, w', x'⟩ ↔
      ∃ a w₁ x₁, s env w x = ⟨.ok a, w₁, x₁⟩ ∧ f a env w₁ x₁ = ⟨.ok b, w', x'⟩ := by
  change andThen s f env w x = _ ↔ _
  unfold andThen
  rcases s env w x with ⟨e | a, w₁, x₁⟩
  · simp
  · constructor
    · intro h; exact ⟨a, w₁, x₁, rfl, h⟩
    · rintro ⟨_, _, _, h, h'⟩; cases h; exact h'

theorem bind_run (s : Session τ δ σ α) (f : α → Session τ δ σ β) : (s >>= f) env w x =
    match s env w x with
    | ⟨.ok a, w₁, x₁⟩ => f a env w₁ x₁
    | ⟨.error e, w₁, x₁⟩ => ⟨.error e, w₁, x₁⟩ := rfl

theorem lift_bind (r : Result α) (f : α → Session τ δ σ β) :
    ((liftM r : Session τ δ σ α) >>= f) env w x =
      match r with
      | .error e => ⟨.error e, w, x⟩
      | .ok a => f a env w x := by
  cases r <;> rfl

theorem pure_ok : (pure a : Session τ δ σ α) env w x = ⟨.ok a', w', x'⟩ ↔
    a = a' ∧ w = w' ∧ x = x' := by
  change (⟨.ok a, w, x⟩ : Ran τ δ σ α) = _ ↔ _
  simp

theorem fail_ok {e : Error} : ¬ (fail e : Session τ δ σ α) env w x = ⟨.ok a, w', x'⟩ := by
  simp [fail, ofResult]

theorem lift_ok {r : Result α} : (liftM r : Session τ δ σ α) env w x = ⟨.ok a, w', x'⟩ ↔
    r = .ok a ∧ w = w' ∧ x = x' := by
  change (⟨r, w, x⟩ : Ran τ δ σ α) = _ ↔ _
  simp

/-! ## Reading and changing -/

section
variable (f : σ → Session τ δ σ β) (g : Config → Session τ δ σ β)
  (c : Catalog τ → Session τ δ σ β) (u : Unit → Session τ δ σ β)

@[simp] theorem focus_bind : (focus >>= f) env w x = f x env w x := rfl

@[simp] theorem config_bind : (config >>= g) env w x = g env.config env w x := rfl

@[simp] theorem catalog_bind : (catalog >>= c) env w x = c w.catalog env w x := rfl

@[simp] theorem setFocus_bind (y : σ) : (setFocus y >>= u) env w x = u () env w y := rfl

@[simp] theorem setCatalog_bind (k : Catalog τ) :
    (setCatalog k >>= u) env w x = u () env { w with catalog := k } x := rfl

end

@[simp] theorem setFocus_run (y : σ) :
    (setFocus y : Session τ δ σ Unit) env w x = ⟨.ok (), w, y⟩ := rfl

@[simp] theorem setCatalog_run (k : Catalog τ) :
    (setCatalog k : Session τ δ σ Unit) env w x = ⟨.ok (), { w with catalog := k }, x⟩ := rfl

theorem emit_run (e : Event) :
    (emit e : Session τ δ σ Unit) env w x = ⟨.ok (), w.logged [e], x⟩ := rfl

theorem diagnose_run (d : Diagnostic) :
    (diagnose d : Session τ δ σ Unit) env w x = ⟨.ok (), w.told env.config d, x⟩ := by
  simp only [diagnose, config_bind, World.told]
  cases env.config.sink <;> rfl

theorem diagnoseAll_run (ds : List Diagnostic) :
    (ds.forM diagnose : Session τ δ σ Unit) env w x = ⟨.ok (), w.toldAll env.config ds, x⟩ := by
  induction ds generalizing w with
  | nil => rfl
  | cons d ds ih =>
    change (diagnose d >>= fun _ => ds.forM diagnose) env w x = _
    exact bind_ok.2 ⟨(), _, _, diagnose_run d, ih⟩

/-! ## Statements -/

theorem send_traced {via : Via} {answered : Executor δ → Statement → δ → Result α × δ}
    (s : Statement) :
    (do trace s; send via answered s : Session τ δ σ α) env w x =
      ⟨(answered env.executor s w.database).1,
        w.sent env.config via s (answered env.executor s w.database).2, x⟩ := by
  have ht : (trace s : Session τ δ σ Unit) env w x =
      ⟨.ok (), if env.config.traceSql then { w with events := w.events ++ [.executing s] } else w,
        x⟩ := by
    simp only [trace, config_bind]
    cases env.config.traceSql <;> rfl
  change andThen (trace s) _ env w x = _
  simp only [andThen, ht, send, World.sent]
  cases env.config.traceSql <;> rfl

theorem query_run (s : Statement) : (query s : Session τ δ σ (List Row)) env w x =
    ⟨(env.executor.query s w.database).1, w.queried env s, x⟩ := send_traced s

theorem execute_run (s : Statement) : (execute s : Session τ δ σ Nat) env w x =
    ⟨(env.executor.execute s w.database).1, w.executed env s, x⟩ := send_traced s

theorem describe_run (s : Statement) : (describe s : Session τ δ σ (List String)) env w x =
    ⟨(env.executor.describe s w.database).1, w.described env s, x⟩ := send_traced s

theorem query_ok {s : Statement} {rows : List Row} :
    (query s : Session τ δ σ _) env w x = ⟨.ok rows, w', x'⟩ ↔
      (env.executor.query s w.database).1 = .ok rows ∧
      w.queried env s = w' ∧ x = x' := by
  rw [query_run, Ran.mk.injEq]

theorem execute_ok {s : Statement} {n : Nat} :
    (execute s : Session τ δ σ _) env w x = ⟨.ok n, w', x'⟩ ↔
      (env.executor.execute s w.database).1 = .ok n ∧
      w.executed env s = w' ∧ x = x' := by
  rw [execute_run, Ran.mk.injEq]

theorem describe_ok {s : Statement} {columns : List String} :
    (describe s : Session τ δ σ _) env w x = ⟨.ok columns, w', x'⟩ ↔
      (env.executor.describe s w.database).1 = .ok columns ∧
      w.described env s = w' ∧ x = x' := by
  rw [describe_run, Ran.mk.injEq]

/-! ## Loops -/

theorem forM_nil_ok {ι : Type} {f : ι → Session τ δ σ Unit} :
    ([] : List ι).forM f env w x = ⟨.ok (), w', x'⟩ ↔ w = w' ∧ x = x' := by
  change (⟨.ok (), w, x⟩ : Ran τ δ σ Unit) = _ ↔ _
  simp

theorem forM_cons_ok {ι : Type} {i : ι} {is : List ι} {f : ι → Session τ δ σ Unit} :
    (i :: is).forM f env w x = ⟨.ok (), w', x'⟩ ↔
      ∃ w₁ x₁, f i env w x = ⟨.ok (), w₁, x₁⟩ ∧ is.forM f env w₁ x₁ = ⟨.ok (), w', x'⟩ := by
  change (f i >>= fun _ => is.forM f) env w x = _ ↔ _
  rw [bind_ok]
  exact ⟨fun ⟨_, w₁, x₁, h⟩ => ⟨w₁, x₁, h⟩, fun ⟨w₁, x₁, h⟩ => ⟨(), w₁, x₁, h⟩⟩

theorem forM_cons_run {ι : Type} (i : ι) (is : List ι) (f : ι → Session τ δ σ Unit) :
    (i :: is).forM f env w x =
      match f i env w x with
      | ⟨.ok _, w₁, x₁⟩ => is.forM f env w₁ x₁
      | ⟨.error e, w₁, x₁⟩ => ⟨.error e, w₁, x₁⟩ := by
  change (f i >>= fun _ => is.forM f) env w x = _
  rw [bind_run]
  rcases f i env w x with ⟨_ | _, w₁, x₁⟩ <;> rfl

/-! ## Other focuses -/

theorem onOther_ok {other other' : ρ} {s : Session τ δ ρ α} :
    (onOther other s : Session τ δ σ (α × ρ)) env w x = ⟨.ok (a, other'), w', x'⟩ ↔
      s env w other = ⟨.ok a, w', other'⟩ ∧ x = x' := by
  unfold onOther
  rcases s env w other with ⟨_ | a, w₁, y⟩ <;> simp [Except.map, and_assoc, and_left_comm]

end Session

end RecordGraph
