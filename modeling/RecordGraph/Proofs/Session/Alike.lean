/-
  Worlds that sessions do not tell apart.

  * `Executor.ByWrites`: an answer depends on the statement and on what the executor has seen
    of the writes before, and reads show it nothing.
  * `World.Alike`: the executor has seen the same writes in both worlds, and what their
    catalogs have in common is enough.  A session does the same in one world as in the
    other (`Grows.alike`).
  * `Ran.Alike`: two runs end in alike worlds, with answers and focuses that are related.
    It goes through the steps of both (`Alike.bind`).
  * A session that sends only reads leaves a world that is alike (`Follows.quiet`).
-/
import Mathlib.Data.List.Infix
import RecordGraph.Proofs.Session.SaveOrder

namespace RecordGraph

variable {τ δ σ σ' α α' β β' ι ω : Type}

/-! ## Writes -/

/-- The request asks to insert, update or delete rows. -/
def Request.writes (q : Request) : Bool := q.statement.kind.changes

/-- The requests to insert, update or delete rows, in their order. -/
def World.writes (w : World τ δ) : List Request := w.requests.filter Request.writes

/-- An answer depends on the statement and on what was seen of the writes before it; what is
    only read does not change that. -/
structure Executor.ByWrites (e : Executor δ) (seen : δ → ω) : Prop where
  answers : ∀ q database database', seen database = seen database' →
    (e.response q database).1 = (e.response q database').1 ∧
      seen (e.response q database).2 = seen (e.response q database').2
  reads : ∀ q database, q.writes = false → seen (e.response q database).2 = seen database

/-- Reads show the executor nothing. -/
theorem Answered.seen {e : Executor δ} {seen : δ → ω} (he : e.ByWrites seen)
    {database database' : δ} {xs : List Exchange} (h : Answered e database xs database')
    (hreads : ∀ x ∈ xs, x.statement.kind.changes = false) : seen database' = seen database := by
  induction h with
  | nil => rfl
  | @cons database database' x xs _ _ ih =>
    have hx : x.request.writes = false := hreads x (by simp)
    exact (ih fun y hy => hreads y (by simp [hy])).trans (he.reads _ _ hx)

/-! ## Alike worlds -/

variable [Model τ] [DecidableEq τ]

/-- The executor has seen the same writes in both worlds, which are later than a third. -/
structure World.Alike (config : Config) (seen : δ → ω) (w₀ w w' : World τ δ) : Prop where
  later : w₀.Later config w
  later' : w₀.Later config w'
  seen : seen w.database = seen w'.database
  writes : w.writes = w'.writes

/-- Both results are the same failure, or both are answers, which are related. -/
inductive Result.Both (A : α → α' → Prop) : Result α → Result α' → Prop
  | error (e : Error) : Both A (.error e) (.error e)
  | ok {a : α} {a' : α'} : A a a' → Both A (.ok a) (.ok a')

theorem Result.Both.imp {A B : α → α' → Prop} {r : Result α} {r' : Result α'}
    (h : Result.Both A r r') (hab : ∀ a a', A a a' → B a a') : Result.Both B r r' := by
  cases h with
  | error e => exact .error e
  | ok ha => exact .ok (hab _ _ ha)

theorem Result.both_eq {r r' : Result α} : Result.Both Eq r r' ↔ r = r' := by
  constructor
  · rintro (e | rfl) <;> rfl
  · rintro rfl
    cases r with
    | error e => exact .error e
    | ok a => exact .ok rfl

/-- The runs end in alike worlds, and what they answer and leave in focus is related. -/
structure Ran.Alike (config : Config) (seen : δ → ω) (w₀ : World τ δ) (A : α → α' → Prop)
    (S : σ → σ' → Prop) (out : Ran τ δ σ α) (out' : Ran τ δ σ' α') : Prop where
  result : Result.Both A out.result out'.result
  focus : S out.focus out'.focus
  world : World.Alike config seen w₀ out.world out'.world

namespace World

variable {config : Config} {seen : δ → ω} {w₀ w w' v v' : World τ δ}

theorem Alike.refl (w : World τ δ) : Alike config seen w w w := ⟨.refl, .refl, rfl, rfl⟩

/-- Nothing that the executor has seen changes. -/
theorem Alike.silent (h : Alike config seen w₀ w w') (hl : w.Later config v)
    (hl' : w'.Later config v') (hd : v.database = w.database) (hd' : v'.database = w'.database)
    (hr : v.requests = w.requests) (hr' : v'.requests = w'.requests) :
    Alike config seen w₀ v v' := by
  refine ⟨h.later.trans hl, h.later'.trans hl', ?_, ?_⟩
  · rw [hd, hd', h.seen]
  · unfold World.writes
    rw [hr, hr']
    exact h.writes

theorem Alike.toldAll (h : Alike config seen w₀ w w') (ds ds' : List Diagnostic) :
    Alike config seen w₀ (w.toldAll config ds) (w'.toldAll config ds') :=
  h.silent (.of_catalog (toldAll_catalog ..)) (.of_catalog (toldAll_catalog ..))
    (toldAll_database ..) (toldAll_database ..) (toldAll_requests ..) (toldAll_requests ..)

theorem Alike.sent (h : Alike config seen w₀ w w') (via : Via) (s : Statement)
    {database database' : δ} (hd : seen database = seen database') :
    Alike config seen w₀ (w.sent config via s database) (w'.sent config via s database') := by
  refine ⟨h.later.trans (.of_catalog rfl), h.later'.trans (.of_catalog rfl), hd, ?_⟩
  unfold World.writes
  rw [sent_requests, sent_requests, List.filter_append, List.filter_append]
  exact congrArg (· ++ _) h.writes

/-- The second world may be that of a session that only reads. -/
theorem Alike.quiet (h : Alike config seen w₀ w w') (hl : w'.Later config v')
    (hq : v'.writes = w'.writes ∧ seen v'.database = seen w'.database) :
    Alike config seen w₀ w v' :=
  ⟨h.later, h.later'.trans hl, h.seen.trans hq.2.symm, h.writes.trans hq.1.symm⟩

end World

/-! ## Alike runs -/

namespace Session

variable {env : Env δ} {seen : δ → ω} {w₀ w w' : World τ δ} {x : σ} {x' : σ'}
  {s : Session τ δ σ α} {s' : Session τ δ σ' α'} {f : α → Session τ δ σ β}
  {f' : α' → Session τ δ σ' β'} {A : α → α' → Prop} {B : β → β' → Prop} {S : σ → σ' → Prop}

/-- After alike runs, alike runs. -/
theorem Alike.bind
    (h : Ran.Alike env.config seen w₀ A S (s env w x) (s' env w' x'))
    (hnext : ∀ a a' v v' y y', s env w x = ⟨.ok a, v, y⟩ → s' env w' x' = ⟨.ok a', v', y'⟩ →
      A a a' → S y y' → World.Alike env.config seen w₀ v v' →
      Ran.Alike env.config seen w₀ B S (f a env v y) (f' a' env v' y')) :
    Ran.Alike env.config seen w₀ B S ((s >>= f) env w x) ((s' >>= f') env w' x') := by
  rw [bind_run, bind_run]
  rcases hr : s env w x with ⟨a, v, y⟩
  rcases hr' : s' env w' x' with ⟨a', v', y'⟩
  rw [hr, hr'] at h
  obtain ⟨hresult, hfocus, hworld⟩ := h
  cases hresult with
  | error e => exact ⟨.error e, hfocus, hworld⟩
  | ok ha => exact hnext _ _ v v' y y' hr hr' ha hfocus hworld

/-- The second run may do something of its own before. -/
theorem Alike.after {a' : α'} {v' : World τ δ} {y' : σ'} {out : Ran τ δ σ β}
    (h : s' env w' x' = ⟨.ok a', v', y'⟩)
    (hnext : Ran.Alike env.config seen w₀ B S out (f' a' env v' y')) :
    Ran.Alike env.config seen w₀ B S out ((s' >>= f') env w' x') := by
  rw [bind_run, h]
  exact hnext

theorem Alike.onOther {ρ ρ' : Type} {t : Session τ δ ρ α} {t' : Session τ δ ρ' α'} {z : ρ} {z' : ρ'}
    {R : ρ → ρ' → Prop} (h : Ran.Alike env.config seen w₀ A R (t env w z) (t' env w' z'))
    (hx : S x x') :
    Ran.Alike env.config seen w₀ (fun b b' => A b.1 b'.1 ∧ R b.2 b'.2) S
      (Session.onOther z t env w x) (Session.onOther z' t' env w' x') := by
  unfold Session.onOther
  rcases hr : t env w z with ⟨a, v, y⟩
  rcases hr' : t' env w' z' with ⟨a', v', y'⟩
  rw [hr, hr'] at h
  obtain ⟨hresult, hfocus, hworld⟩ := h
  cases hresult with
  | error e => exact ⟨.error e, hx, hworld⟩
  | ok ha => exact ⟨.ok ⟨ha, hfocus⟩, hx, hworld⟩

/-- Whether the map of a type is there or made, it is the same one. -/
theorem Alike.tableMap (hw : World.Alike env.config seen w₀ w w') (t : τ) (x : σ) :
    Ran.Alike env.config seen w₀ Eq Eq (Session.tableMap t env w x)
      (Session.tableMap t env w' x) := by
  have hmap : w.catalog.mapOf env.config t = w'.catalog.mapOf env.config t :=
    (hw.later.mapOf t).trans (hw.later'.mapOf t).symm
  have hl := (Grows.tableMap t).world env w x
  have hl' := (Grows.tableMap t).world env w' x
  rw [tableMap_run] at hl hl'
  rw [tableMap_run, tableMap_run]
  unfold Catalog.mapOf at hmap
  rcases hm : w.catalog.tableMap env.config t with e | ⟨m, c⟩
  · rcases hm' : w'.catalog.tableMap env.config t with e' | ⟨m', c'⟩
    · rw [hm, hm'] at hmap
      cases hmap
      exact ⟨.error e, rfl, hw⟩
    · rw [hm, hm'] at hmap
      cases hmap
  · rcases hm' : w'.catalog.tableMap env.config t with e' | ⟨m', c'⟩
    · rw [hm, hm'] at hmap
      cases hmap
    · rw [hm, hm'] at hmap
      rw [hm] at hl
      rw [hm'] at hl'
      exact ⟨.ok (Except.ok.inj hmap), rfl, hw.silent hl hl' rfl rfl rfl rfl⟩

/-- The mappers of alike worlds are of the same types and as strict as each other. -/
theorem Alike.mapper (hw₀ : w₀.catalog.Sound env.config)
    (hw : World.Alike env.config seen w₀ w w') (t : τ) :
    (w.catalog.mapper env.config t).Of env.config t ∧
      (w'.catalog.mapper env.config t).Of env.config t ∧
      (w.catalog.mapper env.config t).strict = (w'.catalog.mapper env.config t).strict :=
  ⟨(hw.later.sound hw₀).mapper t, (hw.later'.sound hw₀).mapper t,
    (hw.later.strict t).trans (hw.later'.strict t).symm⟩

theorem Alike.mapInto (hw₀ : w₀.catalog.Sound env.config)
    (hw : World.Alike env.config seen w₀ w w') (t : τ) (row : Row) (r : Record) :
    Ran.Alike env.config seen w₀ Eq Eq (Session.mapInto t row env w r)
      (Session.mapInto t row env w' r) := by
  obtain ⟨hmapper, hmapper', hstrict⟩ := Alike.mapper hw₀ hw t
  obtain ⟨hrecord, hfailure⟩ := hmapper.mapInto_congr hmapper' hstrict r row
  have hl := (Grows.mapInto t row).world env w r
  have hl' := (Grows.mapInto t row).world env w' r
  rw [mapInto_run] at hl hl'
  rw [mapInto_run, mapInto_run]
  refine ⟨Result.both_eq.2 ?_, hrecord, hw.silent hl hl' (World.toldAll_database ..)
    (World.toldAll_database ..) (World.toldAll_requests ..) (World.toldAll_requests ..)⟩
  simp only [hfailure]

theorem Alike.mapRows (hw₀ : w₀.catalog.Sound env.config)
    (hw : World.Alike env.config seen w₀ w w') (t : τ) (rows : List Row) (x : σ) :
    Ran.Alike env.config seen w₀ Eq Eq (Session.mapRows t rows env w x)
      (Session.mapRows t rows env w' x) := by
  obtain ⟨hmapper, hmapper', hstrict⟩ := Alike.mapper hw₀ hw t
  have hl := (Grows.mapRows t rows).world env w x
  have hl' := (Grows.mapRows t rows).world env w' x
  rw [mapRows_run] at hl hl'
  rw [mapRows_run, mapRows_run]
  exact ⟨Result.both_eq.2 (hmapper.mapAll_congr hmapper' hstrict rows), rfl,
    hw.silent hl hl' (World.toldAll_database ..) (World.toldAll_database ..)
      (World.toldAll_requests ..) (World.toldAll_requests ..)⟩

/-- A session comes to the same in alike worlds. -/
theorem Grows.alike (hs : Grows s) (he : env.executor.ByWrites seen)
    (hw₀ : w₀.catalog.Sound env.config) (hw : World.Alike env.config seen w₀ w w') (x : σ) :
    Ran.Alike env.config seen w₀ Eq Eq (s env w x) (s env w' x) := by
  induction hs generalizing w w' with
  | pure => exact ⟨.ok rfl, rfl, hw⟩
  | bind _ _ ih ih' =>
    refine Alike.bind (ih hw x) ?_
    rintro a _ v v' y _ - - rfl rfl hv
    exact ih' a hv y
  | lift r => exact ⟨Result.both_eq.2 rfl, rfl, hw⟩
  | focus => exact ⟨.ok rfl, rfl, hw⟩
  | setFocus => exact ⟨.ok rfl, rfl, hw⟩
  | config => exact ⟨.ok rfl, rfl, hw⟩
  | emit => exact ⟨.ok rfl, rfl, hw.silent (.of_catalog rfl) (.of_catalog rfl) rfl rfl rfl rfl⟩
  | diagnose d =>
    rw [diagnose_run, diagnose_run]
    exact ⟨.ok rfl, rfl, hw.toldAll [d] [d]⟩
  | query s =>
    obtain ⟨hanswer, hseen⟩ := he.answers ⟨.query, s⟩ _ _ hw.seen
    rw [query_run, query_run]
    exact ⟨Result.both_eq.2 (Response.rows.inj hanswer), rfl, hw.sent .query s hseen⟩
  | execute s =>
    obtain ⟨hanswer, hseen⟩ := he.answers ⟨.execute, s⟩ _ _ hw.seen
    rw [execute_run, execute_run]
    exact ⟨Result.both_eq.2 (Response.changed.inj hanswer), rfl, hw.sent .execute s hseen⟩
  | describe s =>
    obtain ⟨hanswer, hseen⟩ := he.answers ⟨.describe, s⟩ _ _ hw.seen
    rw [describe_run, describe_run]
    exact ⟨Result.both_eq.2 (Response.columns.inj hanswer), rfl, hw.sent .describe s hseen⟩
  | onOther _ other ih =>
    obtain ⟨hresult, hfocus, hworld⟩ := Alike.onOther (ih hw other) (S := Eq) rfl
    exact ⟨hresult.imp fun _ _ h => Prod.ext h.1 h.2, hfocus, hworld⟩
  | onChild _ slot i ih =>
    unfold Session.onChild
    cases x.child? slot i with
    | none => exact ⟨.ok rfl, rfl, hw⟩
    | some c =>
      have hrun := ih hw c
      exact ⟨hrun.result, congrArg (x.setChild slot i) hrun.focus, hrun.world⟩
  | tableMap t => exact Alike.tableMap hw t x
  | mapInto t row => exact Alike.mapInto hw₀ hw t row x
  | mapRows t rows => exact Alike.mapRows hw₀ hw t rows x

theorem steady_requests (env : Env δ) :
    Steady env fun w w' : World τ δ => w.requests <+: w'.requests where
  refl _ := List.prefix_rfl
  trans _ _ _ := List.IsPrefix.trans
  logged _ _ := List.prefix_rfl
  told _ _ := by rw [World.told_requests]
  sent _ _ _ _ := List.prefix_append _ _
  mapped _ _ _ _ _ := List.prefix_rfl
  learnt _ _ _ _ _ _ := by rw [World.toldAll_requests]; exact List.prefix_rfl

/-- What was sent stays sent. -/
theorem Grows.requests (hs : Grows s) (env : Env δ) (w : World τ δ) (x : σ) :
    w.requests <+: (s env w x).world.requests := hs.steady (steady_requests env) w x

theorem Grows.writes (hs : Grows s) (env : Env δ) (w : World τ δ) (x : σ) :
    w.writes <+: (s env w x).world.writes := (hs.requests env w x).filter _

/-- A session that sends only reads changes nothing that the executor has seen. -/
theorem Follows.quiet {ρ : Type} {maps : τ → Result (TableMap τ)} {P : Steps ρ} {f : α → σ → ρ}
    (h : Follows env maps P f s w x) (hP : Steps.AtMost StatementKind.changes 0 P)
    (hk : w.Knows env.config maps) (he : env.executor.ByWrites seen) :
    (s env w x).world.writes = w.writes ∧
      seen (s env w x).world.database = seen w.database := by
  obtain ⟨-, xs, hreq, hans, -, hxs⟩ := h hk
  have hreads := hP.forall hxs
  refine ⟨?_, hans.seen he hreads⟩
  unfold World.writes
  have hnone : (xs.map Exchange.request).filter Request.writes = [] := by
    refine List.filter_eq_nil_iff.2 fun q hq => ?_
    obtain ⟨x, hx, rfl⟩ := List.mem_map.1 hq
    simpa [Request.writes, Exchange.request] using hreads x hx
  rw [hreq, List.filter_append, hnone, List.append_nil]

/-! ## Sessions without a focus -/

/-- The session neither looks at its focus nor changes it. -/
def Blind (s : Session τ δ σ α) : Prop := ∀ (env : Env δ) (w : World τ δ) (x y : σ),
  s env w y = ⟨(s env w x).result, (s env w x).world, y⟩

section

omit [Model τ] [DecidableEq τ]

theorem Blind.pure (a : α) : Blind (pure a : Session τ δ σ α) := fun _ _ _ _ => rfl

theorem Blind.lift (r : Result α) : Blind (liftM r : Session τ δ σ α) := fun _ _ _ _ => rfl

theorem Blind.config : Blind (config : Session τ δ σ Config) := fun _ _ _ _ => rfl

theorem Blind.emit (e : Event) : Blind (emit e : Session τ δ σ Unit) := fun _ _ _ _ => rfl

theorem Blind.query (s : Statement) : Blind (query s : Session τ δ σ _) := by
  intro env w x y
  rw [query_run, query_run]

theorem Blind.bind {s : Session τ δ σ α} {f : α → Session τ δ σ β} (hs : Blind s)
    (hf : ∀ a, Blind (f a)) : Blind (s >>= f) := by
  intro env w x y
  have hx := hs env w x x
  have hy := hs env w x y
  rw [bind_run, bind_run]
  rcases hr : s env w x with ⟨e | a, w₁, x₁⟩
  · rw [hr] at hy
    rw [hy]
  · rw [hr] at hx hy
    obtain rfl : x₁ = x := congrArg Ran.focus hx
    rw [hy]
    exact hf a env w₁ x₁ y

theorem Blind.mapM {f : ι → Session τ δ σ α} (hf : ∀ i, Blind (f i)) (is : List ι) :
    Blind (is.mapM f) := by
  induction is with
  | nil => exact .pure []
  | cons i is ih =>
    rw [List.mapM_cons]
    exact .bind (hf i) fun a => .bind ih fun as => .pure (a :: as)

end

theorem Blind.tableMap (t : τ) : Blind (tableMap t : Session τ δ σ _) := by
  intro env w x y
  rw [tableMap_run, tableMap_run]
  rcases w.catalog.tableMap env.config t with e | ⟨m, c⟩ <;> rfl

theorem Blind.mapRows (t : τ) (rows : List Row) : Blind (mapRows t rows : Session τ δ σ _) := by
  intro env w x y
  rw [mapRows_run, mapRows_run]

omit [Model τ] [DecidableEq τ] in
theorem Blind.still {s : Session τ δ σ α} (hs : Blind s) : Still s :=
  fun env w x => congrArg Ran.focus (hs env w x x)

/-- Such a session comes to the same in alike worlds, whatever the focuses are. -/
theorem Blind.alike {s : Session τ δ σ α} (hb : Blind s) (hs : Grows s)
    (he : env.executor.ByWrites seen) (hw₀ : w₀.catalog.Sound env.config)
    (hw : World.Alike env.config seen w₀ w w') {x x' : σ} {S : σ → σ → Prop} (hS : S x x') :
    Ran.Alike env.config seen w₀ Eq S (s env w x) (s env w' x') := by
  have hrun := hs.alike he hw₀ hw x
  rw [hb env w x x, hb env w' x x']
  exact ⟨hrun.result, hS, hrun.world⟩

end Session

end RecordGraph
