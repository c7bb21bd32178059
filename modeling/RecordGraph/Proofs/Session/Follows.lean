/-
  Runs that follow steps.

  `Follows` says of a run that it sends what some steps allow, that it comes to what they come
  to, and that a statement that fails is its last one.  It goes through sequences
  (`Follows.bind`) and loops (`Follows.forM`), so a session follows its steps if each of its
  parts does.
-/
import RecordGraph.Proofs.Session.Loading
import RecordGraph.Proofs.Session.Steps

namespace RecordGraph

variable {τ δ σ α β ι κ ρ : Type}

/-! ## Runs -/

/-- What a run comes to, seen by answer and focus. -/
def Ran.view (f : α → σ → ρ) (out : Ran τ δ σ α) : Option ρ :=
  match out.result with
  | .ok a => some (f a out.focus)
  | .error _ => none

variable [Model τ] [DecidableEq τ]

/-- The catalog is sound, and these are the maps of all types. -/
structure World.Knows (config : Config) (maps : τ → Result (TableMap τ)) (w : World τ δ) :
    Prop where
  sound : w.catalog.Sound config
  maps : ∀ t, w.catalog.mapOf config t = maps t

theorem World.Knows.of_catalog {config : Config} {maps : τ → Result (TableMap τ)}
    {w w' : World τ δ} (h : w.Knows config maps) (hc : w'.catalog = w.catalog) :
    w'.Knows config maps := ⟨hc ▸ h.sound, hc ▸ h.maps⟩

theorem World.Knows.learnt {config : Config} {maps : τ → Result (TableMap τ)} {w : World τ δ}
    (hw : w.Knows config maps) {t : τ} {m : RowMapper τ} (hm : m.Of config t)
    (ds : List Diagnostic) : ((w.learnt t m).toldAll config ds).Knows config maps := by
  refine World.Knows.of_catalog ⟨hw.sound.keepMapper hm, fun u => ?_⟩ (World.toldAll_catalog ..)
  rw [← hw.maps u, Catalog.mapOf_eq, Catalog.mapOf_eq]
  rfl

namespace Session

/-! ## Sessions that leave the focus as it is -/

/-- The session leaves the focus as it is. -/
def Still (s : Session τ δ σ α) : Prop := ∀ env w x, (s env w x).focus = x

section

omit [Model τ] [DecidableEq τ]

theorem Still.pure (a : α) : Still (Pure.pure a : Session τ δ σ α) := fun _ _ _ => rfl

theorem Still.lift (r : Result α) : Still (liftM r : Session τ δ σ α) := fun _ _ _ => rfl

theorem Still.config : Still (Session.config : Session τ δ σ _) := fun _ _ _ => rfl

theorem Still.bind {s : Session τ δ σ α} {next : α → Session τ δ σ β} (hs : Still s)
    (hnext : ∀ a, Still (next a)) : Still (s >>= next) := by
  intro env w x
  have hx := hs env w x
  rw [bind_run]
  rcases hr : s env w x with ⟨e | a, w', x'⟩
  · rwa [hr] at hx
  · rw [hr] at hx
    exact (hnext a env w' x').trans hx

theorem Still.forM {f : ι → Session τ δ σ Unit} (hf : ∀ i, Still (f i)) (is : List ι) :
    Still (is.forM f) := by
  induction is with
  | nil => exact .pure ()
  | cons i is ih => exact .bind (hf i) fun _ => ih

theorem Still.query (s : Statement) : Still (Session.query s : Session τ δ σ _) :=
  fun env w x => by rw [query_run]

theorem Still.execute (s : Statement) : Still (Session.execute s : Session τ δ σ _) :=
  fun env w x => by rw [execute_run]

theorem Still.describe (s : Statement) : Still (Session.describe s : Session τ δ σ _) :=
  fun env w x => by rw [describe_run]

end

theorem Still.tableMap (t : τ) : Still (Session.tableMap t : Session τ δ σ _) := by
  intro env w x
  rw [tableMap_run]
  split <;> rfl

theorem Still.mapRows (t : τ) (rows : List Row) :
    Still (Session.mapRows t rows : Session τ δ σ _) :=
  fun env w x => by rw [mapRows_run]

/-! ## Following steps -/

variable {env : Env δ} {maps : τ → Result (TableMap τ)} {w w' : World τ δ} {x x' : σ}
  {P : Steps ρ} {Q : ρ → Steps κ} {Q' : Steps κ} {f : α → σ → ρ} {g : β → σ → κ}
  {s : Session τ δ σ α}

/-- The run sends what the steps allow, and comes to what they come to. -/
def Follows (env : Env δ) (maps : τ → Result (TableMap τ)) (P : Steps ρ) (f : α → σ → ρ)
    (s : Session τ δ σ α) (w : World τ δ) (x : σ) : Prop :=
  w.Knows env.config maps → (s env w x).world.Knows env.config maps ∧
    ∃ xs, (s env w x).world.requests = w.requests ++ xs.map Exchange.request ∧
      Answered env.executor w.database xs (s env w x).world.database ∧
      FailsLast xs (s env w x).result.isOk ∧ P xs ((s env w x).view f)

/-- The run sends nothing. -/
theorem Follows.silent (hreq : (s env w x).world.requests = w.requests)
    (hdb : (s env w x).world.database = w.database)
    (hk : w.Knows env.config maps → (s env w x).world.Knows env.config maps)
    (hP : w.Knows env.config maps → P [] ((s env w x).view f)) :
    Follows env maps P f s w x := by
  refine fun hw => ⟨hk hw, [], by simp [hreq], ?_, failsLast_nil _, hP hw⟩
  rw [hdb]
  exact .nil

/-- The run does nothing but write to the log. -/
theorem Follows.of_run {result : Result α} (h : s env w x = ⟨result, w', x'⟩)
    (hreq : w'.requests = w.requests) (hdb : w'.database = w.database)
    (hcat : w'.catalog = w.catalog) (hP : P [] (Ran.view f (⟨result, w', x'⟩ : Ran τ δ σ α))) :
    Follows env maps P f s w x := by
  refine .silent ?_ ?_ (fun hw => ?_) fun _ => ?_
  · rw [h, hreq]
  · rw [h, hdb]
  · rw [h]; exact hw.of_catalog hcat
  · rw [h]; exact hP

/-- What does nothing but write to the log may come first. -/
theorem Follows.skip {a : α} {next : α → Session τ δ σ β} (h : s env w x = ⟨.ok a, w', x'⟩)
    (hreq : w'.requests = w.requests) (hdb : w'.database = w.database)
    (hcat : w'.catalog = w.catalog) (hnext : Follows env maps Q' g (next a) w' x') :
    Follows env maps Q' g (s >>= next) w x := by
  intro hw
  rw [bind_run, h, ← hreq, ← hdb]
  exact hnext (hw.of_catalog hcat)

/-- What does nothing but write to the log and fails is the last. -/
theorem Follows.stop {e : Error} {next : α → Session τ δ σ β} (h : s env w x = ⟨.error e, w', x'⟩)
    (hreq : w'.requests = w.requests) (hdb : w'.database = w.database)
    (hcat : w'.catalog = w.catalog) (hQ : Q' [] none) : Follows env maps Q' g (s >>= next) w x := by
  have hrun : (s >>= next) env w x = ⟨.error e, w', x'⟩ := by rw [bind_run, h]
  exact .of_run hrun hreq hdb hcat hQ

theorem Follows.bind {next : α → Session τ δ σ β} (hs : Follows env maps P f s w x)
    (hnext : ∀ a w' x', s env w x = ⟨.ok a, w', x'⟩ →
      Follows env maps (Q (f a x')) g (next a) w' x') :
    Follows env maps (P >>= Q) g (s >>= next) w x := by
  intro hw
  obtain ⟨hk, xs, hreq, hans, hfail, hP⟩ := hs hw
  rw [bind_run]
  rcases hr : s env w x with ⟨e | a, w₁, x₁⟩
  · rw [hr] at hk hreq hans hfail hP
    exact ⟨hk, xs, hreq, hans, hfail, .inl ⟨hP, rfl⟩⟩
  · rw [hr] at hk hreq hans hfail hP
    obtain ⟨hk', ys, hreq', hans', hfail', hQ⟩ := hnext a w₁ x₁ hr hk
    refine ⟨hk', xs ++ ys, ?_, hans.append hans', hfail.append hfail',
      .inr ⟨xs, ys, _, hP, hQ, rfl⟩⟩
    rw [hreq', show w₁.requests = _ from hreq, List.map_append, List.append_assoc]

/-- After a run that leaves the focus as it is. -/
theorem Follows.still {next : α → Session τ δ σ β} (hs : Follows env maps P f s w x)
    (hx : Still s) (hnext : ∀ a w', Follows env maps (Q (f a x)) g (next a) w' x) :
    Follows env maps (P >>= Q) g (s >>= next) w x := by
  refine hs.bind fun a w' x' hr => ?_
  obtain rfl : x = x' := (hx env w x).symm.trans (congrArg Ran.focus hr)
  exact hnext a w'

theorem Follows.pure {y : ρ} {a : α} (h : y = f a x) :
    Follows env maps (Pure.pure y) f (Pure.pure a) w x :=
  .silent rfl rfl id fun _ => ⟨rfl, by rw [h]; rfl⟩

theorem Follows.emit {y : ρ} {f : Unit → σ → ρ} {e : Event} (h : y = f () x) :
    Follows env maps (Pure.pure y) f (Session.emit e) w x :=
  .of_run (emit_run e) rfl rfl rfl ⟨rfl, by rw [h]; rfl⟩

theorem Follows.focus {next : σ → Session τ δ σ β} (h : Follows env maps Q' g (next x) w x) :
    Follows env maps Q' g (Session.focus >>= next) w x := h

theorem Follows.config {next : Config → Session τ δ σ β}
    (h : Follows env maps Q' g (next env.config) w x) :
    Follows env maps Q' g (Session.config >>= next) w x := h

theorem Follows.lift_bind (made : Result α) {Q : α → Steps κ} {next : α → Session τ δ σ β}
    (h : ∀ a, Follows env maps (Q a) g (next a) w x) :
    Follows env maps (.ofResult made >>= Q) g (liftM made >>= next) w x := by
  cases made with
  | error e => exact .silent rfl rfl id fun _ => .inl ⟨⟨rfl, rfl⟩, rfl⟩
  | ok a =>
    rw [Steps.ofResult_ok, pure_bind]
    exact h a

omit [Model τ] [DecidableEq τ] in
/-- What every round of a loop keeps holds after it. -/
theorem forM_keeps {c : ι → Session τ δ σ Unit} {is : List ι} {I : World τ δ → σ → Prop}
    (hk : ∀ i w x w' x', I w x → c i env w x = ⟨.ok (), w', x'⟩ → I w' x') (hI : I w x)
    (h : is.forM c env w x = ⟨.ok (), w', x'⟩) : I w' x' := by
  induction is generalizing w x with
  | nil =>
    obtain ⟨rfl, rfl⟩ := forM_nil_ok.1 h
    exact hI
  | cons i is ih =>
    obtain ⟨w₁, x₁, hi, his⟩ := forM_cons_ok.1 h
    exact ih (hk i w x w₁ x₁ hI hi) his

theorem Follows.forM {c : ι → Session τ δ σ Unit} {is : List ι} {P : ι → κ → Steps κ} {v : σ → κ}
    {I : World τ δ → σ → Prop} (hI : I w x)
    (hs : ∀ i ∈ is, ∀ w x, I w x → Follows env maps (P i (v x)) (fun _ => v) (c i) w x)
    (hk : ∀ i ∈ is, ∀ w x w' x', I w x → c i env w x = ⟨.ok (), w', x'⟩ → I w' x') :
    Follows env maps (.each P is (v x)) (fun _ => v) (is.forM c) w x := by
  induction is generalizing w x with
  | nil => exact .pure rfl
  | cons i is ih =>
    refine (hs i (by simp) w x hI).bind fun a w' x' hr => ?_
    exact ih (hk i (by simp) w x w' x' hI hr) (fun j hj => hs j (by simp [hj]))
      (fun j hj => hk j (by simp [hj]))

/-- A loop whose rounds follow their steps wherever they start. -/
theorem Follows.forM_all {c : ι → Session τ δ σ Unit} {is : List ι} {P : ι → κ → Steps κ}
    {v : σ → κ} (hs : ∀ i w x, Follows env maps (P i (v x)) (fun _ => v) (c i) w x) :
    Follows env maps (.each P is (v x)) (fun _ => v) (is.forM c) w x :=
  .forM (I := fun _ _ => True) trivial (fun i _ w x _ => hs i w x)
    fun _ _ _ _ _ _ _ _ => trivial

/-! ## Statements -/

/-- Sending a statement that has been made follows the steps of sending it. -/
theorem Follows.send {response : Result α → Response} (via : Via)
    (answered : Statement → δ → Result α × δ) {session : Statement → Session τ δ σ α}
    (hrun : ∀ s (w : World τ δ) (x : σ), session s env w x =
      ⟨(answered s w.database).1, w.sent env.config via s (answered s w.database).2, x⟩)
    (hresponse : ∀ s database, env.executor.response ⟨via, s⟩ database =
      (response (answered s database).1, (answered s database).2))
    (hvia : ∀ a, (response a).via = via) (hfailed : ∀ a, (response a).failed = !a.isOk)
    (made : Result Statement) :
    Follows env maps (.send response made) (fun a _ => a) (liftM made >>= session) w x := by
  cases made with
  | error e => exact .silent rfl rfl id fun _ => ⟨rfl, rfl⟩
  | ok s =>
    intro hw
    -- With a statement that has been made, the run is that of sending it.
    change World.Knows _ _ (session s env w x).world ∧ _
    have hrequest : Exchange.request ⟨s, response (answered s w.database).1⟩ = ⟨via, s⟩ :=
      congrArg (Request.mk · s) (hvia _)
    refine ⟨?_, [⟨s, response (answered s w.database).1⟩], ?_, ?_, ?_, ?_⟩
    · rw [hrun]
      exact hw.of_catalog rfl
    · change (session s env w x).world.requests = _
      rw [hrun, List.map_singleton, hrequest]
      rfl
    · change Answered _ _ _ (session s env w x).world.database
      rw [hrun]
      refine .cons (by rw [hrequest, hresponse]) ?_
      rw [hrequest, hresponse]
      exact .nil
    · refine failsLast_single fun h => ?_
      change (session s env w x).result.isOk = false
      rw [hrun]
      simpa [hfailed] using h
    · refine ⟨(answered s w.database).1, rfl, ?_⟩
      change (session s env w x).view _ = _
      rw [hrun]
      cases (answered s w.database).1 <;> rfl

theorem Follows.query (made : Result Statement) :
    Follows env maps (.query made) (fun rows _ => rows)
      (liftM made >>= Session.query : Session τ δ σ _) w x :=
  .send .query env.executor.query (fun s _ _ => query_run s)
    (fun _ _ => rfl) (fun _ => rfl) (fun _ => rfl) made

theorem Follows.execute (made : Result Statement) :
    Follows env maps (.execute made) (fun n _ => n)
      (liftM made >>= Session.execute : Session τ δ σ _) w x :=
  .send .execute env.executor.execute (fun s _ _ => execute_run s)
    (fun _ _ => rfl) (fun _ => rfl) (fun _ => rfl) made

theorem Follows.describe (made : Result Statement) :
    Follows env maps (.describe made) (fun columns _ => columns)
      (liftM made >>= Session.describe : Session τ δ σ _) w x :=
  .send .describe env.executor.describe (fun s _ _ => describe_run s)
    (fun _ _ => rfl) (fun _ => rfl) (fun _ => rfl) made

theorem Follows.query_bind (made : Result Statement) {Q : List Row → Steps κ}
    {next : List Row → Session τ δ σ β}
    (h : ∀ rows w', Follows env maps (Q rows) g (next rows) w' x) :
    Follows env maps (.query made >>= Q) g
      (liftM made >>= fun s => Session.query s >>= next) w x := by
  rw [← bind_assoc]
  exact (Follows.query made).still (.bind (.lift made) .query) h

theorem Follows.execute_bind (made : Result Statement) {Q : Nat → Steps κ}
    {next : Nat → Session τ δ σ β}
    (h : ∀ n w', Follows env maps (Q n) g (next n) w' x) :
    Follows env maps (.execute made >>= Q) g
      (liftM made >>= fun s => Session.execute s >>= next) w x := by
  rw [← bind_assoc]
  exact (Follows.execute made).still (.bind (.lift made) .execute) h

theorem Follows.describe_bind (made : Result Statement) {Q : List String → Steps κ}
    {next : List String → Session τ δ σ β}
    (h : ∀ columns w', Follows env maps (Q columns) g (next columns) w' x) :
    Follows env maps (.describe made >>= Q) g
      (liftM made >>= fun s => Session.describe s >>= next) w x := by
  rw [← bind_assoc]
  exact (Follows.describe made).still (.bind (.lift made) .describe) h

/-! ## The catalog -/

theorem Follows.tableMap (t : τ) :
    Follows env maps (.ofResult (maps t)) (fun m _ => m) (Session.tableMap t) w x := by
  cases ht : w.catalog.tableMap env.config t with
  | error e =>
    have hrun : (Session.tableMap t : Session τ δ σ _) env w x = ⟨.error e, w, x⟩ := by
      rw [tableMap_run, ht]
    refine .silent (by rw [hrun]) (by rw [hrun]) (by rw [hrun]; exact id) fun hw => ?_
    rw [hrun, ← hw.maps t, Catalog.mapOf, ht]
    exact ⟨rfl, rfl⟩
  | ok mc =>
    obtain ⟨m, c⟩ := mc
    have hrun : (Session.tableMap t : Session τ δ σ _) env w x =
        ⟨.ok m, { w with catalog := c }, x⟩ := by
      rw [tableMap_run, ht]
    refine .silent (by rw [hrun]) (by rw [hrun]) (fun hw => ?_) fun hw => ?_
    · rw [hrun]
      exact ⟨(hw.sound.tableMap ht).2, fun u => (Catalog.mapOf_tableMap ht u).trans (hw.maps u)⟩
    · rw [hrun, ← hw.maps t, Catalog.mapOf, ht]
      exact ⟨rfl, rfl⟩

theorem Follows.tableMap_bind {t : τ} {Q : TableMap τ → Steps κ}
    {next : TableMap τ → Session τ δ σ β}
    (h : ∀ m w', Follows env maps (Q m) g (next m) w' x) :
    Follows env maps (.ofResult (maps t) >>= Q) g (Session.tableMap t >>= next) w x :=
  (Follows.tableMap t).still (.tableMap t) h

/-- Finding the key of the parent sends nothing. -/
theorem Follows.masterValue {m : TableMap τ} {spec : RelationSpec} {r : Record}
    {g : β → Record → κ} {next : Option Value → Session τ δ Record β}
    (h : ∀ w', Follows env maps Q' g (next (masterKey m spec r)) w' r) :
    Follows env maps Q' g (Session.masterValue m spec >>= next) w r := by
  obtain ⟨ds, hrun⟩ := masterValue_run env m spec w r
  exact Follows.skip hrun (by simp) (by simp) (by simp) (h _)

/-! ## Mapping -/

theorem Follows.mapInto (t : τ) (row : Row) {r : Record} :
    Follows env maps (.mayGive (RowMapper.filled t r (RowMapper.plannedCells env.config t row)))
      (fun _ r' => r') (Session.mapInto t row) w r := by
  refine .silent ?_ ?_ (fun hw => ?_) fun hw => ⟨rfl, ?_⟩
  · rw [mapInto_run, World.toldAll_requests]
    rfl
  · rw [mapInto_run, World.toldAll_database]
    rfl
  · rw [mapInto_run]
    exact hw.learnt ((hw.sound.mapper t).mapInto r row) _
  · have hmapper := hw.sound.mapper t
    rw [mapInto_run, Ran.view, hmapper.mapInto_eq]
    dsimp only
    split
    · rename_i hok
      split at hok
      · cases hok
      · rename_i hnone
        rw [RowMapper.fill_eq_filled hnone, (hmapper.mapInto r row).owner]
        exact .inr rfl
    · exact .inl rfl

theorem Follows.onOther {σ' : Type} {y : σ'} {f : α → σ' → ρ} {s : Session τ δ σ' α}
    (h : Follows env maps P f s w y) :
    Follows env maps P (fun a _ => f a.1 a.2) (Session.onOther y s : Session τ δ σ (α × σ'))
      w x := by
  intro hw
  obtain ⟨hk, xs, hreq, hans, hfail, hP⟩ := h hw
  unfold Session.onOther
  rcases hr : s env w y with ⟨e | a, w₁, y₁⟩
  · rw [hr] at hk hreq hans hfail hP
    exact ⟨hk, xs, hreq, hans, hfail, hP⟩
  · rw [hr] at hk hreq hans hfail hP
    exact ⟨hk, xs, hreq, hans, hfail, hP⟩

/-- The record that a row is mapped to. -/
def mapped (config : Config) (t : τ) (row : Row) : Record :=
  RowMapper.filled t (freshRecord t) (RowMapper.plannedCells config t row)

theorem Follows.mapRow (t : τ) (row : Row) :
    Follows env maps (.mayGive (mapped env.config t row)) (fun r _ => r)
      (Session.mapRow t row) w x := by
  rw [← bind_pure (Steps.mayGive _)]
  exact (Follows.onOther (Follows.mapInto t row)).bind fun a w' x' _ => .pure rfl

theorem Follows.mapRows (t : τ) (rows : List Row) :
    Follows env maps (.mayGive (rows.map (mapped env.config t))) (fun rs _ => rs)
      (Session.mapRows t rows) w x := by
  refine .silent ?_ ?_ (fun hw => ?_) fun hw => ⟨rfl, ?_⟩
  · rw [mapRows_run, World.toldAll_requests]
    rfl
  · rw [mapRows_run, World.toldAll_database]
    rfl
  · rw [mapRows_run]
    exact hw.learnt ((hw.sound.mapper t).mapAll rows) _
  · rw [mapRows_run, Ran.view]
    dsimp only
    split
    · rename_i rs hok
      have hall := ((hw.sound.mapper t).mapAll_ok hok).imp fun row r h => h.eq_filled.symm
      have hrs := List.forall₂_map_left_iff.2 hall
      rw [List.forall₂_eq_eq_eq] at hrs
      exact .inr (congrArg some hrs.symm)
    · exact .inl rfl

end Session

end RecordGraph
