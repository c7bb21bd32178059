/-
  What stays true of a world while sessions run.

  Sessions keep the catalog sound, and a map once made stays (`World.Later`).  `Grows`
  names the parts that sessions are made of, so that a relation between worlds that goes from
  part to part (`Steady`) goes from the start of a session to its end (`Grows.steady`).
-/
import RecordGraph.Proofs.Catalog
import RecordGraph.Proofs.Session.Runs

namespace RecordGraph

variable {τ δ σ ρ α β ι : Type} [Model τ] [DecidableEq τ]

/-! ## Later worlds -/

/-- The catalog of the second world is as sound as that of the first, and has its maps and
    would make the same ones.  Its mappers are as strict. -/
structure World.Later (config : Config) (w w' : World τ δ) : Prop where
  sound : w.catalog.Sound config → w'.catalog.Sound config
  maps : ∀ t m, w.catalog.map? t = some m → w'.catalog.map? t = some m
  mapOf : ∀ t, w'.catalog.mapOf config t = w.catalog.mapOf config t
  strict : ∀ t, (w'.catalog.mapper config t).strict = (w.catalog.mapper config t).strict

namespace World

variable {config : Config} {w w' w'' : World τ δ}

/-- The world after a row mapper has learnt. -/
def learnt (w : World τ δ) (t : τ) (m : RowMapper τ) : World τ δ :=
  { w with catalog := w.catalog.keepMapper t m }

theorem Later.of_catalog (h : w'.catalog = w.catalog) : w.Later config w' :=
  ⟨fun hs => h ▸ hs, fun _ _ hm => h ▸ hm, fun _ => by rw [h], fun _ => by rw [h]⟩

theorem Later.refl : w.Later config w := .of_catalog rfl

theorem Later.trans (h : w.Later config w') (h' : w'.Later config w'') : w.Later config w'' :=
  ⟨fun hs => h'.sound (h.sound hs), fun t m hm => h'.maps t m (h.maps t m hm),
    fun t => (h'.mapOf t).trans (h.mapOf t), fun t => (h'.strict t).trans (h.strict t)⟩

/-- What a row mapper has learnt does not change the maps. -/
theorem Later.learnt {t : τ} {m : RowMapper τ} (ds : List Diagnostic)
    (hm : w.catalog.Sound config → m.Of config t)
    (hs : m.strict = (w.catalog.mapper config t).strict) :
    w.Later config ((w.learnt t m).toldAll config ds) := by
  refine ⟨fun hs => ?_, fun u n hn => ?_, fun u => ?_, fun u => ?_⟩
  · rw [World.toldAll_catalog]; exact hs.keepMapper (hm hs)
  · rw [World.toldAll_catalog]; exact hn
  · rw [World.toldAll_catalog, Catalog.mapOf_eq, Catalog.mapOf_eq]; rfl
  · rw [World.toldAll_catalog]
    by_cases hu : u = t
    · subst hu
      exact (congrArg RowMapper.strict (Catalog.mapper_keepMapper _ m)).trans hs
    · exact congrArg RowMapper.strict (Catalog.mapper_keepMapper_ne _ m hu)

end World

namespace Session

variable {env : Env δ} {w w' : World τ δ} {x x' : σ} {r : Record} {t : τ}

/-! ## Mapping -/

theorem mapInto_run (t : τ) (row : Row) (w : World τ δ) (r : Record) :
    mapInto t row env w r =
      ⟨match ((w.catalog.mapper env.config t).mapInto r row).2.failure with
        | some e => .error e
        | none => .ok (),
      (w.learnt t ((w.catalog.mapper env.config t).mapInto r row).1).toldAll env.config
        ((w.catalog.mapper env.config t).mapInto r row).2.reports,
      ((w.catalog.mapper env.config t).mapInto r row).2.record⟩ := by
  unfold mapInto mapper keepMapper
  simp only [bind_assoc, catalog_bind, config_bind, pure_bind, focus_bind, setCatalog_bind,
    setFocus_bind]
  rw [bind_run, diagnoseAll_run]
  cases ((w.catalog.mapper env.config t).mapInto r row).2.failure <;> rfl

theorem mapRows_run (t : τ) (rows : List Row) (w : World τ δ) (x : σ) :
    mapRows t rows env w x =
      ⟨((w.catalog.mapper env.config t).mapAll rows).2.records,
      (w.learnt t ((w.catalog.mapper env.config t).mapAll rows).1).toldAll env.config
        ((w.catalog.mapper env.config t).mapAll rows).2.reports, x⟩ := by
  unfold mapRows mapper keepMapper
  simp only [bind_assoc, catalog_bind, config_bind, pure_bind, setCatalog_bind]
  rw [bind_run, diagnoseAll_run]
  rfl

/-! ## Sessions and the catalog -/

/-- The session is made of statements, maps, rows and work on other records, and so only
    adds to what the world knows. -/
inductive Grows : {σ α : Type} → Session τ δ σ α → Prop
  | pure {σ α : Type} (a : α) : Grows (pure a : Session τ δ σ α)
  | bind {σ α β : Type} {s : Session τ δ σ α} {f : α → Session τ δ σ β} :
      Grows s → (∀ a, Grows (f a)) → Grows (s >>= f)
  | lift {σ α : Type} (r : Result α) : Grows (liftM r : Session τ δ σ α)
  | focus {σ : Type} : Grows (focus : Session τ δ σ σ)
  | setFocus {σ : Type} (x : σ) : Grows (setFocus x : Session τ δ σ Unit)
  | config {σ : Type} : Grows (config : Session τ δ σ Config)
  | emit {σ : Type} (e : Event) : Grows (emit e : Session τ δ σ Unit)
  | diagnose {σ : Type} (d : Diagnostic) : Grows (diagnose d : Session τ δ σ Unit)
  | query {σ : Type} (s : Statement) : Grows (query s : Session τ δ σ _)
  | execute {σ : Type} (s : Statement) : Grows (execute s : Session τ δ σ _)
  | describe {σ : Type} (s : Statement) : Grows (describe s : Session τ δ σ _)
  | onOther {σ ρ α : Type} {s : Session τ δ ρ α} :
      Grows s → (other : ρ) → Grows (onOther other s : Session τ δ σ (α × ρ))
  | onChild {s : Session τ δ Record Unit} :
      Grows s → (slot i : Nat) → Grows (onChild slot i s)
  | tableMap {σ : Type} (t : τ) : Grows (tableMap t : Session τ δ σ _)
  | mapInto (t : τ) (row : Row) : Grows (mapInto t row : Session τ δ Record Unit)
  | mapRows {σ : Type} (t : τ) (rows : List Row) : Grows (mapRows t rows : Session τ δ σ _)

/-- The relation goes from a world to what any part of a session makes of it, and on from there. -/
structure Steady (env : Env δ) (R : World τ δ → World τ δ → Prop) : Prop where
  refl : ∀ w, R w w
  trans : ∀ w w' w'', R w w' → R w' w'' → R w w''
  logged : ∀ w es, R w (w.logged es)
  told : ∀ w d, R w (w.told env.config d)
  sent : ∀ w via s database, R w (w.sent env.config via s database)
  mapped : ∀ w t m c, w.catalog.tableMap env.config t = .ok (m, c) → R w { w with catalog := c }
  learnt : ∀ w t m ds, (w.catalog.Sound env.config → m.Of env.config t) →
    m.strict = (w.catalog.mapper env.config t).strict →
    R w ((w.learnt t m).toldAll env.config ds)

/-- What goes from part to part goes from the start of a session to its end, whatever comes of
    it. -/
theorem Grows.steady {s : Session τ δ σ α} (hs : Grows s) {R : World τ δ → World τ δ → Prop}
    (hR : Steady env R) (w : World τ δ) (x : σ) : R w (s env w x).world := by
  induction hs generalizing w with
  | pure => exact hR.refl w
  | @bind _ _ _ s f _ _ ih ih' =>
    have h := ih w x
    rw [bind_run]
    rcases hr : s env w x with ⟨e | a, w₁, x₁⟩
    · rw [hr] at h
      exact h
    · rw [hr] at h
      exact hR.trans _ _ _ h (ih' a w₁ x₁)
  | lift => exact hR.refl w
  | focus => exact hR.refl w
  | setFocus => exact hR.refl w
  | config => exact hR.refl w
  | emit e => exact hR.logged w [e]
  | diagnose d =>
    rw [diagnose_run]
    exact hR.told w d
  | query s =>
    rw [query_run]
    exact hR.sent w .query s _
  | execute s =>
    rw [execute_run]
    exact hR.sent w .execute s _
  | describe s =>
    rw [describe_run]
    exact hR.sent w .describe s _
  | onOther _ other ih => exact ih w other
  | onChild _ slot i ih =>
    unfold Session.onChild
    cases x.child? slot i with
    | none => exact hR.refl w
    | some c => exact ih w c
  | tableMap t =>
    simp only [Session.tableMap, catalog_bind, config_bind, lift_bind]
    cases h : w.catalog.tableMap env.config t with
    | error e => exact hR.refl w
    | ok mc => exact hR.mapped w t mc.1 mc.2 h
  | mapInto t row =>
    rw [mapInto_run]
    exact hR.learnt w t _ _ (fun hs => (hs.mapper t).mapInto x row) (RowMapper.strict_mapInto ..)
  | mapRows t rows =>
    rw [mapRows_run]
    exact hR.learnt w t _ _ (fun hs => (hs.mapper t).mapAll rows) (RowMapper.strict_mapAll ..)

theorem steady_later (env : Env δ) :
    Steady env fun w w' : World τ δ => w.Later env.config w' where
  refl _ := .refl
  trans _ _ _ := .trans
  logged _ _ := .of_catalog rfl
  told _ _ := .of_catalog (World.told_catalog ..)
  sent _ _ _ _ := .of_catalog rfl
  mapped _ _ _ _ h := ⟨fun hs => (hs.tableMap h).2, fun _ _ hn => Catalog.map_tableMap h hn,
    fun u => Catalog.mapOf_tableMap h u,
    fun u => congrArg RowMapper.strict (Catalog.mapper_tableMap h u)⟩
  learnt _ _ _ ds hm hs := .learnt ds hm hs

/-- Whatever comes of the session, the world is a later one. -/
theorem Grows.world {s : Session τ δ σ α} (hs : Grows s) (env : Env δ) (w : World τ δ) (x : σ) :
    w.Later env.config (s env w x).world := hs.steady (steady_later env) w x

theorem Grows.later {s : Session τ δ σ α} {result : Result α} (hs : Grows s)
    (h : s env w x = ⟨result, w', x'⟩) : w.Later env.config w' := by
  have hl := hs.world env w x
  rwa [h] at hl

theorem Grows.fail (e : Error) : Grows (fail e : Session τ δ σ α) := .lift (.error e)

theorem Grows.forM {f : ι → Session τ δ σ Unit} (hf : ∀ i, Grows (f i)) (is : List ι) :
    Grows (is.forM f) := by
  induction is with
  | nil => exact .pure ()
  | cons i is ih => exact .bind (hf i) fun _ => ih

theorem Grows.mapM {f : ι → Session τ δ σ α} (hf : ∀ i, Grows (f i)) (is : List ι) :
    Grows (is.mapM f) := by
  induction is with
  | nil => exact .pure []
  | cons i is ih =>
    rw [List.mapM_cons]
    exact .bind (hf i) fun a => .bind ih fun as => .pure (a :: as)

theorem Grows.mapRow (t : τ) (row : Row) : Grows (mapRow t row : Session τ δ σ _) :=
  .bind (.onOther (.mapInto t row) _) fun _ => .pure _

/-! ## Reading -/

theorem Grows.masterValue (m : TableMap τ) (spec : RelationSpec) :
    Grows (masterValue m spec : Session τ δ Record _) := by
  unfold Session.masterValue
  split
  · exact .pure _
  · refine .bind .focus fun r => ?_
    split
    · split
      · exact .bind (.diagnose _) fun _ => .pure _
      · exact .pure _
    · exact .bind (.diagnose _) fun _ => .pure _

theorem Grows.readChildren (m : TableMap τ) (rel : Relation τ) :
    Grows (readChildren m rel : Session τ δ Record _) := by
  refine .bind (.masterValue m rel.spec) fun master => ?_
  split
  · exact .pure _
  · exact .bind .config fun _ => .bind (.lift _) fun _ => .bind (.query _) fun _ =>
      .bind (.mapRows _ _) fun _ => .pure _

theorem Grows.withLinkKey (rel : Relation τ) (property : String) (row : Row) (child : Record) :
    Grows (withLinkKey rel property row child : Session τ δ σ _) := by
  unfold Session.withLinkKey
  split
  · exact .pure _
  · split
    · exact .pure _
    · refine .bind (.lift _) fun write => ?_
      split
      · exact .pure _
      · exact .bind (.emit _) fun _ => .pure _

theorem Grows.loadRelation (m : TableMap τ) (rel : Relation τ) :
    Grows (loadRelation m rel : Session τ δ Record _) := by
  refine .bind (.readChildren m rel) fun read => ?_
  split
  · exact .pure _
  · have hset (children : List Record) : Grows (do
        Session.setFocus ((← Session.focus).setSlot rel.slot (.many (some children))) :
        Session τ δ Record Unit) := .bind .focus fun _ => .setFocus _
    dsimp only
    split
    · exact .bind (.pure _) hset
    · refine .bind (.tableMap rel.child) fun childMap => .bind (.mapM (fun read => ?_) _) hset
      exact .withLinkKey rel _ read.1 read.2

theorem Grows.loadRelationsOf (m : TableMap τ) :
    Grows (loadRelationsOf m : Session τ δ Record _) := .forM (fun _ => .loadRelation m _) _

theorem Grows.reloadOf (m : TableMap τ) : Grows (reloadOf m : Session τ δ Record _) := by
  refine .bind .focus fun r => .bind .config fun _ => .bind (.lift _) fun s =>
    .bind (.query s) fun rows => ?_
  split
  · exact .bind .focus fun _ => .fail _
  · exact .mapInto _ _

/-! ## Saving -/

theorem Grows.storedRow (m : TableMap τ) : Grows (storedRow m : Session τ δ Record _) := by
  refine .bind .focus fun r => ?_
  split
  · exact .pure _
  · exact .bind .config fun _ => .bind (.lift _) fun _ => .bind (.query _) fun _ => .pure _

theorem Grows.writeColumns (m : TableMap τ) (r : Record) (columns : List String) :
    Grows (writeColumns m r columns : Session τ δ σ _) := by
  refine .bind .config fun _ => .bind (.lift _) fun s => ?_
  split
  · exact .bind (.execute _) fun _ => .pure _
  · exact .pure _

theorem Grows.updateRow (m : TableMap τ) (row : Row) :
    Grows (updateRow m row : Session τ δ Record _) := by
  refine .bind .focus fun r => .bind .config fun c => ?_
  dsimp only
  split
  · exact .bind (.lift _) fun _ => .writeColumns m r _
  · exact .writeColumns m r _

theorem Grows.acceptKey (m : TableMap τ) (key : Value) :
    Grows (acceptKey m key : Session τ δ Record _) := by
  unfold Session.acceptKey
  split
  · exact .fail _
  · refine .bind .focus fun _ => .bind (.lift _) fun write => ?_
    split
    · exact .setFocus _
    · exact .fail _

theorem Grows.insertRow (m : TableMap τ) : Grows (insertRow m : Session τ δ Record _) := by
  refine .bind .config fun _ => .bind (.lift _) fun _ => .bind (.describe _) fun _ =>
    .bind .focus fun _ => .bind (.lift _) fun s => ?_
  split
  · refine .bind (.bind (.query s) fun _ => .pure _) fun key => ?_
    split
    · exact .acceptKey m _
    · exact .fail _
  · exact .bind (.execute _) fun _ => .pure _

theorem Grows.storedRecord (m : TableMap τ) (row : Row) :
    Grows (storedRecord m row : Session τ δ σ _) := by
  unfold Session.storedRecord
  split
  · exact .pure _
  · exact .bind (.mapRow _ _) fun r => .bind (.onOther (.loadRelationsOf m) r) fun _ => .pure _

theorem Grows.writeRow (m : TableMap τ) : Grows (writeRow m : Session τ δ Record _) := by
  refine .bind (.storedRow m) fun row => ?_
  split
  · exact .bind (.updateRow m _) fun _ => .storedRecord m _
  · exact .bind (.insertRow m) fun _ => .pure _

/-! ## Synchronizing -/

theorem Grows.attach (child : τ) (column : String) (master : Value) :
    Grows (attach child column master : Session τ δ Record _) := by
  refine .bind .focus fun r => .bind (.lift _) fun field => ?_
  split
  · exact .setFocus _
  · split
    · exact .pure _
    · refine .bind .focus fun _ => .bind (.lift _) fun write => ?_
      split
      · exact .setFocus _
      · exact .emit _

theorem Grows.deleteChild (t : τ) (r : Record) :
    Grows (deleteChild t r : Session τ δ σ _) := by
  unfold Session.deleteChild Session.delete
  split
  · exact .pure _
  · exact .bind (.bind (.tableMap t) fun m => .bind .config fun _ => .bind (.lift _) fun s =>
      .execute s) fun _ => .pure _

theorem Grows.linkKey (rel : Relation τ) (property : String) (r : Record) :
    Grows (linkKey rel property r : Session τ δ σ _) := by
  unfold Session.linkKey
  dsimp only
  split
  · exact .bind (.diagnose _) fun _ => .pure _
  · exact .pure _

theorem Grows.synchronizeLinks (m : TableMap τ) (rel : Relation τ) (old : Option Record) :
    Grows (synchronizeLinks m rel old : Session τ δ Record _) := by
  refine .bind .focus fun r => ?_
  split
  · exact .pure _
  · refine .bind (.masterValue m rel.spec) fun master => ?_
    split
    · exact .pure _
    · refine .bind (.tableMap _) fun _ => .bind (.mapM (.linkKey rel _) _) fun _ => ?_
      refine .bind .config fun _ => .bind (.forM (fun key => ?_) _) fun _ =>
        .bind (.forM (fun key => ?_) _) fun _ => .emit _
      · exact .bind (.lift _) fun _ => .bind (.execute _) fun _ => .pure _
      · exact .bind (.lift _) fun _ => .bind (.execute _) fun _ => .pure _

variable {saveChild : τ → Session τ δ Record Unit}

theorem Grows.saveAll (h : ∀ t, Grows (saveChild t)) (rel : Relation τ) (places : List Nat) :
    Grows (saveAll saveChild rel places) := .forM (fun _ => .onChild (h rel.child) _ _) _

theorem Grows.alignChildren (h : ∀ t, Grows (saveChild t)) (m : TableMap τ) (rel : Relation τ)
    (childMap : TableMap τ) (before : Option (List Record)) :
    Grows (alignChildren saveChild m rel childMap before) :=
  .bind .focus fun _ => .bind (.forM (fun _ => .deleteChild _ _) _) fun _ =>
    .bind (.saveAll h rel _) fun _ => .bind (.saveAll h rel _) fun _ => .emit _

theorem Grows.attachAll (rel : Relation τ) (column : String) (master : Value) (count : Nat) :
    Grows (attachAll rel column master count : Session τ δ Record _) :=
  .forM (fun _ => .onChild (.attach _ _ _) _ _) _

theorem Grows.synchronizeChildren (h : ∀ t, Grows (saveChild t)) (m : TableMap τ)
    (rel : Relation τ) (old : Option Record) : Grows (synchronizeChildren saveChild m rel old) := by
  refine .bind .focus fun r => ?_
  split
  · exact .pure _
  · refine .bind (.masterValue m rel.spec) fun master => ?_
    split
    · exact .pure _
    · exact .bind (.tableMap _) fun _ => .bind (.attachAll _ _ _ _) fun _ =>
        .alignChildren h _ _ _ _

theorem Grows.synchronize (h : ∀ t, Grows (saveChild t)) (m : TableMap τ) (rel : Relation τ)
    (old : Option Record) : Grows (synchronize saveChild m rel old) := by
  unfold Session.synchronize
  split
  · exact .pure _
  · split
    · exact .synchronizeChildren h _ _ _
    · exact .synchronizeLinks _ _ _

theorem Grows.saveUsing (h : ∀ t, Grows (saveChild t)) (t : τ) : Grows (saveUsing saveChild t) :=
  .bind (.tableMap t) fun _ => .bind (.writeRow _) fun _ => .bind (.reloadOf _) fun _ =>
    .forM (fun _ => .synchronize h _ _ _) _

theorem Grows.saveLevels (levels : Nat) (t : τ) :
    Grows (saveLevels levels t : Session τ δ Record _) := by
  induction levels generalizing t with
  | zero => exact .saveUsing (fun _ => .pure ()) t
  | succ levels ih => exact .saveUsing ih t

end Session

end RecordGraph
