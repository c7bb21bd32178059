/-
  Saves without a bound on their levels.

  `Runs` is the recursion of a save as a relation: a save prepares its record and goes
  through the relations, a relation is opened and its children are saved, and a child is
  saved by a save of its own.  Nothing in it counts levels, so there are tasks with a run
  only if the recursion ends.

  * `runs_save`: a save of any record has a run, whatever is answered, and ends as the run
    does; there is no other one (`Runs.unique`).
  * `Runs.once`: each record below is saved at most once, and only if carried one-to-many
    collections lead to it.
  * `Runs.edited`: the record keeps its shape, also when the save fails.
-/
import Mathlib.Data.List.Nodup
import RecordGraph.Proofs.Session.Edits

namespace RecordGraph

variable {τ δ : Type}

/-! ## Tasks -/

/-- What is left to do in a save. -/
inductive Task (τ : Type) where
  /-- The record in focus is saved. -/
  | save (t : τ)
  /-- Some relations of the record in focus are brought in line with the stored record. -/
  | relations (m : TableMap τ) (old : Option Record) (rels : List (Relation τ))
  /-- The children in some places of a collection are saved. -/
  | children (rel : Relation τ) (places : List Nat)

/-- The task is one on a record of the type: its relations are in the map of the type, and its
    children in a collection of it, in different places. -/
def Task.On (maps : τ → Result (TableMap τ)) (t : τ) : Task τ → Prop
  | .save u => u = t
  | .relations m _ rels => maps t = .ok m ∧ rels.Sublist m.relations
  | .children rel places => ∃ m, maps t = .ok m ∧ rel ∈ m.relations ∧ places.Nodup ∧
      (places ≠ [] → rel.kind = .oneToMany ∧ rel.spec.readOnly = false)

/-- A route to a record that the task may save starts with this step. -/
def Task.Starts : Task τ → Record.Step → Prop
  | .save _, _ => True
  | .relations _ _ rels, step => ∃ rel ∈ rels, ∃ i, step = .child rel.slot i
  | .children rel places, step => ∃ i ∈ places, step = .child rel.slot i

/-! ## Records that are saved -/

/-- The ways from a record to one of its children and on to the given ones below that. -/
def routesUnder (slot i : Nat) (routes : List (List Record.Step)) : List (List Record.Step) :=
  [.child slot i] :: routes.map (.child slot i :: ·)

/-- The route leads through carried one-to-many collections that are written. -/
inductive Reachable (maps : τ → Result (TableMap τ)) : τ → Record → List Record.Step → Prop
  | child {t : τ} {m : TableMap τ} {rel : Relation τ} {r c : Record} {i : Nat} :
      maps t = .ok m → rel ∈ m.relations → rel.kind = .oneToMany → rel.spec.readOnly = false →
      r.child? rel.slot i = some c → Reachable maps t r [.child rel.slot i]
  | deeper {t : τ} {m : TableMap τ} {rel : Relation τ} {r c : Record} {i : Nat}
      {route : List Record.Step} :
      maps t = .ok m → rel ∈ m.relations → rel.kind = .oneToMany → rel.spec.readOnly = false →
      r.child? rel.slot i = some c → Reachable maps rel.child c route →
      Reachable maps t r (.child rel.slot i :: route)

/-- The routes lead to different records that can be reached, and start as those of the task. -/
structure Task.SavesOnce (maps : τ → Result (TableMap τ)) (t : τ) (task : Task τ) (r : Record)
    (saves : List (List Record.Step)) : Prop where
  nodup : saves.Nodup
  reached : ∀ route ∈ saves, Reachable maps t r route
  starts : ∀ route ∈ saves, ∃ step rest, route = step :: rest ∧ task.Starts step

section

variable {maps : τ → Result (TableMap τ)} {t : τ} {task task' : Task τ} {r r' : Record}
  {saves saves' : List (List Record.Step)}

theorem Task.On.otherRelations {m : TableMap τ} {old : Option Record} {rel : Relation τ}
    {rels : List (Relation τ)} (h : (Task.relations m old (rel :: rels)).On maps t) :
    (Task.relations m old rels).On maps t :=
  ⟨h.1, (List.sublist_cons_self _ _).trans h.2⟩

theorem Task.On.otherPlaces {rel : Relation τ} {i : Nat} {is : List Nat}
    (h : (Task.children rel (i :: is)).On maps t) : (Task.children rel is).On maps t := by
  obtain ⟨m, hm, hrel, hnodup, hkind⟩ := h
  exact ⟨m, hm, hrel, (List.nodup_cons.1 hnodup).2, fun _ => hkind (List.cons_ne_nil i is)⟩

theorem Task.SavesOnce.nil : task.SavesOnce maps t r [] := ⟨List.nodup_nil, nofun, nofun⟩

/-- Routes that start in different ways are different. -/
theorem Task.SavesOnce.append {task₁ task₂ : Task τ} (h : task₁.SavesOnce maps t r saves)
    (h' : task₂.SavesOnce maps t r saves')
    (hdiffer : ∀ step, task₁.Starts step → ¬ task₂.Starts step)
    (hstarts : ∀ step, task₁.Starts step ∨ task₂.Starts step → task.Starts step) :
    task.SavesOnce maps t r (saves ++ saves') := by
  refine ⟨List.nodup_append.2 ⟨h.nodup, h'.nodup, ?_⟩, fun route hr => ?_, fun route hr => ?_⟩
  · intro route hr route' hr' heq
    obtain ⟨step, rest, rfl, hs⟩ := h.starts route hr
    obtain ⟨step', rest', rfl, hs'⟩ := h'.starts route' hr'
    cases heq
    exact hdiffer step hs hs'
  · rcases List.mem_append.1 hr with hr | hr
    · exact h.reached route hr
    · exact h'.reached route hr
  · rcases List.mem_append.1 hr with hr | hr
    · obtain ⟨step, rest, rfl, hs⟩ := h.starts route hr
      exact ⟨step, rest, rfl, hstarts step (.inl hs)⟩
    · obtain ⟨step, rest, rfl, hs⟩ := h'.starts route hr
      exact ⟨step, rest, rfl, hstarts step (.inr hs)⟩

/-- A child is saved, and then the records below it. -/
theorem Task.SavesOnce.under {rel : Relation τ} {i : Nat} {is : List Nat} {c : Record}
    (h : (Task.save rel.child).SavesOnce maps rel.child c saves)
    (hon : (Task.children rel (i :: is)).On maps t) (hc : r.child? rel.slot i = some c) :
    (Task.children rel [i]).SavesOnce maps t r (routesUnder rel.slot i saves) := by
  obtain ⟨m, hm, hrel, -, hkind⟩ := hon
  have hkind := hkind (List.cons_ne_nil i is)
  refine ⟨List.nodup_cons.2 ⟨fun hmem => ?_, ?_⟩, fun route hr => ?_, fun route hr => ?_⟩
  · -- The route to the child itself is shorter than those on from it.
    obtain ⟨rest, hrest, heq⟩ := List.mem_map.1 hmem
    obtain ⟨step, rest, rfl, -⟩ := h.starts rest hrest
    cases heq
  · exact List.Nodup.map (fun _ _ heq => (List.cons.inj heq).2) h.nodup
  · rcases List.mem_cons.1 hr with rfl | hr
    · exact .child hm hrel hkind.1 hkind.2 hc
    · obtain ⟨rest, hrest, rfl⟩ := List.mem_map.1 hr
      exact .deeper hm hrel hkind.1 hkind.2 hc (h.reached rest hrest)
  · rcases List.mem_cons.1 hr with rfl | hr
    · exact ⟨_, _, rfl, i, List.mem_cons_self, rfl⟩
    · obtain ⟨rest, hrest, rfl⟩ := List.mem_map.1 hr
      exact ⟨_, _, rfl, i, List.mem_cons_self, rfl⟩

variable [Model τ]

/-- Edits make no record reachable that was not. -/
theorem Reachable.before (hτ : Model.Sound τ) (hmaps : ∀ t m, maps t = .ok m → m.Of t)
    {route : List Record.Step} (h : Reachable maps t r' route) (he : Edited t r r') : Reachable maps t r route := by
  induction h generalizing r with
  | child hm hrel hk hro hc =>
    obtain ⟨c, hc', -⟩ := he.child_before hτ ((hmaps _ _ hm).shape hτ _ hrel) hc
    exact .child hm hrel hk hro hc'
  | deeper hm hrel hk hro hc _ ih =>
    obtain ⟨c, hc', hedit⟩ := he.child_before hτ ((hmaps _ _ hm).shape hτ _ hrel) hc
    exact .deeper hm hrel hk hro hc' (ih hedit)

/-- The same routes, before some edits and as those of a larger task. -/
theorem Task.SavesOnce.before (hτ : Model.Sound τ) (hmaps : ∀ t m, maps t = .ok m → m.Of t)
    (h : task'.SavesOnce maps t r' saves) (he : Edited t r r')
    (hstarts : ∀ step, task'.Starts step → task.Starts step) : task.SavesOnce maps t r saves where
  nodup := h.nodup
  reached route hr := (h.reached route hr).before hτ hmaps he
  starts route hr := by
    obtain ⟨step, rest, rfl, hs⟩ := h.starts route hr
    exact ⟨step, rest, rfl, hstarts step hs⟩

end

variable [Model τ] [DecidableEq τ]

/-! ## Runs -/

namespace Session

/-- The task ends with `out`, and has saved the records at the ends of the routes, one after
    the other. -/
inductive Runs (env : Env δ) : Task τ → World τ δ → Record → Ran τ δ Record Unit →
    List (List Record.Step) → Prop
  | unprepared {t : τ} {w w' : World τ δ} {r r' : Record} {e : Error} :
      prepare t env w r = ⟨.error e, w', r'⟩ → Runs env (.save t) w r ⟨.error e, w', r'⟩ []
  | save {t : τ} {m : TableMap τ} {old : Option Record} {w w₁ : World τ δ} {r r₁ : Record}
      {out : Ran τ δ Record Unit} {saves : List (List Record.Step)} :
      prepare t env w r = ⟨.ok (m, old), w₁, r₁⟩ →
      Runs env (.relations m old m.relations) w₁ r₁ out saves → Runs env (.save t) w r out saves
  | aligned {m : TableMap τ} {old : Option Record} {w : World τ δ} {r : Record} :
      Runs env (.relations m old []) w r ⟨.ok (), w, r⟩ []
  | unopened {m : TableMap τ} {old : Option Record} {rel : Relation τ} {rels : List (Relation τ)}
      {w w' : World τ δ} {r r' : Record} {e : Error} :
      openRelation m rel old env w r = ⟨.error e, w', r'⟩ →
      Runs env (.relations m old (rel :: rels)) w r ⟨.error e, w', r'⟩ []
  | broken {m : TableMap τ} {old : Option Record} {rel : Relation τ} {rels : List (Relation τ)}
      {places : List Nat} {es : List Event} {w w₁ w' : World τ δ} {r r₁ r' : Record} {e : Error}
      {saves : List (List Record.Step)} :
      openRelation m rel old env w r = ⟨.ok (places, es), w₁, r₁⟩ →
      Runs env (.children rel places) w₁ r₁ ⟨.error e, w', r'⟩ saves →
      Runs env (.relations m old (rel :: rels)) w r ⟨.error e, w', r'⟩ saves
  | relation {m : TableMap τ} {old : Option Record} {rel : Relation τ} {rels : List (Relation τ)}
      {places : List Nat} {es : List Event} {w w₁ w₂ : World τ δ} {r r₁ r₂ : Record}
      {out : Ran τ δ Record Unit} {saves saves' : List (List Record.Step)} :
      openRelation m rel old env w r = ⟨.ok (places, es), w₁, r₁⟩ →
      Runs env (.children rel places) w₁ r₁ ⟨.ok (), w₂, r₂⟩ saves →
      Runs env (.relations m old rels) (w₂.logged es) r₂ out saves' →
      Runs env (.relations m old (rel :: rels)) w r out (saves ++ saves')
  | visited {rel : Relation τ} {w : World τ δ} {r : Record} :
      Runs env (.children rel []) w r ⟨.ok (), w, r⟩ []
  | unsaved {rel : Relation τ} {i : Nat} {is : List Nat} {w w' : World τ δ} {r c c' : Record}
      {e : Error} {saves : List (List Record.Step)} :
      r.child? rel.slot i = some c →
      Runs env (.save rel.child) w c ⟨.error e, w', c'⟩ saves →
      Runs env (.children rel (i :: is)) w r ⟨.error e, w', r.setChild rel.slot i c'⟩
        (routesUnder rel.slot i saves)
  | child {rel : Relation τ} {i : Nat} {is : List Nat} {w w₁ : World τ δ} {r c c' : Record}
      {out : Ran τ δ Record Unit} {saves saves' : List (List Record.Step)} :
      r.child? rel.slot i = some c →
      Runs env (.save rel.child) w c ⟨.ok (), w₁, c'⟩ saves →
      Runs env (.children rel is) w₁ (r.setChild rel.slot i c') out saves' →
      Runs env (.children rel (i :: is)) w r out (routesUnder rel.slot i saves ++ saves')

variable {env : Env δ} {task : Task τ} {t : τ} {w : World τ δ} {r : Record}
  {out out' : Ran τ δ Record Unit} {saves saves' : List (List Record.Step)}
  {maps : τ → Result (TableMap τ)}

/-- A task ends in one way only. -/
theorem Runs.unique (h : Runs env task w r out saves) (h' : Runs env task w r out' saves') :
    out = out' ∧ saves = saves' := by
  induction h generalizing out' saves' with
  | unprepared hp =>
    cases h' with
    | unprepared hp' =>
      rw [hp] at hp'
      cases hp'
      exact ⟨rfl, rfl⟩
    | save hp' _ => rw [hp] at hp'; cases hp'
  | save hp _ ih =>
    cases h' with
    | unprepared hp' => rw [hp] at hp'; cases hp'
    | save hp' hrels =>
      rw [hp] at hp'
      cases hp'
      exact ih hrels
  | aligned =>
    cases h' with
    | aligned => exact ⟨rfl, rfl⟩
  | unopened ho =>
    cases h' with
    | unopened ho' =>
      rw [ho] at ho'
      cases ho'
      exact ⟨rfl, rfl⟩
    | broken ho' _ => rw [ho] at ho'; cases ho'
    | relation ho' _ _ => rw [ho] at ho'; cases ho'
  | broken ho _ ih =>
    cases h' with
    | unopened ho' => rw [ho] at ho'; cases ho'
    | broken ho' hcs =>
      rw [ho] at ho'
      cases ho'
      exact ih hcs
    | relation ho' hcs _ =>
      rw [ho] at ho'
      cases ho'
      obtain ⟨heq, -⟩ := ih hcs
      cases heq
  | relation ho _ _ ih ih' =>
    cases h' with
    | unopened ho' => rw [ho] at ho'; cases ho'
    | broken ho' hcs =>
      rw [ho] at ho'
      cases ho'
      obtain ⟨heq, -⟩ := ih hcs
      cases heq
    | relation ho' hcs hrels =>
      rw [ho] at ho'
      cases ho'
      obtain ⟨heq, rfl⟩ := ih hcs
      cases heq
      obtain ⟨rfl, rfl⟩ := ih' hrels
      exact ⟨rfl, rfl⟩
  | visited =>
    cases h' with
    | visited => exact ⟨rfl, rfl⟩
  | unsaved hc _ ih =>
    cases h' with
    | unsaved hc' hs =>
      rw [hc] at hc'
      cases hc'
      obtain ⟨heq, rfl⟩ := ih hs
      cases heq
      exact ⟨rfl, rfl⟩
    | child hc' hs _ =>
      rw [hc] at hc'
      cases hc'
      obtain ⟨heq, -⟩ := ih hs
      cases heq
  | child hc _ _ ih ih' =>
    cases h' with
    | unsaved hc' hs =>
      rw [hc] at hc'
      cases hc'
      obtain ⟨heq, -⟩ := ih hs
      cases heq
    | child hc' hs hrest =>
      rw [hc] at hc'
      cases hc'
      obtain ⟨heq, rfl⟩ := ih hs
      cases heq
      obtain ⟨rfl, rfl⟩ := ih' hrest
      exact ⟨rfl, rfl⟩

/-! ## What every run keeps -/

theorem Runs.later (h : Runs env task w r out saves) : w.Later env.config out.world := by
  induction h with
  | unprepared hp => exact (Grows.prepare _).later hp
  | save hp _ ih => exact ((Grows.prepare _).later hp).trans ih
  | aligned => exact .refl
  | unopened ho => exact (Grows.openRelation _ _ _).later ho
  | broken ho _ ih => exact ((Grows.openRelation _ _ _).later ho).trans ih
  | relation ho _ _ ih ih' =>
    refine ((Grows.openRelation _ _ _).later ho).trans (ih.trans (World.Later.trans ?_ ih'))
    exact .of_catalog rfl
  | visited => exact .refl
  | unsaved _ _ ih => exact ih
  | child _ _ _ ih ih' => exact ih.trans ih'

end Session

/-- In a later world the maps are the same. -/
theorem World.Knows.later {config : Config} {maps : τ → Result (TableMap τ)} {w w' : World τ δ}
    (h : w.Knows config maps) (hl : w.Later config w') : w'.Knows config maps :=
  ⟨hl.sound h.sound, fun t => (hl.mapOf t).trans (h.maps t)⟩

theorem World.Knows.of {config : Config} {maps : τ → Result (TableMap τ)} {w : World τ δ}
    (h : w.Knows config maps) {t : τ} {m : TableMap τ} (hm : maps t = .ok m) : m.Of t := by
  obtain ⟨c, hc⟩ := Catalog.tableMap_of_mapOf ((h.maps t).trans hm)
  exact (h.sound.tableMap hc).1

theorem World.Knows.logged {config : Config} {maps : τ → Result (TableMap τ)} {w : World τ δ}
    (h : w.Knows config maps) (es : List Event) : (w.logged es).Knows config maps :=
  .of_catalog h rfl

/-- An edited child is put back into its record. -/
theorem Task.On.child_edited {config : Config} {maps : τ → Result (TableMap τ)} {w : World τ δ}
    {t : τ} {rel : Relation τ} {i : Nat} {is : List Nat} {r c c' : Record}
    (h : (Task.children rel (i :: is)).On maps t) (hw : w.Knows config maps)
    (hc : r.child? rel.slot i = some c) (he : Edited rel.child c c') :
    Edited t r (r.setChild rel.slot i c') := by
  obtain ⟨m, hm, hrel, -⟩ := h
  exact .child ((hw.of hm).found rel hrel) hc he

namespace Session

variable {env : Env δ} {task : Task τ} {t : τ} {w w' : World τ δ} {r r' : Record}
  {m : TableMap τ} {old : Option Record} {rel : Relation τ} {rels : List (Relation τ)}
  {places : List Nat} {es : List Event} {out out' : Ran τ δ Record Unit}
  {saves saves' : List (List Record.Step)} {maps : τ → Result (TableMap τ)}

theorem prepare_ok (h : prepare t env w r = ⟨.ok (m, old), w', r'⟩) :
    w.catalog.mapOf env.config t = .ok m := by
  obtain ⟨m', w₁, r₁, hm, h⟩ := bind_ok.1 h
  obtain ⟨old', w₂, r₂, -, h⟩ := bind_ok.1 h
  obtain ⟨-, w₃, r₃, -, h⟩ := bind_ok.1 h
  obtain ⟨heq, -, -⟩ := pure_ok.1 h
  cases heq
  obtain ⟨c, hc, -, -⟩ := tableMap_ok.1 hm
  rw [Catalog.mapOf, hc]
  rfl

theorem openChildren_ok (h : openChildren m rel old env w r = ⟨.ok (places, es), w', r'⟩) :
    places.Nodup ∧ ∀ i ∈ places, (r'.child? rel.slot i).isSome := by
  have hnone : ([], []) = (places, es) → places.Nodup ∧
      ∀ i ∈ places, (r'.child? rel.slot i).isSome := by
    rintro ⟨⟩
    exact ⟨List.nodup_nil, nofun⟩
  unfold openChildren at h
  rw [focus_bind] at h
  cases hc : r.many? rel.slot with
  | none =>
    rw [hc] at h
    exact hnone (pure_ok.1 h).1
  | some children =>
    rw [hc] at h
    obtain ⟨master, w₁, r₁, -, h⟩ := bind_ok.1 h
    cases master with
    | none => exact hnone (pure_ok.1 h).1
    | some master =>
      obtain ⟨cm, w₂, r₂, -, h⟩ := bind_ok.1 h
      obtain ⟨_, w₃, r₃, -, h⟩ := bind_ok.1 h
      rw [focus_bind] at h
      obtain ⟨_, w₄, r₄, hdel, h⟩ := bind_ok.1 h
      obtain ⟨heq, -, rfl⟩ := pure_ok.1 h
      obtain rfl : r₃ = r₄ :=
        (Still.forM (fun _ => .deleteChild _ _) _ env w₃ r₃).symm.trans (congrArg Ran.focus hdel)
      obtain ⟨rfl, -⟩ := Prod.mk.inj heq
      have hacc := accounted_childChanges rel cm (old.bind fun r => r.many? rel.slot)
        ((r₃.many? rel.slot).getD [])
      constructor
      · obtain ⟨kept, hperm, -⟩ := hacc.saves
        exact (List.nodup_append.1 (hperm.nodup_iff.2 List.nodup_range)).1
      · intro i hi
        have hlt := hacc.lt i hi
        cases hc₃ : r₃.many? rel.slot with
        | none => rw [hc₃] at hlt; cases hlt
        | some cs =>
          rw [hc₃, Option.getD_some] at hlt
          rw [Record.child_of_many hc₃, List.getElem?_eq_getElem hlt]
          rfl

/-- The children to be saved are there, each is named once, and they are in a collection
    that is written. -/
theorem openRelation_ok (h : openRelation m rel old env w r = ⟨.ok (places, es), w', r'⟩) :
    places.Nodup ∧ (∀ i ∈ places, (r'.child? rel.slot i).isSome) ∧
      (places ≠ [] → rel.kind = .oneToMany ∧ rel.spec.readOnly = false) := by
  have hnone : ([], []) = (places, es) → places.Nodup ∧
      (∀ i ∈ places, (r'.child? rel.slot i).isSome) ∧
      (places ≠ [] → rel.kind = .oneToMany ∧ rel.spec.readOnly = false) := by
    rintro ⟨⟩
    exact ⟨List.nodup_nil, nofun, fun hne => absurd rfl hne⟩
  unfold openRelation at h
  split at h
  · exact hnone (pure_ok.1 h).1
  · rename_i hro
    have hkind : rel.kind = .oneToMany ∨ rel.kind = .manyToMany := by
      cases rel.kind with
      | oneToMany => exact .inl rfl
      | manyToMany => exact .inr rfl
    rcases hkind with hk | hk
    · rw [hk] at h
      obtain ⟨hnodup, hthere⟩ := openChildren_ok h
      exact ⟨hnodup, hthere, fun _ => ⟨hk, by simpa using hro⟩⟩
    · rw [hk] at h
      obtain ⟨_, w₁, r₁, -, h⟩ := bind_ok.1 h
      exact hnone (pure_ok.1 h).1

/-- A prepared save goes on to the relations of its type. -/
theorem prepare_on (hw : w.Knows env.config maps)
    (hp : prepare t env w r = ⟨.ok (m, old), w', r'⟩) :
    (Task.relations m old m.relations).On maps t ∧ w'.Knows env.config maps ∧ Edited t r r' := by
  have hm : maps t = .ok m := (hw.maps t).symm.trans (prepare_ok hp)
  have hedit := prepare_keeps (fieldWise_edited t) env w r hw.sound
  rw [hp] at hedit
  exact ⟨⟨hm, .refl _⟩, hw.later ((Grows.prepare t).later hp), hedit⟩

/-- An open relation goes on to children of the record. -/
theorem openRelation_on (hw : w.Knows env.config maps)
    (hon : (Task.relations m old (rel :: rels)).On maps t)
    (ho : openRelation m rel old env w r = ⟨.ok (places, es), w', r'⟩) :
    (Task.children rel places).On maps t ∧ w'.Knows env.config maps ∧ Edited t r r' := by
  obtain ⟨hm, hsub⟩ := hon
  have hrel : rel ∈ m.relations := hsub.subset (by simp)
  have hedit := openRelation_edits ((hw.of hm).found rel hrel) m old env w r hw.sound
  rw [ho] at hedit
  obtain ⟨hnodup, -, hkind⟩ := openRelation_ok ho
  exact ⟨⟨m, hm, hrel, hnodup, hkind⟩, hw.later ((Grows.openRelation m rel old).later ho), hedit⟩

/-- Whatever comes of a task, its record has only been edited. -/
theorem Runs.edited (h : Runs env task w r out saves) (hw : w.Knows env.config maps)
    (hon : task.On maps t) : Edited t r out.focus := by
  induction h generalizing t with
  | @unprepared u w w' r r' e hp =>
    obtain rfl : u = t := hon
    have hedit := prepare_keeps (fieldWise_edited u) env w r hw.sound
    rwa [hp] at hedit
  | @save u m old w w₁ r r₁ out saves hp _ ih =>
    obtain rfl : u = t := hon
    obtain ⟨hrels, hw₁, hedit⟩ := prepare_on hw hp
    exact hedit.trans (ih hw₁ hrels)
  | aligned => exact .refl
  | @unopened m old rel rels w w' r r' e ho =>
    obtain ⟨hm, hsub⟩ := hon
    have hfound := (hw.of hm).found rel (hsub.subset (by simp))
    have hedit := openRelation_edits hfound m old env w r hw.sound
    rwa [ho] at hedit
  | broken ho _ ih =>
    obtain ⟨hchildren, hw₁, hedit⟩ := openRelation_on hw hon ho
    exact hedit.trans (ih hw₁ hchildren)
  | relation ho hcs _ ih ih' =>
    obtain ⟨hchildren, hw₁, hedit⟩ := openRelation_on hw hon ho
    have hrest := ih' ((hw₁.later hcs.later).logged _) hon.otherRelations
    exact (hedit.trans (ih hw₁ hchildren)).trans hrest
  | visited => exact .refl
  | unsaved hc _ ih => exact hon.child_edited hw hc (ih hw rfl)
  | child hc hs _ ih ih' =>
    exact (hon.child_edited hw hc (ih hw rfl)).trans (ih' (hw.later hs.later) hon.otherPlaces)

/-- No record is saved twice, and only records that can be reached are. -/
theorem Runs.once (hτ : Model.Sound τ) (h : Runs env task w r out saves)
    (hw : w.Knows env.config maps) (hon : task.On maps t) : task.SavesOnce maps t r saves := by
  have hmaps : ∀ t m, maps t = .ok m → m.Of t := fun _ _ hm => hw.of hm
  induction h generalizing t with
  | unprepared => exact .nil
  | @save u m old w w₁ r r₁ out saves hp _ ih =>
    obtain rfl : u = t := hon
    obtain ⟨hrels, hw₁, hedit⟩ := prepare_on hw hp
    exact (ih hw₁ hrels).before hτ hmaps hedit fun _ _ => trivial
  | aligned => exact .nil
  | unopened => exact .nil
  | @broken m old rel rels places es w w₁ w' r r₁ r' e saves ho _ ih =>
    obtain ⟨hchildren, hw₁, hedit⟩ := openRelation_on hw hon ho
    refine (ih hw₁ hchildren).before hτ hmaps hedit ?_
    rintro step ⟨i, -, rfl⟩
    exact ⟨rel, by simp, i, rfl⟩
  | @relation m old rel rels places es w w₁ w₂ r r₁ r₂ out saves saves' ho hcs _ ih ih' =>
    obtain ⟨hchildren, hw₁, hedit⟩ := openRelation_on hw hon ho
    have hw₂ := (hw₁.later hcs.later).logged es
    have hedits := hedit.trans (hcs.edited hw₁ hchildren)
    refine ((ih hw₁ hchildren).before hτ hmaps hedit fun _ hs => hs).append
      ((ih' hw₂ hon.otherRelations).before hτ hmaps hedits fun _ hs => hs) ?_ ?_
    · -- Different relations lead to different collections.
      obtain ⟨hm, hsub⟩ := hon
      rintro step ⟨i, -, rfl⟩ ⟨rel', hrel', j, heq⟩
      obtain ⟨hslot, -⟩ := Record.Step.child.inj heq
      exact (List.pairwise_cons.1 (((hw.of hm).apart hτ).sublist hsub)).1 rel' hrel' hslot
    · rintro step (⟨i, -, rfl⟩ | ⟨rel', hrel', i, rfl⟩)
      · exact ⟨rel, by simp, i, rfl⟩
      · exact ⟨rel', by simp [hrel'], i, rfl⟩
  | visited => exact .nil
  | @unsaved rel i is w w' r c c' e saves hc _ ih =>
    refine ((ih hw rfl).under hon hc).before hτ hmaps .refl ?_
    rintro step ⟨j, hj, rfl⟩
    exact ⟨j, by simp_all, rfl⟩
  | @child rel i is w w₁ r c c' out saves saves' hc hs _ ih ih' =>
    have hedit := hon.child_edited hw hc (hs.edited hw rfl)
    have hrest := ih' (hw.later hs.later) hon.otherPlaces
    refine ((ih hw rfl).under hon hc).append (hrest.before hτ hmaps hedit fun _ hs => hs) ?_ ?_
    · -- The child is in none of the other places.
      obtain ⟨-, -, -, hnodup, -⟩ := hon
      rintro step ⟨j, hj, rfl⟩ ⟨k, hk, heq⟩
      obtain ⟨-, rfl⟩ := Record.Step.child.inj heq
      rw [List.mem_singleton] at hj
      exact (List.nodup_cons.1 hnodup).1 (hj ▸ hk)
    · rintro step (⟨j, hj, rfl⟩ | ⟨j, hj, rfl⟩)
      · exact ⟨j, by simp_all, rfl⟩
      · exact ⟨j, by simp [hj], rfl⟩

/-! ## Saves end -/

variable {n : Nat} {saveChild : τ → Session τ δ Record Unit}

/-- Saves of records that are less deep than `n` have runs. -/
def RunsBelow (env : Env δ) (n : Nat) (saveChild : τ → Session τ δ Record Unit) : Prop :=
  ∀ t w r, r.depth < n → w.catalog.Sound env.config →
    ∃ saves, Runs env (.save t) w r (saveChild t env w r) saves

omit [Model τ] [DecidableEq τ] in
theorem child_setChild_isSome {slot i j : Nat} {c : Record} :
    ((r.setChild slot i c).child? slot j).isSome = (r.child? slot j).isSome := by
  unfold Record.setChild
  cases hrs : r.many? slot with
  | none => rfl
  | some rs =>
    rw [Record.child_of_many hrs, Record.child_of_many (Record.many_setSlot hrs), Bool.eq_iff_iff]
    simp only [isSome_getElem?, List.length_set]

theorem RunsBelow.children (hs : RunsBelow env n saveChild) (hτ : Model.Sound τ)
    (hw : w.Knows env.config maps) (hon : (Task.children rel places).On maps t)
    (hthere : ∀ i ∈ places, (r.child? rel.slot i).isSome) (hd : r.depth ≤ n) :
    ∃ saves, Runs env (.children rel places) w r (saveAll saveChild rel places env w r) saves := by
  induction places generalizing w r with
  | nil => exact ⟨[], .visited⟩
  | cons i is ih =>
    obtain ⟨c, hc⟩ := Option.isSome_iff_exists.1 (hthere i (by simp))
    obtain ⟨cs, hcs, hi⟩ := Option.bind_eq_some_iff.1 hc
    have hlt := Record.depth_lt_of_many hcs (List.mem_of_getElem? hi)
    obtain ⟨saves, hrun⟩ := hs rel.child w c (Nat.lt_of_lt_of_le hlt hd) hw.sound
    have hedit := hon.child_edited hw hc (hrun.edited hw rfl)
    have hw₁ := hw.later hrun.later
    unfold saveAll
    rw [forM_cons_run]
    simp only [onChild, hc]
    rcases hout : saveChild rel.child env w c with ⟨e | _, w₁, c'⟩
    · rw [hout] at hrun
      exact ⟨_, .unsaved hc hrun⟩
    · rw [hout] at hrun hedit hw₁
      obtain ⟨saves', hrest⟩ := ih hw₁ hon.otherPlaces
        (fun j hj => child_setChild_isSome.trans (hthere j (by simp [hj])))
        (Nat.le_trans (hedit.depth hτ) hd)
      exact ⟨_, .child hc hrun hrest⟩

omit [Model τ] [DecidableEq τ] in
theorem emitAll_run (es : List Event) :
    (es.forM emit : Session τ δ Record Unit) env w r = ⟨.ok (), w.logged es, r⟩ := by
  induction es generalizing w with
  | nil => rw [World.logged_nil]; rfl
  | cons e es ih =>
    rw [forM_cons_run, emit_run]
    simp only [ih, World.logged_logged, List.singleton_append]

theorem RunsBelow.relations (hs : RunsBelow env n saveChild) (hτ : Model.Sound τ)
    (hw : w.Knows env.config maps) (hon : (Task.relations m old rels).On maps t)
    (hd : r.depth ≤ n) :
    ∃ saves, Runs env (.relations m old rels) w r
      (rels.forM (fun rel => synchronize saveChild m rel old) env w r) saves := by
  induction rels generalizing w r with
  | nil => exact ⟨[], .aligned⟩
  | cons rel rels ih =>
    rw [forM_cons_run, synchronize_eq, bind_run]
    rcases ho : openRelation m rel old env w r with ⟨e | ⟨places, es⟩, w₁, r₁⟩
    · exact ⟨_, .unopened ho⟩
    · obtain ⟨hchildren, hw₁, hopen⟩ := openRelation_on hw hon ho
      obtain ⟨-, hthere, -⟩ := openRelation_ok ho
      have hd₁ := Nat.le_trans (hopen.depth hτ) hd
      obtain ⟨saves, hrun⟩ := hs.children hτ hw₁ hchildren hthere hd₁
      have hedit := hrun.edited hw₁ hchildren
      have hw₂ := hw₁.later hrun.later
      simp only [bind_run]
      rcases hout : saveAll saveChild rel places env w₁ r₁ with ⟨e | _, w₂, r₂⟩
      · rw [hout] at hrun
        exact ⟨_, .broken ho hrun⟩
      · rw [hout] at hrun hedit hw₂
        obtain ⟨saves', hrest⟩ := ih (hw₂.logged es) hon.otherRelations
          (Nat.le_trans (hedit.depth hτ) hd₁)
        simp only [emitAll_run]
        exact ⟨_, .relation ho hrun hrest⟩

theorem RunsBelow.saveUsing (hs : RunsBelow env n saveChild) (hτ : Model.Sound τ)
    (hw : w.catalog.Sound env.config) (hd : r.depth ≤ n) :
    ∃ saves, Runs env (.save t) w r (saveUsing saveChild t env w r) saves := by
  have hknows : w.Knows env.config (w.catalog.mapOf env.config) := ⟨hw, fun _ => rfl⟩
  rw [saveUsing_eq, bind_run]
  rcases hp : prepare t env w r with ⟨e | ⟨m, old⟩, w₁, r₁⟩
  · exact ⟨_, .unprepared hp⟩
  · obtain ⟨hon, hw₁, hedit⟩ := prepare_on hknows hp
    obtain ⟨saves, hrun⟩ := hs.relations hτ hw₁ hon (Nat.le_trans (hedit.depth hτ) hd)
    exact ⟨saves, .save hp hrun⟩

/-- The levels of a record are enough for its save. -/
theorem runs_saveLevels (hτ : Model.Sound τ) (hw : w.catalog.Sound env.config)
    (hd : r.depth ≤ n) : ∃ saves, Runs env (.save t) w r (saveLevels n t env w r) saves := by
  induction n generalizing t w r with
  | zero =>
    have hs : RunsBelow env 0 (fun _ : τ => (pure () : Session τ δ Record Unit)) :=
      fun _ _ _ hlt _ => absurd hlt (Nat.not_lt_zero _)
    exact hs.saveUsing hτ hw hd
  | succ n ih =>
    have hs : RunsBelow env (n + 1) (saveLevels n : τ → Session τ δ Record Unit) :=
      fun _ _ _ hlt hw => ih hw (Nat.lt_succ_iff.1 hlt)
    exact hs.saveUsing hτ hw hd

/-- Every save has a run, whatever is answered. -/
theorem runs_save (hτ : Model.Sound τ) (hw : w.catalog.Sound env.config) (r : Record) :
    ∃ saves, Runs env (.save t) w r (save t env w r) saves :=
  runs_saveLevels hτ hw (Nat.le_refl _)

/-- A save saves the children by saves of their own, however deep they are. -/
theorem save_eq (hτ : Model.Sound τ) (hw : w.catalog.Sound env.config) (r : Record) :
    save t env w r = saveUsing save t env w r := by
  have hs : RunsBelow env r.depth (save : τ → Session τ δ Record Unit) :=
    fun _ _ r _ hw => runs_save hτ hw r
  obtain ⟨_, hrun⟩ := runs_save (t := t) hτ hw r
  obtain ⟨_, hrun'⟩ := hs.saveUsing (t := t) hτ hw (Nat.le_refl _)
  exact (hrun.unique hrun').1

end Session

end RecordGraph
