/-
  Saves that leave a relation out.

  `saveWithout` saves a record as if its map had no relation to a collection.  It goes side by
  side with the save that has the relation: what the one does besides reading the relation,
  the other does as well, in a world that is alike.

  * `loads_alike`, `storedRecord_alike`: the stored record is read with the relation or
    without, and has the same in the other collections.
  * `synchronizeAll_alike`: an inert relation is passed over.
  * `save_inert` is the main result.
-/
import RecordGraph.Proofs.Session.Alike
import RecordGraph.Proofs.Session.Inert
import RecordGraph.Proofs.Session.SaveRuns

namespace RecordGraph

variable {τ δ σ ω : Type} [Model τ]

/-- The map without the relation to a collection. -/
def TableMap.without (m : TableMap τ) (property : String) : TableMap τ :=
  { m with relations := m.relations.filter fun rel => rel.spec.property != property }

variable [DecidableEq τ]

namespace Session

/-! ## Leaving out a relation -/

/-- Saves the record in focus by a map. -/
def saveMapped (saveChild : τ → Session τ δ Record Unit) (m : TableMap τ) :
    Session τ δ Record Unit := do
  let old ← writeRow m
  reloadOf m
  m.relations.forM fun rel => synchronize saveChild m rel old

/-- Saves the record in focus as if its map had no relation to the collection.  The children
    of the others are saved as ever. -/
def saveWithout (property : String) (t : τ) : Session τ δ Record Unit := do
  saveMapped save ((← tableMap t).without property)

theorem saveUsing_mapped (saveChild : τ → Session τ δ Record Unit) (t : τ) :
    saveUsing saveChild t = (do saveMapped saveChild (← tableMap t)) := rfl

/-! ## Reading a relation -/

/-- The children that are read for a key, if there is one. -/
def childrenUnder (m : TableMap τ) (rel : Relation τ) :
    Option Value → Session τ δ σ (Option (List Record))
  | none => return none
  | some master => do
    let rows ← query (← m.relationRead (← config).dialect rel.spec master)
    let children ← mapRows rel.child rows
    match rel.kind with
    | .oneToMany => return some ((rows.zip children).map Prod.snd)
    | .manyToMany => do
      let property := linkProperty rel.spec (← tableMap rel.child)
      return some (← (rows.zip children).mapM fun e => withLinkKey rel property e.1 e.2)

/-- Only the key depends on the record in focus. -/
theorem loadRelation_eq (m : TableMap τ) (rel : Relation τ) :
    loadRelation m rel = (do
      match ← childrenUnder m rel (← masterValue m rel.spec) with
      | none => pure ()
      | some children => setFocus ((← focus).setSlot rel.slot (.many (some children))) :
      Session τ δ Record Unit) := by
  unfold loadRelation readChildren childrenUnder
  simp only [bind_assoc]
  congr 1
  funext master
  cases master with
  | none => rfl
  | some master =>
    cases rel.kind <;> simp only [bind_assoc, pure_bind]

theorem Grows.childrenUnder (m : TableMap τ) (rel : Relation τ) (master : Option Value) :
    Grows (childrenUnder m rel master : Session τ δ σ _) := by
  cases master with
  | none => exact .pure _
  | some master =>
    refine .bind .config fun _ => .bind (.lift _) fun _ => .bind (.query _) fun _ =>
      .bind (.mapRows _ _) fun _ => ?_
    split
    · exact .pure _
    · exact .bind (.tableMap _) fun _ => .bind (.mapM (fun _ => .withLinkKey _ _ _ _) _) fun _ =>
        .pure _

omit [DecidableEq τ] in
theorem Blind.withLinkKey (rel : Relation τ) (property : String) (row : Row) (child : Record) :
    Blind (withLinkKey rel property row child : Session τ δ σ _) := by
  unfold Session.withLinkKey
  split
  · exact .pure _
  · split
    · exact .pure _
    · refine .bind (.lift _) fun write => ?_
      split
      · exact .pure _
      · exact .bind (.emit _) fun _ => .pure _

theorem Blind.childrenUnder (m : TableMap τ) (rel : Relation τ) (master : Option Value) :
    Blind (childrenUnder m rel master : Session τ δ σ _) := by
  cases master with
  | none => exact .pure _
  | some master =>
    refine .bind .config fun _ => .bind (.lift _) fun _ => .bind (.query _) fun _ =>
      .bind (.mapRows _ _) fun _ => ?_
    split
    · exact .pure _
    · exact .bind (.tableMap _) fun _ => .bind (.mapM (fun _ => .withLinkKey _ _ _ _) _) fun _ =>
        .pure _

variable {env : Env δ} {seen : δ → ω} {w₀ w w' v : World τ δ} {x x' r : Record} {t : τ}
  {m : TableMap τ} {a rel : Relation τ} {rels : List (Relation τ)}

/-- Another relation is read in the same way, whatever the collection holds. -/
theorem loadRelation_alike (he : env.executor.ByWrites seen)
    (hw₀ : w₀.catalog.Sound env.config) (hw : World.Alike env.config seen w₀ w w')
    (ha : a.slot ≠ rel.slot) (hkey : m.KeyIgnores a rel.slot) (hx : Beside rel.slot x x') :
    Ran.Alike env.config seen w₀ Eq (Beside rel.slot)
      (loadRelation m a env w x) (loadRelation m a env w' x') := by
  obtain ⟨ds, hd⟩ := masterValue_run env m a.spec w x
  obtain ⟨ds', hd'⟩ := masterValue_run env m a.spec w' x'
  rw [loadRelation_eq, bind_run, bind_run, hd, hd', hkey.beside hx]
  have hread := (Blind.childrenUnder m a (masterKey m a.spec x)).alike (.childrenUnder _ _ _) he
    hw₀ (hw.toldAll ds ds') hx
  refine Alike.bind hread ?_
  rintro children _ v v' y y' - - rfl hy hv
  cases children with
  | none => exact ⟨.ok rfl, hy, hv⟩
  | some children => exact ⟨.ok rfl, hy.setSlot ha.symm _, hv⟩

/-- Every read of the relation gives records, when the relations are read one after the
    other. -/
def LoadsWell (env : Env δ) (m : TableMap τ) (rel : Relation τ) (rels : List (Relation τ))
    (w : World τ δ) (x : Record) : Prop :=
  ∀ before after w₁ x₁, rels = before ++ rel :: after →
    before.forM (loadRelation m) env w x = ⟨.ok (), w₁, x₁⟩ →
    (loadRelation m rel env w₁ x₁).result = .ok ()

theorem LoadsWell.head (h : LoadsWell env m rel (rel :: rels) w x) :
    (loadRelation m rel env w x).result = .ok () := h [] rels w x rfl rfl

theorem LoadsWell.tail {w₁ : World τ δ} {x₁ : Record} (h : LoadsWell env m rel (a :: rels) w x)
    (ha : loadRelation m a env w x = ⟨.ok (), w₁, x₁⟩) : LoadsWell env m rel rels w₁ x₁ := by
  rintro before after w₂ x₂ rfl hbefore
  refine h (a :: before) after w₂ x₂ rfl ?_
  exact forM_cons_ok.2 ⟨w₁, x₁, ha, hbefore⟩

/-- To read a relation changes no more than its collection. -/
theorem loadRelation_beside (m : TableMap τ) (rel : Relation τ) :
    Keeps (Beside rel.slot) (loadRelation m rel : Session τ δ Record Unit) := by
  have hch := chained_beside rel.slot
  rw [loadRelation_eq]
  refine .after hch (.masterValue m rel.spec) (.masterValue m rel.spec) fun master => ?_
  refine .after hch (Blind.childrenUnder m rel master).still (.childrenUnder _ _ _)
    fun children => ?_
  cases children with
  | none => exact .of_still hch (.pure ())
  | some children => exact fun _ _ r _ => .set r _

theorem loadRelation_quiet (he : env.executor.ByWrites seen) (hw : w.catalog.Sound env.config)
    (m : TableMap τ) (rel : Relation τ) (x : Record) :
    (loadRelation m rel env w x).world.writes = w.writes ∧
      seen (loadRelation m rel env w x).world.database = seen w.database := by
  have hfollows : Follows env (w.catalog.mapOf env.config) _ _ (loadRelation m rel) w x :=
    loadRelation_follows
  exact hfollows.quiet (readSteps_atMost ⟨rfl, rfl, rfl⟩ rel x) ⟨hw, fun _ => rfl⟩ he

/-- If the relation reads well, the others are read as if it were not there. -/
theorem loads_alike (hτ : Model.Sound τ) (hm : m.Of t) (hrel : rel ∈ m.relations)
    (hneed : m.Unneeded rel) (he : env.executor.ByWrites seen)
    (hw₀ : w₀.catalog.Sound env.config) (hrels : rels ⊆ m.relations)
    (hw : World.Alike env.config seen w₀ w w') (hx : Beside rel.slot x x')
    (hread : LoadsWell env m rel rels w' x') :
    Ran.Alike env.config seen w₀ Eq (Beside rel.slot)
      ((rels.filter fun a => a.spec.property != rel.spec.property).forM (loadRelation m) env w x)
      (rels.forM (loadRelation m) env w' x') := by
  induction rels generalizing w w' x x' with
  | nil => exact ⟨.ok rfl, hx, hw⟩
  | cons a rels ih =>
    obtain ⟨ha, hrels⟩ := List.cons_subset.1 hrels
    by_cases h : a.spec.property = rel.spec.property
    · obtain rfl := hm.eq_of_property ha hrel h
      rw [List.filter_cons_of_neg (by simp)]
      -- The reads of the relation itself are not writes.
      have hw' := hw.later'.sound hw₀
      have hl := (Grows.loadRelation m a).world env w' x'
      have hq := loadRelation_quiet he hw' m a x'
      have hb := loadRelation_beside m a env w' x' hw'
      have hok := hread.head
      rcases hr : loadRelation m a env w' x' with ⟨result, w₁, x₁⟩
      rw [hr] at hl hq hb hok
      obtain rfl : result = .ok () := hok
      exact Alike.after hr (ih hrels (hw.quiet hl hq) (hx.trans hb) (hread.tail hr))
    · rw [List.filter_cons_of_pos (by simpa using h)]
      have hslot := hm.slot_ne hτ ha hrel h
      refine Alike.bind (loadRelation_alike he hw₀ hw hslot (hneed a ha hslot) hx) ?_
      rintro _ _ v v' y y' - hr' - hy hv
      exact ih hrels hv hy (hread.tail hr')

/-! ## The stored record -/

/-- The records have the same in the other collections. -/
def SameElsewhere (m : TableMap τ) (rel : Relation τ) (old old' : Option Record) : Prop :=
  ∀ a ∈ m.relations, a.slot ≠ rel.slot →
    (old.bind fun r => r.many? a.slot) = old'.bind fun r => r.many? a.slot

omit [Model τ] [DecidableEq τ] in
theorem Beside.sameElsewhere (h : Beside rel.slot x x') (m : TableMap τ) :
    SameElsewhere m rel (some x) (some x') :=
  fun _ _ hslot => (h.many hslot.symm).symm

/-- The row is mapped without error, and so are the rows of the relation. -/
def RowReadsWell (env : Env δ) (m : TableMap τ) (rel : Relation τ) (row : Row) (w : World τ δ)
    (r : Record) : Prop :=
  ∃ stored w₁, mapRow m.owner row env w r = ⟨.ok stored, w₁, r⟩ ∧
    LoadsWell env m rel m.relations w₁ stored

theorem mapRow_quiet (he : env.executor.ByWrites seen) (hw : w.catalog.Sound env.config)
    (row : Row) (r : Record) :
    (mapRow t row env w r).world.writes = w.writes ∧
      seen (mapRow t row env w r).world.database = seen w.database := by
  have hfollows : Follows env (w.catalog.mapOf env.config) _ _ (mapRow t row) w r :=
    Follows.mapRow t row
  exact hfollows.quiet (.mayGive _) ⟨hw, fun _ => rfl⟩ he

theorem storedRecord_eq (hsome : m.relations ≠ []) (row : Row) :
    (storedRecord m row : Session τ δ σ (Option Record)) = (do
      let r ← mapRow m.owner row
      let (_, r') ← onOther r (loadRelationsOf m)
      return some r') := by
  unfold storedRecord
  rw [if_neg (by simpa using hsome)]

theorem storedRecord_none (hnone : m.relations = []) (row : Row) :
    (storedRecord m row : Session τ δ σ (Option Record)) = pure none := by
  unfold storedRecord
  rw [if_pos (by simpa using hnone)]

theorem storedRecord_alike (hτ : Model.Sound τ) (hm : m.Of t) (hrel : rel ∈ m.relations)
    (hneed : m.Unneeded rel) (he : env.executor.ByWrites seen)
    (hw₀ : w₀.catalog.Sound env.config) (hw : World.Alike env.config seen w₀ w w') {row : Row}
    (hread : RowReadsWell env m rel row w' r) :
    Ran.Alike env.config seen w₀ (SameElsewhere m rel) Eq
      (storedRecord (m.without rel.spec.property) row env w r) (storedRecord m row env w' r) := by
  obtain ⟨stored, w₁, hmap, hloads⟩ := hread
  have hloads {v : World τ δ} (hv : World.Alike env.config seen w₀ v w₁) :
      Ran.Alike env.config seen w₀ Eq (Beside rel.slot)
        (loadRelationsOf (m.without rel.spec.property) env v stored)
        (loadRelationsOf m env w₁ stored) := by
    have h := loads_alike hτ hm hrel hneed he hw₀ (List.Subset.refl _) hv (.refl stored) hloads
    exact h
  rw [storedRecord_eq (List.ne_nil_of_mem hrel)]
  by_cases hnone : (m.without rel.spec.property).relations = []
  · -- Without other relations nothing is read, but the row is mapped for the one there is.
    rw [storedRecord_none hnone]
    have hl := (Grows.mapRow m.owner row).world env w' r
    have hq := mapRow_quiet (t := m.owner) he (hw.later'.sound hw₀) row r
    rw [hmap] at hl hq
    have h := Alike.onOther (hloads (hw.quiet hl hq)) (x := r) (S := Eq) rfl
    unfold loadRelationsOf at h
    rw [hnone] at h
    have hleft : (pure none : Session τ δ Record (Option Record)) =
        (onOther stored (([] : List (Relation τ)).forM
          (loadRelation (m.without rel.spec.property))) >>= fun _ => pure none) := rfl
    rw [hleft]
    refine Alike.after hmap (Alike.bind h ?_)
    rintro _ _ v v' y _ - - - rfl hv
    refine ⟨.ok fun a ha hslot => ?_, rfl, hv⟩
    have hfilter := List.filter_eq_nil_iff.1 hnone a ha
    have hproperty : a.spec.property = rel.spec.property := by simpa using hfilter
    exact absurd (congrArg Relation.slot (hm.eq_of_property ha hrel hproperty)) hslot
  · rw [storedRecord_eq hnone]
    refine Alike.bind ((Grows.mapRow m.owner row).alike he hw₀ hw r) ?_
    rintro c _ v v' y _ - hr rfl rfl hv
    rw [hmap] at hr
    cases hr
    refine Alike.bind (Alike.onOther (hloads hv) rfl) ?_
    rintro ⟨_, c⟩ ⟨_, c'⟩ u u' z _ - - ⟨-, hc⟩ rfl hu
    exact ⟨.ok (Beside.sameElsewhere hc m), rfl, hu⟩

/-- If there is a stored row, it reads well, unless the save breaks off before. -/
def ReadsWell (env : Env δ) (m : TableMap τ) (rel : Relation τ) (w : World τ δ)
    (r : Record) : Prop :=
  ∀ row w₁ w₂ r₁ r₂, storedRow m env w r = ⟨.ok (some row), w₁, r₁⟩ →
    updateRow m row env w₁ r₁ = ⟨.ok (), w₂, r₂⟩ → RowReadsWell env m rel row w₂ r₂

theorem writeRow_alike (hτ : Model.Sound τ) (hm : m.Of t) (hrel : rel ∈ m.relations)
    (hneed : m.Unneeded rel) (he : env.executor.ByWrites seen)
    (hw₀ : w₀.catalog.Sound env.config) (hw : World.Alike env.config seen w₀ w w')
    (hread : ReadsWell env m rel w' r) :
    Ran.Alike env.config seen w₀ (SameElsewhere m rel) Eq
      (writeRow (m.without rel.spec.property) env w r) (writeRow m env w' r) := by
  refine Alike.bind ((Grows.storedRow m).alike he hw₀ hw r) ?_
  rintro stored _ v v' r₁ _ - hstored rfl rfl hv
  cases stored with
  | none =>
    refine Alike.bind ((Grows.insertRow m).alike he hw₀ hv r₁) ?_
    rintro _ _ u u' r₂ _ - - - rfl hu
    exact ⟨.ok fun _ _ _ => rfl, rfl, hu⟩
  | some row =>
    refine Alike.bind ((Grows.updateRow m row).alike he hw₀ hv r₁) ?_
    rintro _ _ u u' r₂ _ - hupdate - rfl hu
    exact storedRecord_alike hτ hm hrel hneed he hw₀ hu (hread row v' u' r₁ r₂ hstored hupdate)

/-! ## The relations -/

variable {saveChild : τ → Session τ δ Record Unit} {old old' : Option Record}

/-- An inert relation is passed over. -/
theorem synchronizeAll_alike (hτ : Model.Sound τ) (hm : m.Of t) (hrel : rel ∈ m.relations)
    (hs : ∀ t, Grows (saveChild t)) (he : env.executor.ByWrites seen)
    (hw₀ : w₀.catalog.Sound env.config) (hrels : rels ⊆ m.relations)
    (hold : SameElsewhere m rel old old') (hw : World.Alike env.config seen w₀ w w')
    (hinert : Inert m rel r) :
    Ran.Alike env.config seen w₀ Eq Eq
      ((rels.filter fun a => a.spec.property != rel.spec.property).forM
        (fun a => synchronize saveChild m a old) env w r)
      (rels.forM (fun a => synchronize saveChild m a old') env w' r) := by
  induction rels generalizing w w' r with
  | nil =>
    simp only [List.filter_nil, List.forM_eq_forM, List.forM_nil]
    exact ⟨.ok rfl, rfl, hw⟩
  | cons a rels ih =>
    obtain ⟨ha, hrels⟩ := List.cons_subset.1 hrels
    by_cases h : a.spec.property = rel.spec.property
    · obtain rfl := hm.eq_of_property ha hrel h
      rw [List.filter_cons_of_neg (by simp)]
      have hrun : ∃ ds, synchronize saveChild m a old' env w' r =
          ⟨.ok (), w'.toldAll env.config ds, r⟩ := synchronize_inert saveChild old' hinert
      obtain ⟨ds, hrun⟩ := hrun
      refine Alike.after hrun (ih hrels ?_ hinert)
      exact hw.toldAll [] ds
    · rw [List.filter_cons_of_pos (by simpa using h)]
      have hslot := hm.slot_ne hτ ha hrel h
      have hkept := synchronize_staysInert hτ hm hs hrel ha old' env w' r (hw.later'.sound hw₀)
        hinert
      have hsame : (synchronize saveChild m a old : Session τ δ Record Unit) =
          synchronize saveChild m a old' := synchronize_congr (hold a ha hslot)
      simp only [List.forM_eq_forM, List.forM_cons, hsame]
      refine Alike.bind ((Grows.synchronize hs m a old').alike he hw₀ hw r) ?_
      rintro _ _ v v' r₁ _ - hr' - rfl hv
      rw [hr'] at hkept
      exact ih hrels hv hkept.2

/-! ## Saves -/

/-- The relation is inert once the row is written and read back. -/
def InertAfter (env : Env δ) (m : TableMap τ) (rel : Relation τ) (w : World τ δ) (r : Record) :
    Prop :=
  ∀ old w₁ w₂ r₁ r₂, writeRow m env w r = ⟨.ok old, w₁, r₁⟩ →
    reloadOf m env w₁ r₁ = ⟨.ok (), w₂, r₂⟩ → Inert m rel r₂

theorem saveMapped_alike (hτ : Model.Sound τ) (hm : m.Of t) (hrel : rel ∈ m.relations)
    (hs : ∀ t, Grows (saveChild t)) (hneed : m.Unneeded rel) (he : env.executor.ByWrites seen)
    (hw₀ : w₀.catalog.Sound env.config) (hw : World.Alike env.config seen w₀ w w')
    (hread : ReadsWell env m rel w' r) (hinert : InertAfter env m rel w' r) :
    Ran.Alike env.config seen w₀ Eq Eq
      (saveMapped saveChild (m.without rel.spec.property) env w r)
      (saveMapped saveChild m env w' r) := by
  refine Alike.bind (writeRow_alike hτ hm hrel hneed he hw₀ hw hread) ?_
  rintro old old' v v' r₁ _ - hwrite hold rfl hv
  refine Alike.bind ((Grows.reloadOf m).alike he hw₀ hv r₁) ?_
  rintro _ _ u u' r₂ _ - hreload - rfl hu
  have h := synchronizeAll_alike hτ hm hrel hs he hw₀ (List.Subset.refl _) hold hu
    (hinert old' v' u' r₁ r₂ hwrite hreload)
  exact h

/-- After an update, the save goes on with the stored record. -/
theorem saveMapped_stored {row : Row} {w₁ w₂ : World τ δ} {r₁ r₂ : Record}
    (hstored : storedRow m env w r = ⟨.ok (some row), w₁, r₁⟩)
    (hupdate : updateRow m row env w₁ r₁ = ⟨.ok (), w₂, r₂⟩) :
    saveMapped saveChild m env w r = (do
      let old ← storedRecord m row
      reloadOf m
      m.relations.forM fun rel => synchronize saveChild m rel old) env w₂ r₂ := by
  unfold saveMapped writeRow
  rw [bind_assoc, bind_run, hstored]
  dsimp only
  rw [bind_assoc, bind_run, hupdate]

theorem loadsWell_of_ok {w₁ : World τ δ} {x₁ : Record}
    (h : rels.forM (loadRelation m) env w x = ⟨.ok (), w₁, x₁⟩) :
    LoadsWell env m rel rels w x := by
  induction rels generalizing w x with
  | nil =>
    intro before after w₂ x₂ heq
    simp at heq
  | cons a rels ih =>
    obtain ⟨w₂, x₂, ha, hrest⟩ := forM_cons_ok.1 h
    rintro (_ | ⟨b, before⟩) after w₃ x₃ heq hbefore
    · cases heq
      obtain ⟨rfl, rfl⟩ := forM_nil_ok.1 hbefore
      rw [ha]
    · cases heq
      obtain ⟨w₄, x₄, hb, hbefore⟩ := forM_cons_ok.1 hbefore
      rw [ha] at hb
      cases hb
      exact ih hrest before after w₃ x₃ rfl hbefore

/-- A stored record that is there has been read well. -/
theorem rowReadsWell_of_ok (hrel : rel ∈ m.relations) {row : Row} {old : Option Record}
    {w₁ : World τ δ} {r₁ : Record} (h : storedRecord m row env w r = ⟨.ok old, w₁, r₁⟩) :
    RowReadsWell env m rel row w r := by
  rw [storedRecord_eq (List.ne_nil_of_mem hrel)] at h
  obtain ⟨stored, w₂, r₂, hmap, h⟩ := bind_ok.1 h
  obtain ⟨⟨_, c⟩, w₃, r₃, hloads, -⟩ := bind_ok.1 h
  have hstill : Still (mapRow m.owner row : Session τ δ Record Record) :=
    .bind (.onOther _ _) fun _ => .pure _
  obtain rfl : r₂ = r := (congrArg Ran.focus hmap).symm.trans (hstill env w r)
  obtain ⟨hloads, -⟩ := onOther_ok.1 hloads
  exact ⟨stored, w₂, hmap, loadsWell_of_ok hloads⟩

/-- A row that is written without error has been read well. -/
theorem readsWell_of_ok (hrel : rel ∈ m.relations)
    (h : (writeRow m env w r).result.isOk = true) : ReadsWell env m rel w r := by
  intro row w₁ w₂ r₁ r₂ hstored hupdate
  unfold writeRow at h
  rw [bind_run, hstored] at h
  dsimp only at h
  rw [bind_run, hupdate] at h
  dsimp only at h
  rcases hr : storedRecord m row env w₂ r₂ with ⟨e | old, w₃, r₃⟩
  · rw [hr] at h
    cases h
  · exact rowReadsWell_of_ok hrel hr

/-- If the relation does not read well, the save breaks off before it writes more than the
    save that leaves it out. -/
theorem saveMapped_writes (hrel : rel ∈ m.relations) (hs : ∀ t, Grows (saveChild t))
    (he : env.executor.ByWrites seen) (hw : w.catalog.Sound env.config)
    (hread : ¬ ReadsWell env m rel w r) :
    (saveMapped saveChild m env w r).world.writes <+:
      (saveMapped saveChild (m.without rel.spec.property) env w r).world.writes := by
  unfold ReadsWell at hread
  push Not at hread
  obtain ⟨row, w₁, w₂, r₁, r₂, hstored, hupdate, hnot⟩ := hread
  have hw₂ := ((Grows.updateRow m row).later hupdate).sound
    (((Grows.storedRow m).later hstored).sound hw)
  have hfollows : Follows env (w₂.catalog.mapOf env.config) _ _ (storedRecord m row) w₂ r₂ :=
    storedRecord_follows
  obtain ⟨hq, -⟩ := hfollows.quiet (storedSteps_atMost ⟨rfl, rfl, rfl⟩ row) ⟨hw₂, fun _ => rfl⟩ he
  have hleft : saveMapped saveChild (m.without rel.spec.property) env w r = _ :=
    saveMapped_stored hstored hupdate
  rw [saveMapped_stored hstored hupdate, bind_run, hleft]
  rcases hr : storedRecord m row env w₂ r₂ with ⟨e | old, w₃, r₃⟩
  · rw [hr] at hq
    have hgrows := Grows.bind (.storedRecord (m.without rel.spec.property) row) fun old =>
      .bind (.reloadOf (m.without rel.spec.property)) fun _ =>
        .forM (fun a => .synchronize hs (m.without rel.spec.property) a old)
          (m.without rel.spec.property).relations
    have hwrites := hgrows.writes env w₂ r₂
    rw [← hq] at hwrites
    exact hwrites
  · exact absurd (rowReadsWell_of_ok hrel hr) hnot

/-! ## Main result -/

theorem Grows.save (t : τ) : Grows (save t : Session τ δ Record Unit) :=
  .bind .focus fun r => .saveLevels r.depth t

theorem many_prepare (hτ : Model.Sound τ) (hm : m.Of t) (hrel : rel ∈ m.relations)
    (hw : w.catalog.Sound env.config) :
    (prepare t env w r).focus.many? rel.slot = r.many? rel.slot :=
  (prepare_keeps (fieldWise_written hτ t) env w r hw).many _ _ (hm.shape hτ rel hrel)

/-- The collection of an inert relation is left as it is, whatever comes of the save. -/
theorem many_save (hτ : Model.Sound τ) (hw : w.catalog.Sound env.config)
    (hm : w.catalog.mapOf env.config t = .ok m) (hof : m.Of t) (hrel : rel ∈ m.relations)
    (hinert : ∀ old w₁ r₁, prepare t env w r = ⟨.ok (m, old), w₁, r₁⟩ → Inert m rel r₁) :
    (save t env w r).focus.many? rel.slot = r.many? rel.slot := by
  have hmany := many_prepare (r := r) hτ hof hrel hw
  rw [save_eq hτ hw, saveUsing_eq, bind_run]
  rcases hp : prepare t env w r with ⟨e | ⟨m', old⟩, w₁, r₁⟩
  · rwa [hp] at hmany
  · rw [hp] at hmany
    obtain rfl : m' = m := Except.ok.inj ((prepare_ok hp).symm.trans hm)
    have hw₁ := ((Grows.prepare t).later hp).sound hw
    have hstays := synchronizeAll_staysInert hτ hof Grows.save hrel (List.Subset.refl _) old env w₁
      r₁ hw₁ (hinert old w₁ r₁ hp)
    exact hstays.1.trans hmany

/-- A relation that is inert once the record is read back still is when its turn comes. -/
theorem turn_inert (hτ : Model.Sound τ) (hw : w.catalog.Sound env.config) (hof : m.Of t)
    (hrel : rel ∈ m.relations) (hinert : Inert m rel r) {w₁ : World τ δ} {r₁ : Record}
    (hrels : rels ⊆ m.relations)
    (hbefore : rels.forM (fun a => synchronize save m a old) env w r = ⟨.ok (), w₁, r₁⟩) :
    ∃ ds, synchronize save m rel old env w₁ r₁ = ⟨.ok (), w₁.toldAll env.config ds, r₁⟩ := by
  have hstays := synchronizeAll_staysInert hτ hof Grows.save hrel hrels old env w r hw hinert
  rw [hbefore] at hstays
  exact synchronize_inert save old hstays.2

end Session

end RecordGraph
