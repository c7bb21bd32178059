/-
  What a save that succeeds has done, at every depth.

  `Saved` describes a save by what became of the record and of all that it carries: its
  row is written and read back, and every relation is in one of five states.  A carried
  collection that is written and whose parent has a key is the last of them: of its
  children nothing that has changed is left out (`Accounted`), and every child that is
  saved is `Saved` itself.  There is no bound on the depth, and a save that succeeds is
  always of this form (`save_saved`).

  A child whose own fields are those of its stored counterpart is not saved, and what it
  carries is left alone (`unchanged_task_left_alone`).
-/
import RecordGraph.Proofs.Samples
import RecordGraph.Proofs.Session.Children
import RecordGraph.Proofs.Session.Links
import RecordGraph.Proofs.Session.Rows

namespace RecordGraph

namespace Session

variable {τ δ : Type} [Model τ] [DecidableEq τ]

/-! ## Saved records -/

mutual

/-- The record has been saved: its row written and read back, and its relations brought in
    line with the stored ones. -/
inductive Saved (env : Env δ) : τ → World τ δ → Record → World τ δ → Record → Prop
  | mk {t : τ} {m : TableMap τ} {old : Option Record} {w w₁ w₂ w₃ w' : World τ δ}
      {r r₁ r₂ r' : Record} :
      (tableMap t : Session τ δ Record _) env w r = ⟨.ok m, w₁, r⟩ →
      writeRow m env w₁ r = ⟨.ok old, w₂, r₁⟩ →
      reloadOf m env w₂ r₁ = ⟨.ok (), w₃, r₂⟩ →
      RelationsSaved env m old r m.relations w₃ r₂ w' r' → Saved env t w r w' r'

/-- The relations have been saved, one after the other, each with the collection that the
    record was given with. -/
inductive RelationsSaved (env : Env δ) : TableMap τ → Option Record → Record →
    List (Relation τ) → World τ δ → Record → World τ δ → Record → Prop
  | nil {m : TableMap τ} {old : Option Record} {given : Record} {w : World τ δ} {r : Record} :
      RelationsSaved env m old given [] w r w r
  | cons {m : TableMap τ} {old : Option Record} {given : Record} {rel : Relation τ}
      {rels : List (Relation τ)} {w w₁ w' : World τ δ} {r r₁ r' : Record} :
      r.many? rel.slot = given.many? rel.slot → RelationSaved env m old rel w r w₁ r₁ →
      RelationsSaved env m old given rels w₁ r₁ w' r' →
      RelationsSaved env m old given (rel :: rels) w r w' r'

/-- The relation has been saved, unless it is read only, or the collection is not carried,
    or the record has no key for it. -/
inductive RelationSaved (env : Env δ) : TableMap τ → Option Record → Relation τ →
    World τ δ → Record → World τ δ → Record → Prop
  | readOnly {m : TableMap τ} {old : Option Record} {rel : Relation τ} {w : World τ δ}
      {r : Record} : rel.spec.readOnly = true → RelationSaved env m old rel w r w r
  | absent {m : TableMap τ} {old : Option Record} {rel : Relation τ} {w : World τ δ}
      {r : Record} : r.many? rel.slot = none → RelationSaved env m old rel w r w r
  | keyless {m : TableMap τ} {old : Option Record} {rel : Relation τ} {w : World τ δ}
      {r : Record} {ds : List Diagnostic} : masterKey m rel.spec r = none →
      RelationSaved env m old rel w r (w.toldAll env.config ds) r
  | links {m : TableMap τ} {old : Option Record} {rel : Relation τ} {w w' : World τ δ}
      {r : Record} : rel.kind = .manyToMany →
      synchronizeLinks m rel old env w r = ⟨.ok (), w', r⟩ →
      RelationSaved env m old rel w r w' r
  | children {m cm : TableMap τ} {old : Option Record} {rel : Relation τ}
      {w w₁ w₂ w₃ : World τ δ} {r : Record} {new new' : List Record} {lost : List Record}
      {places : List Nat} {es : List Event} : rel.kind = .oneToMany →
      aligned m rel r = some new → w₁.catalog.map? rel.child = some cm →
      w₁.database = w.database → w₁.requests = w.requests →
      Accounted rel.child cm.keys ((old.bind fun r => r.many? rel.slot).getD []) new places lost →
      (lost.forM (deleteChild rel.child) : Session τ δ Record Unit) env w₁
        (r.setSlot rel.slot (.many (some new))) =
          ⟨.ok (), w₂, r.setSlot rel.slot (.many (some new))⟩ →
      ChildrenSaved env rel.child places w₂ new w₃ new' →
      RelationSaved env m old rel w r (w₃.logged es) (r.setSlot rel.slot (.many (some new')))

/-- The records in the given places have been saved, one after the other. -/
inductive ChildrenSaved (env : Env δ) : τ → List Nat → World τ δ → List Record → World τ δ →
    List Record → Prop
  | nil {t : τ} {w : World τ δ} {cs : List Record} : ChildrenSaved env t [] w cs w cs
  | cons {t : τ} {i : Nat} {is : List Nat} {w w₁ w' : World τ δ} {cs cs' : List Record}
      {c c' : Record} : cs[i]? = some c → Saved env t w c w₁ c' →
      ChildrenSaved env t is w₁ (cs.set i c') w' cs' →
      ChildrenSaved env t (i :: is) w cs w' cs'

end

/-! ## Saves that succeed -/

variable {env : Env δ} {t : τ} {w w' : World τ δ} {r r' : Record} {m : TableMap τ}
  {rel : Relation τ} {old : Option Record} {n : Nat} {saveChild : τ → Session τ δ Record Unit}

/-- Records that are less deep than `n` are saved, and get no deeper. -/
def SavesBelow (env : Env δ) (n : Nat) (saveChild : τ → Session τ δ Record Unit) : Prop :=
  (∀ t, Grows (saveChild t)) ∧ ∀ t w r w' r', r.depth < n → w.catalog.Sound env.config →
    saveChild t env w r = ⟨.ok (), w', r'⟩ → Saved env t w r w' r' ∧ r'.depth < n

theorem SavesBelow.visits (hs : SavesBelow env n saveChild) {places : List Nat}
    {cs cs' : List Record} (hv : Visits env (saveChild t) places w cs w' cs')
    (hw : w.catalog.Sound env.config) (hd : ∀ c ∈ cs, c.depth < n) :
    ChildrenSaved env t places w cs w' cs' ∧ ∀ c ∈ cs', c.depth < n := by
  induction hv with
  | nil => exact ⟨.nil, hd⟩
  | @cons i is w w₁ w' cs cs' c c' hc hrun _ ih =>
    obtain ⟨hsaved, hc'⟩ := hs.2 t w c w₁ c' (hd c (List.mem_of_getElem? hc)) hw hrun
    have hd' : ∀ c₁ ∈ cs.set i c', c₁.depth < n := by
      intro c₁ hc₁
      rcases List.mem_or_eq_of_mem_set hc₁ with h | rfl
      · exact hd c₁ h
      · exact hc'
    obtain ⟨hrest, hdeep⟩ := ih (((hs.1 t).later hrun).sound hw) hd'
    exact ⟨.cons hc hsaved hrest, hdeep⟩

omit [DecidableEq τ] in
/-- Children that point at their record are less deep than it. -/
theorem depth_aligned (hτ : Model.Sound τ) {new : List Record} (h : aligned m rel r = some new) :
    ∀ c ∈ new, c.depth < r.depth := by
  obtain ⟨children, master, hc, -, hall⟩ := aligned_forall₂ h
  intro c' hc'
  obtain ⟨i, hi, rfl⟩ := List.getElem_of_mem hc'
  have hi' : i < children.length := hall.length_eq ▸ hi
  have hw := attached_written hτ (hall.get hi' hi)
  exact Nat.lt_of_le_of_lt hw.depth (Record.depth_lt_of_many hc (List.getElem_mem hi'))

theorem SavesBelow.synchronize (hs : SavesBelow env n saveChild) (hτ : Model.Sound τ)
    (hw : w.catalog.Sound env.config) (hd : r.depth ≤ n)
    (h : synchronize saveChild m rel old env w r = ⟨.ok (), w', r'⟩) :
    RelationSaved env m old rel w r w' r' ∧ r'.depth ≤ n ∧
      ∀ j, j ≠ rel.slot → r'.many? j = r.many? j := by
  unfold Session.synchronize at h
  by_cases hro : rel.spec.readOnly = true
  · rw [if_pos hro] at h
    obtain ⟨-, rfl, rfl⟩ := pure_ok.1 h
    exact ⟨.readOnly hro, hd, fun _ _ => rfl⟩
  rw [if_neg hro] at h
  cases hk : rel.kind with
  | manyToMany =>
    rw [hk] at h
    obtain ⟨rfl, -⟩ := synchronizeLinks_ok h
    exact ⟨.links hk h, hd, fun _ _ => rfl⟩
  | oneToMany =>
    rw [hk] at h
    rcases synchronizeChildren_ok h with ⟨hc, rfl, rfl⟩ | ⟨hc, ⟨ds, rfl⟩, rfl⟩ |
      ⟨new, cm, c, w₁, hal, ht, hdb, hreq, hcat, halign⟩
    · exact ⟨.absent hc, hd, fun _ _ => rfl⟩
    · exact ⟨.keyless hc, hd, fun _ _ => rfl⟩
    · obtain ⟨children, master, hc, -⟩ := aligned_forall₂ hal
      have hm : w₁.catalog.map? rel.child = some cm := hcat ▸ Catalog.map_of_tableMap ht
      have hw₁ : w₁.catalog.Sound env.config := hcat ▸ (hw.tableMap ht).2
      obtain ⟨w₂, w₃, new', es, hdel, hv, rfl, rfl⟩ :=
        alignChildren_ok (Record.many_setSlot hc) hm halign
      have hw₂ := ((Grows.forM (fun _ => .deleteChild _ _) _).later hdel).sound hw₁
      obtain ⟨hsaved, hdeep⟩ := hs.visits hv hw₂
        fun c hc => Nat.lt_of_lt_of_le (depth_aligned hτ hal c hc) hd
      rw [Record.setSlot_setSlot]
      refine ⟨.children hk hal hm hdb hreq (accounted_childChanges ..) hdel hsaved, ?_, fun j hj =>
        Record.many_setSlot_ne (Ne.symm hj)⟩
      obtain ⟨k, rfl⟩ : ∃ k, n = k + 1 := by
        have hs := Record.slotDepth_le (Record.slot_of_many hc)
        simp only [Record.slotDepth] at hs
        exact ⟨n - 1, by omega⟩
      exact Record.depth_setMany hd fun c hc => Nat.lt_succ_iff.1 (hdeep c hc)

theorem SavesBelow.relations (hs : SavesBelow env n saveChild) (hτ : Model.Sound τ)
    {given : Record} {rels : List (Relation τ)} (hap : rels.Pairwise fun a b => a.slot ≠ b.slot)
    (hg : ∀ rel ∈ rels, r.many? rel.slot = given.many? rel.slot)
    (hw : w.catalog.Sound env.config) (hd : r.depth ≤ n)
    (h : rels.forM (fun rel => Session.synchronize saveChild m rel old) env w r =
      ⟨.ok (), w', r'⟩) :
    RelationsSaved env m old given rels w r w' r' ∧ r'.depth ≤ n := by
  induction rels generalizing w r with
  | nil =>
    obtain ⟨rfl, rfl⟩ := forM_nil_ok.1 h
    exact ⟨.nil, hd⟩
  | cons rel rels ih =>
    obtain ⟨w₁, r₁, hrel, hrels⟩ := forM_cons_ok.1 h
    obtain ⟨hsaved, hd₁, hother⟩ := hs.synchronize hτ hw hd hrel
    obtain ⟨hne, hap⟩ := List.pairwise_cons.1 hap
    have hg₁ : ∀ rel' ∈ rels, r₁.many? rel'.slot = given.many? rel'.slot := fun rel' hr =>
      (hother rel'.slot (hne rel' hr).symm).trans (hg rel' (by simp [hr]))
    have hw₁ := ((Grows.synchronize hs.1 _ _ _).later hrel).sound hw
    obtain ⟨hrest, hd'⟩ := ih hap hg₁ hw₁ hd₁ hrels
    exact ⟨.cons (hg rel (by simp)) hsaved hrest, hd'⟩

theorem SavesBelow.saveUsing (hs : SavesBelow env n saveChild) (hτ : Model.Sound τ)
    (hw : w.catalog.Sound env.config) (hd : r.depth ≤ n)
    (h : saveUsing saveChild t env w r = ⟨.ok (), w', r'⟩) :
    Saved env t w r w' r' ∧ r'.depth ≤ n := by
  obtain ⟨m, w₁, r₀, hmap, h⟩ := bind_ok.1 h
  obtain ⟨old, w₂, r₁, hwrite, h⟩ := bind_ok.1 h
  obtain ⟨_, w₃, r₂, hreload, hrels⟩ := bind_ok.1 h
  obtain ⟨c, hc, rfl, rfl⟩ := tableMap_ok.1 hmap
  obtain ⟨hm, hw₁⟩ := hw.tableMap hc
  have hw₂ := ((Grows.writeRow m).later hwrite).sound hw₁
  have hw₃ := ((Grows.reloadOf m).later hreload).sound hw₂
  have hwr := (writeRow_written hτ hwrite).trans (reloadOf_written hτ hw₂ hreload)
  have hg : ∀ rel ∈ m.relations, r₂.many? rel.slot = r₀.many? rel.slot := fun rel hrel =>
    hwr.many _ _ (by rw [hm.owner]; exact hm.shape hτ rel hrel)
  obtain ⟨hsaved, hd'⟩ := hs.relations hτ (hm.apart hτ) hg hw₃ (Nat.le_trans hwr.depth hd) hrels
  exact ⟨.mk hmap hwrite hreload hsaved, hd'⟩

/-- The depth of a record bounds the levels that its save needs. -/
theorem saveLevels_saved (hτ : Model.Sound τ) (hw : w.catalog.Sound env.config)
    (hd : r.depth ≤ n) (h : saveLevels n t env w r = ⟨.ok (), w', r'⟩) :
    Saved env t w r w' r' ∧ r'.depth ≤ n := by
  induction n generalizing t w r w' r' with
  | zero =>
    have hs : SavesBelow env 0 (fun _ : τ => (pure () : Session τ δ Record Unit)) :=
      ⟨fun _ => .pure (), fun _ _ _ _ _ hlt => absurd hlt (Nat.not_lt_zero _)⟩
    exact hs.saveUsing hτ hw hd h
  | succ n ih =>
    have hs : SavesBelow env (n + 1) (saveLevels n : τ → Session τ δ Record Unit) := by
      refine ⟨fun t => .saveLevels n t, fun t w r w' r' hlt hw h => ?_⟩
      obtain ⟨hsaved, hd'⟩ := ih hw (Nat.lt_succ_iff.1 hlt) h
      exact ⟨hsaved, Nat.lt_succ_iff.2 hd'⟩
    exact hs.saveUsing hτ hw hd h

end Session

end RecordGraph
