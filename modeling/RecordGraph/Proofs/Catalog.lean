/-
  Catalogs that sessions build up.

  * `TableMap.Of t m`: the map is one of type `t`, its relations lead to collections of
    the type, each to one of its own.
  * `Catalog.Sound`: every map and every mapper is one of the type it is kept for.  A
    catalog is empty at first, and everything that changes one keeps it sound.
-/
import RecordGraph.Catalog
import RecordGraph.Proofs.Mapping.RowMapper

namespace RecordGraph

variable {τ : Type} [Model τ] {t u : τ} {config : Config}

/-! ## Maps of a type -/

/-- The map is one of the type. -/
structure TableMap.Of (t : τ) (m : TableMap τ) : Prop where
  owner : m.owner = t
  found : ∀ rel ∈ m.relations, (fieldsOf t).get? rel.spec.property = some (.many rel.slot rel.child)
  once : m.relations.Pairwise fun a b => a.spec.property ≠ b.spec.property

/-- A relation leads to a collection of its children. -/
theorem TableMap.Of.shape {m : TableMap τ} (hτ : Model.Sound τ) (h : m.Of t) :
    ∀ rel ∈ m.relations, shapeAt (Model.type t).members rel.slot = some (.many rel.child) :=
  fun rel hr => (hτ t).fits_get (h.found rel hr)

/-- Different relations lead to different collections. -/
theorem TableMap.Of.apart {m : TableMap τ} (hτ : Model.Sound τ) (h : m.Of t) :
    m.relations.Pairwise fun a b => a.slot ≠ b.slot := by
  refine h.once.imp_of_mem fun {a b} ha hb hab heq => ?_
  exact (hτ t).apart_get (h.found a ha) (h.found b hb) hab a.slot rfl (congrArg some heq.symm)

namespace MapDraft

variable {m : MapDraft τ}

/-- The draft is one of the type. -/
structure Of (t : τ) (m : MapDraft τ) : Prop where
  owner : m.owner = t
  found : ∀ rel ∈ m.relations, (fieldsOf t).get? rel.spec.property = some (.many rel.slot rel.child)
  once : m.relations.Pairwise fun a b => a.spec.property ≠ b.spec.property

theorem of_blank (t : τ) : (blank t).Of t :=
  ⟨rfl, fun _ h => (List.not_mem_nil h).elim, .nil⟩

theorem Of.finish (h : m.Of t) {map : TableMap τ} (hf : m.finish config = .ok map) : map.Of t := by
  unfold MapDraft.finish at hf
  split at hf
  · cases hf
  · dsimp only at hf
    cases hc : check (m.settled config) with
    | error e => rw [hc] at hf; cases hf
    | ok u =>
      rw [hc] at hf
      cases hf
      exact ⟨h.owner, h.found, h.once⟩

variable [DecidableEq τ]

theorem Of.addRelation (h : m.Of t) (kind : RelationKind) (child : τ) (spec : RelationSpec) :
    (m.addRelation kind child spec).Of t := by
  unfold MapDraft.addRelation
  split
  · exact ⟨h.owner, h.found, h.once⟩
  · rename_i hany
    cases hs : collectionSlot m.owner spec.property child with
    | error f => exact ⟨h.owner, h.found, h.once⟩
    | ok slot =>
      refine ⟨h.owner, fun rel hr => ?_, ?_⟩
      · rcases List.mem_append.1 hr with hr | hr
        · exact h.found rel hr
        · rw [List.mem_singleton] at hr
          subst hr
          unfold collectionSlot at hs
          rw [h.owner] at hs
          split at hs
          · split at hs
            · rename_i hg hc; cases hs; subst hc; exact hg
            · cases hs
          · cases hs
          · cases hs
      · refine List.pairwise_append.2 ⟨h.once, List.pairwise_singleton _ _, fun a ha b hb => ?_⟩
        rw [List.mem_singleton] at hb
        subst hb
        intro heq
        exact hany (List.any_eq_true.2 ⟨a, ha, by simpa using heq⟩)

theorem Of.tell (h : m.Of t) (s : Setting τ) : (m.tell s).Of t := by
  cases s
  case relation kind child spec => exact h.addRelation kind child spec
  case direction descending =>
    unfold MapDraft.tell
    dsimp only
    split
    · exact ⟨h.owner, h.found, h.once⟩
    · exact ⟨h.owner, h.found, h.once⟩
  all_goals exact ⟨h.owner, h.found, h.once⟩

theorem Of.tellAll (h : m.Of t) (settings : List (Setting τ)) : (m.tellAll settings).Of t := by
  unfold MapDraft.tellAll
  induction settings generalizing m with
  | nil => exact h
  | cons s settings ih => exact ih (h.tell s)

theorem of_ofType (t : τ) : (ofType t).Of t := (of_blank t).tellAll _

end MapDraft

/-! ## Catalogs -/

variable [DecidableEq τ]

/-- Every type has a map and a mapper of its own, if it has any. -/
structure Catalog.Sound (config : Config) (c : Catalog τ) : Prop where
  maps : ∀ t m, c.map? t = some m → m.Of t
  mappers : ∀ t m, c.mappers.lookup t = some m → m.Of config t

namespace Catalog

variable {c c' : Catalog τ} {m : TableMap τ}

omit [Model τ] in
theorem offer_of_none (h : c.map? t = none) :
    c.offer t m = (m, { c with maps := c.maps ++ [(t, m)] }) := by
  simp only [offer, h]

theorem tableMap_of_map (h : c.map? t = some m) : c.tableMap config t = .ok (m, c) := by
  simp only [tableMap, h]

/-- A map is either there, or made by the type itself and put in. -/
theorem tableMap_cases (h : c.tableMap config t = .ok (m, c')) :
    (c.map? t = some m ∧ c' = c) ∨ (c.map? t = none ∧ ownMap config t = .ok m ∧
      c' = { c with maps := c.maps ++ [(t, m)] }) := by
  unfold tableMap at h
  split at h
  · cases h; exact .inl ⟨‹_›, rfl⟩
  · rename_i hn
    cases hm : ownMap config t with
    | error e => rw [hm] at h; cases h
    | ok m' =>
      rw [hm] at h
      simp only [Except.map, offer_of_none hn] at h
      cases h
      exact .inr ⟨hn, rfl, rfl⟩

theorem map_of_tableMap (h : c.tableMap config t = .ok (m, c')) : c'.map? t = some m := by
  rcases tableMap_cases h with ⟨hm, rfl⟩ | ⟨hn, -, rfl⟩
  · exact hm
  · simp only [map?] at hn
    simp [map?, List.lookup_append, hn]

/-- A map that is there stays when another one is made. -/
theorem map_tableMap (h : c.tableMap config t = .ok (m, c')) {n : TableMap τ}
    (hn : c.map? u = some n) : c'.map? u = some n := by
  rcases tableMap_cases h with ⟨-, rfl⟩ | ⟨-, -, rfl⟩
  · exact hn
  · simp only [map?] at hn
    simp [map?, List.lookup_append, hn]

/-! ## What the maps are -/

/-- The map of a type, there already or as it would be made. -/
def mapOf (c : Catalog τ) (config : Config) (t : τ) : Result (TableMap τ) :=
  (c.tableMap config t).map Prod.fst

theorem mapOf_eq (c : Catalog τ) (config : Config) (t : τ) : c.mapOf config t =
    match c.map? t with
    | some m => .ok m
    | none => ownMap config t := by
  unfold mapOf tableMap
  cases hm : c.map? t with
  | some m => rfl
  | none =>
    dsimp only
    cases ownMap config t with
    | error e => rfl
    | ok m => rw [Except.map, offer_of_none hm]; rfl

theorem tableMap_of_mapOf (h : c.mapOf config t = .ok m) :
    ∃ c', c.tableMap config t = .ok (m, c') := by
  unfold mapOf at h
  rcases ht : c.tableMap config t with e | ⟨m', c'⟩
  · rw [ht] at h
    cases h
  · rw [ht] at h
    cases h
    exact ⟨c', rfl⟩

/-- Making the map of a type does not change what the maps are. -/
theorem mapOf_tableMap (h : c.tableMap config t = .ok (m, c')) (u : τ) :
    c'.mapOf config u = c.mapOf config u := by
  rcases tableMap_cases h with ⟨-, rfl⟩ | ⟨hn, hm, rfl⟩
  · rfl
  · by_cases hu : u = t
    · subst hu
      rw [mapOf_eq, mapOf_eq, hn, map_of_tableMap h, hm]
    · have hlookup : map? { c with maps := c.maps ++ [(t, m)] } u = c.map? u := by
        simp [map?, List.lookup_append, List.lookup_cons, beq_false_of_ne hu]
      rw [mapOf_eq, mapOf_eq, hlookup]

/-! ## Soundness -/

theorem sound_empty : (empty : Catalog τ).Sound config :=
  ⟨nofun, nofun⟩

theorem Sound.append (h : c.Sound config) (hm : m.Of t) :
    Sound config { c with maps := c.maps ++ [(t, m)] } := by
  refine ⟨fun u n hn => ?_, h.mappers⟩
  simp only [map?, List.lookup_append, Option.or_eq_some_iff] at hn
  rcases hn with hn | ⟨-, hn⟩
  · exact h.maps u n hn
  · simp only [List.lookup_cons] at hn
    split at hn
    · rename_i heq
      cases hn
      exact eq_of_beq heq ▸ hm
    · cases hn

theorem Sound.register (h : c.Sound config) {settings : List (Setting τ)}
    (hr : c.register config t settings = .ok c') : c'.Sound config := by
  unfold Catalog.register at hr
  cases hf : ((MapDraft.ofType t).tellAll settings).finish config with
  | error e => rw [hf] at hr; cases hr
  | ok m =>
    rw [hf] at hr
    change c.enter t m = .ok c' at hr
    unfold enter at hr
    split at hr
    · cases hr
    · cases hr
      exact h.append (((MapDraft.of_ofType t).tellAll settings).finish hf)

theorem Sound.tableMap (h : c.Sound config) (ht : c.tableMap config t = .ok (m, c')) :
    m.Of t ∧ c'.Sound config := by
  have hm : c'.Sound config := by
    rcases tableMap_cases ht with ⟨-, rfl⟩ | ⟨-, hm, rfl⟩
    · exact h
    · exact h.append ((MapDraft.of_ofType t).finish hm)
  exact ⟨hm.maps t m (map_of_tableMap ht), hm⟩

theorem Sound.mapper (h : c.Sound config) (t : τ) : (c.mapper config t).Of config t := by
  unfold Catalog.mapper
  cases hl : c.mappers.lookup t with
  | none => exact RowMapper.of_ofConfig config t
  | some m => exact h.mappers t m hl

omit [Model τ] in
theorem lookup_filter_ne {β : Type} (l : List (τ × β)) (h : u ≠ t) :
    (l.filter fun e => e.1 ≠ t).lookup u = l.lookup u := by
  induction l with
  | nil => rfl
  | cons e l ih =>
    obtain ⟨k, b⟩ := e
    by_cases he : k = t
    · rw [List.filter_cons_of_neg (by simpa using he), ih]
      have hu : (u == k) = false := by simpa [he] using h
      simp only [List.lookup_cons, hu]
    · rw [List.filter_cons_of_pos (by simpa using he)]
      simp only [List.lookup_cons, ih]

omit [Model τ] in
theorem mapper_keepMapper (c : Catalog τ) (m : RowMapper τ) :
    (c.keepMapper t m).mapper config t = m := by
  simp only [Catalog.mapper, Catalog.keepMapper, List.lookup_cons, beq_self_eq_true,
    Option.getD_some]

omit [Model τ] in
theorem mapper_keepMapper_ne (c : Catalog τ) (m : RowMapper τ) (h : u ≠ t) :
    (c.keepMapper t m).mapper config u = c.mapper config u := by
  simp only [Catalog.mapper, Catalog.keepMapper, List.lookup_cons, beq_false_of_ne h,
    lookup_filter_ne _ h]

/-- Making the map of a type does not change what the mappers are. -/
theorem mapper_tableMap (h : c.tableMap config t = .ok (m, c')) (u : τ) :
    c'.mapper config u = c.mapper config u := by
  rcases tableMap_cases h with ⟨-, rfl⟩ | ⟨-, -, rfl⟩
  · rfl
  · rfl

theorem Sound.keepMapper (h : c.Sound config) {m : RowMapper τ} (hm : m.Of config t) :
    (c.keepMapper t m).Sound config := by
  refine ⟨h.maps, fun u n hn => ?_⟩
  simp only [Catalog.keepMapper, List.lookup_cons] at hn
  split at hn
  · rename_i heq
    cases hn
    exact eq_of_beq heq ▸ hm
  · rename_i heq
    have hu : u ≠ t := by simpa using heq
    exact h.mappers u n (by rw [← hn]; exact (lookup_filter_ne _ hu).symm)

end Catalog

end RecordGraph
