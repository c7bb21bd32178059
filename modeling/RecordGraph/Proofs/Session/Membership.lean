/-
  What the synchronization of a link table makes of the table.

  The rows of a link table are pairs of keys, and a delete takes all rows with its pair.
  The keys of a collection are compared one by one, though, so of a key that has more rows
  than the collection has children the surplus is deleted, and with it every row of the
  key.  For all other keys the table gets what the collection holds.
-/
import Mathlib.Data.List.Perm.Basic
import RecordGraph.Proofs.Graph.Membership
import RecordGraph.Proofs.Mapping.Statements
import RecordGraph.Proofs.Samples
import RecordGraph.Proofs.Session.Links
import RecordGraph.Proofs.Session.Loading

namespace RecordGraph

namespace Session

variable {τ δ : Type} [Model τ] {env : Env δ} {w w' : World τ δ} {m : TableMap τ}
  {rel : Relation τ} {links : δ → List (Value × Value)} {master key v : Value}
  {keys : List Value}

/-! ## Link tables -/

/-- The database has a link table for the relation, with a pair of keys in each row: the
    parent's and the child's.  Reads answer with the keys of a parent's rows, a delete takes
    every row of its pair, and an insert adds one row. -/
structure LinkTable (env : Env δ) (m : TableMap τ) (rel : Relation τ)
    (links : δ → List (Value × Value)) : Prop where
  read : ∀ master s d rows, m.relationRead env.config.dialect rel.spec master = .ok s →
    (env.executor.query s d).1 = .ok rows → links (env.executor.query s d).2 = links d ∧
    (rows.map fun row => row.get? (rel.spec.childColumn (typeName rel.child))).Perm
      (((links d).filter fun l => l.1.eqv master).map fun l => some l.2)
  delete : ∀ master key s d n,
    m.linkDelete env.config.dialect rel.spec (typeName rel.child) master key = .ok s →
    (env.executor.execute s d).1 = .ok n → (links (env.executor.execute s d).2).Perm
      ((links d).filter fun l => !(l.1.eqv master && l.2.eqv key))
  insert : ∀ master key s d n,
    m.linkInsert env.config.dialect rel.spec (typeName rel.child) master key = .ok s →
    (env.executor.execute s d).1 = .ok n →
    (links (env.executor.execute s d).2).Perm ((master, key) :: links d)

theorem LinkTable.deletes (ht : LinkTable env m rel links)
    (h : Executes env (m.linkDelete env.config.dialect rel.spec (typeName rel.child) master)
      keys w w') :
    (links w'.database).Perm ((links w.database).filter fun l =>
      !(l.1.eqv master && keys.any fun k => l.2.eqv k)) := by
  induction h with
  | nil => simp
  | @cons key keys s n w w' hs hn _ ih =>
    have hd := (ht.delete master key s w.database n hs hn).filter fun l =>
      !(l.1.eqv master && keys.any fun k => l.2.eqv k)
    refine (ih.trans hd).trans (.of_eq ?_)
    rw [List.filter_filter]
    refine List.filter_congr fun l _ => ?_
    rw [List.any_cons]
    cases l.1.eqv master <;> cases l.2.eqv key <;> simp

theorem LinkTable.inserts (ht : LinkTable env m rel links)
    (h : Executes env (m.linkInsert env.config.dialect rel.spec (typeName rel.child) master)
      keys w w') :
    (links w'.database).Perm (keys.map (fun k => (master, k)) ++ links w.database) := by
  induction h with
  | nil => exact .refl _
  | @cons key keys s n w w' hs hn _ ih =>
    refine ih.trans ?_
    refine ((ht.insert master key s w.database n hs hn).append_left _).trans ?_
    exact List.perm_middle

/-! ## Counting rows -/

/-- How many rows link the key to the parent. -/
def linkCount (rows : List (Value × Value)) (master key : Value) : Nat :=
  rows.countP fun l => l.1.eqv master && l.2.eqv key

theorem linkCount_filter {rows : List (Value × Value)} :
    linkCount (rows.filter fun l => !(l.1.eqv master && keys.any fun k => l.2.eqv k)) master v =
      if keys.countP (fun k => k.eqv v) = 0 then linkCount rows master v else 0 := by
  have hany {l : Value × Value} (hl : l.2.eqv v = true) :
      (keys.any fun k => l.2.eqv k) = keys.any fun k => k.eqv v := by
    congr 1
    funext k
    rw [Value.eqv_congr_left hl, Value.eqv_comm]
  rw [linkCount, List.countP_filter]
  split
  · rename_i h0
    refine List.countP_congr fun l _ => ?_
    by_cases hl : l.2.eqv v = true
    · have hnone : (keys.any fun k => k.eqv v) = false :=
        List.any_eq_false.2 (List.countP_eq_zero.1 h0)
      simp [hany hl, hnone]
    · simp [hl]
  · rename_i h0
    refine List.countP_eq_zero.2 fun l _ => ?_
    have hsome : (keys.any fun k => k.eqv v) = true := by
      rw [← Bool.not_eq_false, List.any_eq_false, ← List.countP_eq_zero]
      exact h0
    by_cases hl : l.2.eqv v = true
    · cases l.1.eqv master <;> simp [hany hl, hsome]
    · simp [hl]

theorem linkCount_insert {rows : List (Value × Value)} (hm : master.eqv master) :
    linkCount (keys.map (fun k => (master, k)) ++ rows) master v =
      keys.countP (fun k => k.eqv v) + linkCount rows master v := by
  rw [linkCount, List.countP_append, List.countP_map]
  congr 1
  exact List.countP_congr fun k _ => by simp [hm]

/-- The key is linked to the parent. -/
def Linked (rows : List (Value × Value)) (master key : Value) : Prop :=
  ∃ l ∈ rows, l.1.eqv master ∧ l.2.eqv key

theorem linked_iff {rows : List (Value × Value)} :
    Linked rows master key ↔ 0 < linkCount rows master key := by
  rw [linkCount, List.countP_pos_iff]
  simp only [Linked, Bool.and_eq_true]

theorem countP_eqv_congr {new : List Value} (h : key.eqv v) :
    new.countP (fun k => k.eqv key) = new.countP fun k => k.eqv v :=
  List.countP_congr fun k _ => by rw [Value.eqv_congr_right h]

theorem linkCount_congr {rows : List (Value × Value)} (h : key.eqv v) :
    linkCount rows master key = linkCount rows master v :=
  List.countP_congr fun l _ => by rw [Value.eqv_congr_right h]

/-- Giving every key the rows that are wanted, and none if it has too many, reaches all
    wanted keys exactly if none of these has too many. -/
theorem forall_reached_iff {rows : List (Value × Value)} {new : List Value} :
    (∀ v, (0 < if linkCount rows master v ≤ new.countP (fun k => k.eqv v) then
        new.countP (fun k => k.eqv v) else 0) ↔ ∃ k ∈ new, k.eqv v) ↔
      ∀ k ∈ new, linkCount rows master k ≤ new.countP fun n => n.eqv k := by
  constructor
  · intro hreached k hmem
    by_contra hlt
    have hlost := hreached k
    rw [if_neg hlt] at hlost
    have hpos : 0 < linkCount rows master k := by omega
    obtain ⟨l, -, hl⟩ := List.countP_pos_iff.1 hpos
    have hkk : k.eqv k := by
      rw [Bool.and_eq_true] at hl
      exact Value.eqv_trans (by rw [Value.eqv_comm]; exact hl.2) hl.2
    exact absurd (hlost.2 ⟨k, hmem, hkk⟩) (Nat.lt_irrefl 0)
  · intro hle v
    by_cases hv : ∃ k ∈ new, k.eqv v
    · obtain ⟨k, hmem, hkv⟩ := hv
      have hk := hle k hmem
      rw [linkCount_congr hkv, countP_eqv_congr hkv] at hk
      rw [if_pos hk]
      exact List.countP_pos_iff
    · have hnone : new.countP (fun k => k.eqv v) = 0 :=
        List.countP_eq_zero.2 fun k hmem hkv => hv ⟨k, hmem, hkv⟩
      rw [hnone, ite_self]
      exact iff_of_false (Nat.lt_irrefl 0) hv

/-- Executing the changes of a membership gives every key its surplus of new over old rows,
    and leaves the old rows of the others unless there is one too many. -/
theorem LinkTable.linkCount_changes (ht : LinkTable env m rel links) {old new : List Value}
    {w₁ : World τ δ} (hm : master.eqv master)
    (hold : ∀ v, old.countP (fun k => k.eqv v) = linkCount (links w.database) master v)
    (hdel : Executes env (m.linkDelete env.config.dialect rel.spec (typeName rel.child) master)
      (unlinkedKeys old new) w w₁)
    (hins : Executes env (m.linkInsert env.config.dialect rel.spec (typeName rel.child) master)
      (linkedKeys old new) w₁ w') (v : Value) :
    linkCount (links w'.database) master v =
      if linkCount (links w.database) master v ≤ new.countP (fun k => k.eqv v) then
        new.countP (fun k => k.eqv v) else 0 := by
  have hafter : linkCount (links w'.database) master v =
      (linkedKeys old new).countP (fun k => k.eqv v) +
        linkCount (links w₁.database) master v := by
    rw [← linkCount_insert hm]
    exact (ht.inserts hins).countP_eq _
  have hbetween : linkCount (links w₁.database) master v =
      if (unlinkedKeys old new).countP (fun k => k.eqv v) = 0 then
        linkCount (links w.database) master v else 0 := by
    rw [← linkCount_filter]
    exact (ht.deletes hdel).countP_eq _
  rw [hafter, hbetween, countP_linkedKeys, countP_unlinkedKeys, hold]
  split <;> split <;> omega

theorem LinkTable.others (ht : LinkTable env m rel links) {w₁ : World τ δ}
    {unlinked linked : List Value} (hm : master.eqv master)
    (hdel : Executes env (m.linkDelete env.config.dialect rel.spec (typeName rel.child) master)
      unlinked w w₁)
    (hins : Executes env (m.linkInsert env.config.dialect rel.spec (typeName rel.child) master)
      linked w₁ w') :
    ((links w'.database).filter fun l => !l.1.eqv master).Perm
      ((links w.database).filter fun l => !l.1.eqv master) := by
  have hi := (ht.inserts hins).filter fun l => !l.1.eqv master
  have hd := (ht.deletes hdel).filter fun l => !l.1.eqv master
  rw [List.filter_append, List.filter_map] at hi
  have hnone : linked.filter ((fun l : Value × Value => !l.1.eqv master) ∘ fun k => (master, k)) =
      [] :=
    List.filter_eq_nil_iff.2 fun k _ => by simp [hm]
  rw [hnone, List.map_nil, List.nil_append] at hi
  refine (hi.trans hd).trans (.of_eq ?_)
  rw [List.filter_filter]
  refine List.filter_congr fun l _ => ?_
  cases l.1.eqv master <;> simp

/-! ## Loaded collections -/

theorem storedLinkKeys_eq {property : String} {ft : FieldType}
    (hft : typeAt rel.child (FieldName.segments property) = some ft) {rows : List Row}
    {children : List Record} (h : List.Forall₂ (KeyedBy rel property) rows children)
    (hrows : ∀ row ∈ rows, ∃ key,
      row.get? (rel.spec.childColumn (typeName rel.child)) = some key ∧
      ft.normalize key = .ok key ∧ key.isUnsetKey = false) :
    (storedLinkKeys rel.child property children).map some =
      rows.map fun row => row.get? (rel.spec.childColumn (typeName rel.child)) := by
  induction h with
  | nil => rfl
  | @cons row c rows children hc _ ih =>
    obtain ⟨key, hget, hn, hset⟩ := hrows row (by simp)
    have hnull : key.isNull = false := by
      cases key <;> first | rfl | simp [Value.isUnsetKey] at hset
    have hv : resolveValue rel.child c property = some key := by
      rw [resolveValue, hc key ft hget hnull hft hn]
    rw [List.map_cons, hget, ← ih fun row hr => hrows row (by simp [hr])]
    simp only [storedLinkKeys]
    rw [List.filterMap_cons_some (b := key)]
    · rfl
    · rw [hv]; simp [hset]

variable [DecidableEq τ] {t : τ} {p old r r' : Record} {cm : TableMap τ} {ft : FieldType}
  {w₀ w₁ : World τ δ} {master₀ : Value} {children : List Record}

/-- A loaded collection has the keys that the table links to its parent. -/
theorem LinkTable.loaded_keys (ht : LinkTable env m rel links) (hτ : Model.Sound τ)
    (hc : w₀.catalog.Sound env.config) (hm : m.Of t) (hrel : rel ∈ m.relations)
    (hk : rel.kind = .manyToMany) (hp : Typed t p) (hmaster : masterKey m rel.spec p = some master)
    (hload : loadRelation m rel env w₀ p = ⟨.ok (), w₁, old⟩)
    (hcm : w₁.catalog.map? rel.child = some cm)
    (hft : typeAt rel.child (FieldName.segments (linkProperty rel.spec cm)) = some ft)
    (hkeys : ∀ l ∈ links w₁.database, l.1.eqv master →
      ft.normalize l.2 = .ok l.2 ∧ l.2.isUnsetKey = false) :
    ∃ loaded, old.many? rel.slot = some loaded ∧
      (storedLinkKeys rel.child (linkProperty rel.spec cm) loaded).Perm
        (((links w₁.database).filter fun l => l.1.eqv master).map Prod.snd) := by
  obtain ⟨s, rows, cm', loaded, hs, hquery, hdb, hcm', hloaded, rfl⟩ :=
    loadRelation_ok hc hk hmaster hload
  rw [hcm] at hcm'; cases hcm'
  obtain ⟨hsame, hread⟩ := ht.read master s w₀.database rows hs hquery
  have hlinks : links w₁.database = links w₀.database := by rw [hdb, hsame]
  rw [← hlinks] at hread
  have hrows : ∀ row ∈ rows, ∃ key,
      row.get? (rel.spec.childColumn (typeName rel.child)) = some key ∧
      ft.normalize key = .ok key ∧ key.isUnsetKey = false := by
    intro row hrow
    obtain ⟨l, hl, heq⟩ := List.mem_map.1 (hread.mem_iff.1 (List.mem_map_of_mem hrow))
    obtain ⟨hl, hlm⟩ := List.mem_filter.1 hl
    exact ⟨l.2, heq.symm, hkeys l hl hlm⟩
  refine ⟨loaded, Record.many_of_slot (Record.slot_setSlot (hp.lt (hm.shape hτ rel hrel))), ?_⟩
  have hperm := hread
  have hkeyed := hloaded.imp fun _ _ hl => hl.keyedBy hτ
  rw [← storedLinkKeys_eq hft hkeyed hrows] at hperm
  refine (List.map_perm_map_iff fun _ _ => Option.some.inj).1 ?_
  rwa [List.map_map]

/-! ## Synchronization -/

variable {saveChild : τ → Session τ δ Record Unit}

/-- After a synchronization the keys that are linked to the parent are those of the stored
    children in its collection, exactly if none of these keys had more rows than the
    collection has children with it.  The rows of other parents stay as they are. -/
theorem synchronize_membership (hτ : Model.Sound τ) (ht : LinkTable env m rel links)
    (hc : w₀.catalog.Sound env.config) (hm : m.Of t) (hrel : rel ∈ m.relations)
    (hk : rel.kind = .manyToMany) (hwrite : rel.spec.readOnly = false)
    -- The old parent was loaded from the table.
    (hp : Typed t p) (hmaster₀ : masterKey m rel.spec p = some master₀)
    (hload : loadRelation m rel env w₀ p = ⟨.ok (), w₁, old⟩)
    -- Its collection has not been written since, and the same parent is synchronized now.
    (hlater : w₁.Later env.config w) (hlinks : (links w.database).Perm (links w₁.database))
    (hmaster : masterKey m rel.spec r = some master) (hsame : master₀.eqv master)
    (hnew : r.many? rel.slot = some children)
    -- The children store the keys that are in the table.
    (hcm : w₁.catalog.map? rel.child = some cm)
    (hft : typeAt rel.child (FieldName.segments (linkProperty rel.spec cm)) = some ft)
    (hkeys : ∀ l ∈ links w₁.database, ft.normalize l.2 = .ok l.2 ∧ l.2.isUnsetKey = false)
    (h : synchronize saveChild m rel (some old) env w r = ⟨.ok (), w', r'⟩) :
    ((∀ v, Linked (links w'.database) master v ↔
        ∃ k ∈ linkKeysOf rel (linkProperty rel.spec cm) children, k.eqv v) ↔
      ∀ k ∈ linkKeysOf rel (linkProperty rel.spec cm) children,
        linkCount (links w.database) master k ≤
          (linkKeysOf rel (linkProperty rel.spec cm) children).countP fun n => n.eqv k) ∧
    ((links w'.database).filter fun l => !l.1.eqv master).Perm
      ((links w.database).filter fun l => !l.1.eqv master) := by
  obtain ⟨loaded, hold, hperm⟩ := ht.loaded_keys hτ hc hm hrel hk hp hmaster₀ hload hcm hft
    fun l hl _ => hkeys l hl
  have hself : master.eqv master := Value.eqv_trans (by rwa [Value.eqv_comm]) hsame
  have hcount (v : Value) :
      (storedLinkKeys rel.child (linkProperty rel.spec cm) loaded).countP (fun k => k.eqv v) =
        linkCount (links w.database) master v := by
    rw [hperm.countP_eq, List.countP_map, List.countP_filter, linkCount, hlinks.countP_eq]
    refine List.countP_congr fun l _ => ?_
    rw [Value.eqv_congr_right hsame, Bool.and_comm]
    rfl
  unfold synchronize at h
  rw [hwrite, if_neg (by simp), hk] at h
  obtain ⟨rfl, ⟨hnone, -⟩ | ⟨hnone, -⟩ | ⟨children', master', cm', c, w₂, w₃, w₄, es, hnew',
    hmaster', hcm', hdb, ⟨hdel, hins⟩, rfl⟩⟩ := synchronizeLinks_ok h
  · rw [hnew] at hnone; cases hnone
  · rw [hmaster] at hnone; cases hnone
  rw [hnew] at hnew'; cases hnew'
  rw [hmaster] at hmaster'; cases hmaster'
  rw [Catalog.tableMap_of_map (hlater.maps _ _ hcm)] at hcm'; cases hcm'
  simp only [Option.bind_some, hold, Option.getD_some] at hdel hins
  rw [World.logged_database]
  refine ⟨?_, hdb ▸ ht.others hself hdel hins⟩
  have hafter := ht.linkCount_changes hself (fun v => by rw [hcount, hdb]) hdel hins
  simp only [linked_iff, hafter, hdb]
  exact forall_reached_iff

theorem linkTable_links :
    LinkTable Sample.linking Sample.taggedMap Sample.tagsRelation id where
  read master s d rows hs hq := by
    have hparams := TableMap.relationRead_ok hs
    simp only [Sample.linking, Sample.links, hparams, Except.ok.injEq] at hq ⊢
    subst hq
    refine ⟨trivial, .of_eq ?_⟩
    rw [List.map_map]
    rfl
  delete master key s d n hs _ := by
    obtain ⟨hkind, hparams⟩ := TableMap.linkDelete_ok hs
    simp only [Sample.linking, Sample.links, hkind, hparams]
    exact .refl _
  insert master key s d n hs _ := by
    obtain ⟨hkind, hparams⟩ := TableMap.linkInsert_ok hs
    simp only [Sample.linking, Sample.links, hkind, hparams]
    exact .refl _

/-- Order 7 exchanges tag 2 for tag 4, and keeps tag 3. -/
theorem tags_exchanged :
    let loaded := loadRelation Sample.taggedMap Sample.tagsRelation Sample.linking
      (Sample.tagged [(7, 2), (8, 2), (7, 3)]) (Sample.taggedOrder 7 [])
    let saved := synchronize (fun _ => pure ()) Sample.taggedMap Sample.tagsRelation
      (some loaded.focus) Sample.linking loaded.world
      (Sample.taggedOrder 7 [Sample.tagOf 3, Sample.tagOf 4])
    ∀ v, Linked saved.world.database (.int 7) v ↔
      ∃ k ∈ linkKeysOf Sample.tagsRelation "Id" [Sample.tagOf 3, Sample.tagOf 4], k.eqv v := by
  intro loaded saved
  have hcatalog : (loaded.world.catalog.map? Sample.tag).map
      (linkProperty Sample.tagsRelation.spec) = some "Id" := by decide +kernel
  obtain ⟨cm, hcm, hproperty⟩ := Option.map_eq_some_iff.1 hcatalog
  have hlinks : loaded.world.database = [(.int 7, .int 2), (.int 8, .int 2), (.int 7, .int 3)] := by
    decide +kernel
  have hload : loadRelation Sample.taggedMap Sample.tagsRelation Sample.linking
      (Sample.tagged [(7, 2), (8, 2), (7, 3)]) (Sample.taggedOrder 7 []) =
        ⟨.ok (), loaded.world, loaded.focus⟩ := run_of_isOk (by decide +kernel)
  have hsave : synchronize (fun _ => pure ()) Sample.taggedMap Sample.tagsRelation
      (some loaded.focus) Sample.linking loaded.world
      (Sample.taggedOrder 7 [Sample.tagOf 3, Sample.tagOf 4]) =
        ⟨.ok (), saved.world, saved.focus⟩ := run_of_isOk (by decide +kernel)
  have hkeys : ∀ l ∈ loaded.world.database,
      (FieldType.plain (.int .i64)).normalize l.2 = .ok l.2 ∧ l.2.isUnsetKey = false := by
    rw [hlinks]
    intro l hl
    simp only [List.mem_cons, List.not_mem_nil, or_false] at hl
    rcases hl with rfl | rfl | rfl <;> exact ⟨Sample.normalize_number _, rfl⟩
  have h := synchronize_membership Sample.sound linkTable_links Catalog.sound_empty
    Sample.taggedMap_of (List.mem_singleton.2 rfl) rfl rfl (Sample.typed_taggedOrder 7) rfl hload
    .refl (.refl _) rfl rfl rfl hcm (by rw [hproperty]; rfl) hkeys hsave
  rw [hproperty] at h
  refine h.1.2 ?_
  rw [id, hlinks]
  decide +kernel

/-- The tag of order 7 has two rows and is kept, but the order has no tag afterwards. -/
theorem repeated_tag_lost :
    let loaded := loadRelation Sample.taggedMap Sample.tagsRelation Sample.linking
      (Sample.tagged [(7, 2), (8, 2), (7, 2)]) (Sample.taggedOrder 7 [])
    let saved := synchronize (fun _ => pure ()) Sample.taggedMap Sample.tagsRelation
      (some loaded.focus) Sample.linking loaded.world (Sample.taggedOrder 7 [Sample.tagOf 2])
    loaded.result.isOk = true ∧ saved.result.isOk = true ∧
      linkKeysOf Sample.tagsRelation "Id" [Sample.tagOf 2] = [.int 2] ∧
      saved.world.database = [(.int 8, .int 2)] := by
  decide +kernel

end Session

end RecordGraph
