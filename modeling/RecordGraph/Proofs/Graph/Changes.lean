/-
  What the changes of a collection account for.

  Every new record is saved, once, or has an unchanged counterpart of its own among the
  old ones; every old record is dropped or has the identity of a new one.
-/
import RecordGraph.Proofs.Graph.Identity

namespace RecordGraph

variable {τ : Type} [Model τ] {t : τ} {keys : List String} {old new : List Record}
  {n o : Record}

/-- The records in the given places are saved and the given old ones dropped, and nothing
    that has changed is left out. -/
structure Accounted (t : τ) (keys : List String) (old new : List Record) (saved : List Nat)
    (dropped : List Record) : Prop where
  /-- New records that are not saved have an unchanged counterpart, each one of its own. -/
  saves : ∃ kept : List (Nat × Nat), (saved ++ kept.map Prod.fst).Perm (List.range new.length) ∧
    (kept.map Prod.snd).Nodup ∧ ∀ e ∈ kept, ∃ n o, new[e.1]? = some n ∧ old[e.2]? = some o ∧
      sameIdentity t keys o n ∧ differs t o n = false
  /-- Old records that are not dropped are in the new list. -/
  drops : ∀ o ∈ old, o ∈ dropped ∨ ∃ n ∈ new, sameIdentity t keys o n

theorem Accounted.lt {saved : List Nat} {dropped : List Record}
    (h : Accounted t keys old new saved dropped) : ∀ i ∈ saved, i < new.length := by
  intro i hi
  obtain ⟨kept, hp, -⟩ := h.saves
  exact List.mem_range.1 (hp.mem_iff.1 (List.mem_append_left _ hi))

namespace Changes

/-- The pairs of the pairing whose fields differ, or do not. -/
def pairsOf (t : τ) (keys : List String) (old new : List Record) (changed : Bool) :
    List ((Nat × Record) × (Nat × Record)) :=
  (identityPairing t keys old new).pairs.filter fun (n, o) => differs t o.2 n.2 == changed

theorem unchanged_eq : (between t keys old new).unchanged =
    (pairsOf t keys old new false).map fun e => (e.1.1, e.2.1) := rfl

theorem pairsOf_perm : (pairsOf t keys old new true ++ pairsOf t keys old new false).Perm
    (identityPairing t keys old new).pairs := by
  have hnot : (fun e : (Nat × Record) × (Nat × Record) => differs t e.2.2 e.1.2 == false) =
      fun e => !(differs t e.2.2 e.1.2 == true) := by
    funext e; cases differs t e.2.2 e.1.2 <;> rfl
  unfold pairsOf
  rw [hnot]
  exact List.filter_append_perm _ _

/-! ## Places -/

/-- The new and old places of the records that are in both lists. -/
def kept (c : Changes) : List (Nat × Nat) := c.updates ++ c.unchanged

/-- The places of the pairs whose fields differ, or do not. -/
def placesOf (t : τ) (keys : List String) (old new : List Record) (changed : Bool) :
    List (Nat × Nat) :=
  (pairsOf t keys old new changed).map fun p => (p.1.1, p.2.1)

theorem kept_eq : (between t keys old new).kept =
    placesOf t keys old new true ++ placesOf t keys old new false := rfl

theorem kept_perm : (between t keys old new).kept.Perm
    ((identityPairing t keys old new).pairs.map fun p => (p.1.1, p.2.1)) := by
  rw [kept_eq, placesOf, placesOf, ← List.map_append]
  exact pairsOf_perm.map _

/-- Each place of the old list is a deletion or kept, once. -/
theorem olds_perm : ((between t keys old new).deletions ++
    (between t keys old new).kept.map Prod.snd).Perm (List.range old.length) := by
  have hold := (@identityPairing_old _ _ t keys old new).map Prod.fst
  rw [placed_fst, List.map_append, List.map_map] at hold
  have hkept := (@kept_perm _ _ t keys old new).map Prod.snd
  rw [List.map_map] at hkept
  exact (hkept.append_left _).trans (List.perm_append_comm.trans hold)

/-- Each place of the new list is an insertion or kept, once. -/
theorem news_perm : ((between t keys old new).insertions ++
    (between t keys old new).kept.map Prod.fst).Perm (List.range new.length) := by
  have hnew := (@identityPairing_new _ _ t keys old new).map Prod.fst
  rw [placed_fst, List.map_append, List.map_map] at hnew
  have hkept := (@kept_perm _ _ t keys old new).map Prod.fst
  rw [List.map_map] at hkept
  exact (hkept.append_left _).trans (List.perm_append_comm.trans hnew)

/-- Each place of the new list is an update, an insertion or unchanged, once. -/
theorem places_perm : ((between t keys old new).updates.map Prod.fst ++
    (between t keys old new).insertions ++ (between t keys old new).unchanged.map Prod.fst).Perm
      (List.range new.length) := by
  have hnew := @news_perm _ _ t keys old new
  rw [kept, List.map_append, ← List.append_assoc] at hnew
  exact (List.perm_append_comm.append_right _).trans hnew

/-- Records are kept each in a place of its own in the old list. -/
theorem nodup_unchanged : ((between t keys old new).unchanged.map Prod.snd).Nodup := by
  have hkept := (List.nodup_append.1 ((@olds_perm _ _ t keys old new).nodup_iff.2
    List.nodup_range)).2.1
  exact hkept.sublist ((List.sublist_append_right _ _).map _)

/-! ## Pairs -/

theorem mem_identityPairing {i j : Nat}
    (h : ((i, n), j, o) ∈ (identityPairing t keys old new).pairs) :
    new[i]? = some n ∧ old[j]? = some o ∧ sameIdentity t keys o n := by
  have hsame := pairUp_same h
  exact ⟨mem_placed.1 (pairUp_new_mem h), mem_placed.1 (pairUp_old_mem h), hsame⟩

theorem mem_pairsOf {changed : Bool} {e : (Nat × Record) × (Nat × Record)}
    (h : e ∈ pairsOf t keys old new changed) : new[e.1.1]? = some e.1.2 ∧
      old[e.2.1]? = some e.2.2 ∧ sameIdentity t keys e.2.2 e.1.2 ∧
      differs t e.2.2 e.1.2 = changed := by
  obtain ⟨⟨i, n⟩, j, o⟩ := e
  obtain ⟨hp, hd⟩ := List.mem_filter.1 h
  obtain ⟨hn, ho, hsame⟩ := mem_identityPairing hp
  exact ⟨hn, ho, hsame, by simpa using hd⟩

theorem accounted : Accounted t keys old new
    ((between t keys old new).updates.map Prod.fst ++ (between t keys old new).insertions)
    ((between t keys old new).deletions.filterMap (old[·]?)) where
  saves := by
    refine ⟨(between t keys old new).unchanged, places_perm, nodup_unchanged, fun e he => ?_⟩
    rw [unchanged_eq] at he
    obtain ⟨⟨n, o⟩, hp, rfl⟩ := List.mem_map.1 he
    exact ⟨n.2, o.2, mem_pairsOf hp⟩
  drops o ho := by
    obtain ⟨j, hj⟩ := List.getElem?_of_mem ho
    have hmem := (@identityPairing_old _ _ t keys old new).mem_iff.2 (mem_placed.2 hj)
    rcases List.mem_append.1 hmem with hp | hr
    · obtain ⟨⟨n, _⟩, hp, rfl⟩ := List.mem_map.1 hp
      obtain ⟨hn, -, hsame⟩ := mem_identityPairing hp
      exact .inr ⟨n.2, List.mem_of_getElem? hn, hsame⟩
    · exact .inl (List.mem_filterMap.2 ⟨j, mem_deletions.2 ⟨o, hj, hr⟩, hj⟩)

end Changes

theorem accounted_allInserted : Accounted t keys [] new (List.range new.length) [] where
  saves := ⟨[], by simp, List.nodup_nil, by simp⟩
  drops := by simp

end RecordGraph
