/-
  The changes of a collection as a partition of its places.

  * `Changes.Partition`: every place of the old and of the new list is spoken for, once; what is
    paired has the same identity and is an update exactly if it differs; no two records that are
    left over on either side could still have been paired.
  * `Changes.between_partition`: the changes between any two lists are such.
-/
import RecordGraph.Proofs.Graph.Changes

namespace RecordGraph

variable {τ : Type} [Model τ] {t : τ} {keys : List String} {old new : List Record}

namespace Changes

/-- The changes account for every place of both lists, and pair as much as can be paired. -/
structure Partition (t : τ) (keys : List String) (old new : List Record) (c : Changes) :
    Prop where
  /-- Every old place is a deletion or kept, once. -/
  olds : (c.deletions ++ c.kept.map Prod.snd).Perm (List.range old.length)
  /-- Every new place is an insertion or kept, once. -/
  news : (c.insertions ++ c.kept.map Prod.fst).Perm (List.range new.length)
  /-- Records that are paired have been stored under the same keys, and are an update exactly if
      their fields differ. -/
  paired : ∀ e ∈ c.kept, ∃ n o, new[e.1]? = some n ∧ old[e.2]? = some o ∧
    isNew t n = false ∧ isNew t o = false ∧ sameIdentity t keys o n ∧
    (e ∈ c.updates ↔ differs t o n) ∧ (e ∈ c.unchanged ↔ differs t o n = false)
  /-- No deleted record has the identity of an inserted one. -/
  maximal : ∀ i ∈ c.deletions, ∀ j ∈ c.insertions, ∀ o n, old[i]? = some o → new[j]? = some n →
    sameIdentity t keys o n = false
  deletions_ascending : c.deletions.Pairwise (· < ·)
  insertions_ascending : c.insertions.Pairwise (· < ·)

variable {n o : Record} {e : Nat × Nat}

/-! ## Pairs -/

theorem mem_placesOf {changed : Bool} (h : e ∈ placesOf t keys old new changed) :
    ∃ n o, new[e.1]? = some n ∧ old[e.2]? = some o ∧ sameIdentity t keys o n ∧
      differs t o n = changed := by
  obtain ⟨p, hp, rfl⟩ := List.mem_map.1 h
  exact ⟨p.1.2, p.2.2, mem_pairsOf hp⟩

theorem mem_kept (h : e ∈ (between t keys old new).kept) :
    ∃ n o, new[e.1]? = some n ∧ old[e.2]? = some o ∧ sameIdentity t keys o n := by
  rw [kept_eq] at h
  rcases List.mem_append.1 h with h | h <;>
  · obtain ⟨n, o, hn, ho, hsame, -⟩ := mem_placesOf h
    exact ⟨n, o, hn, ho, hsame⟩

/-- Whether a pair is an update is said by the records that it pairs. -/
theorem mem_updates_iff (he : e ∈ (between t keys old new).kept) (hn : new[e.1]? = some n)
    (ho : old[e.2]? = some o) : (e ∈ (between t keys old new).updates ↔ differs t o n) ∧
      (e ∈ (between t keys old new).unchanged ↔ differs t o n = false) := by
  have hdiffers {changed : Bool} (h : e ∈ placesOf t keys old new changed) :
      differs t o n = changed := by
    obtain ⟨n', o', hn', ho', -, hd⟩ := mem_placesOf h
    rw [hn, Option.some.injEq] at hn'
    rw [ho, Option.some.injEq] at ho'
    rw [hn', ho', hd]
  rw [kept_eq] at he
  rcases List.mem_append.1 he with hu | hu
  · have hd := hdiffers hu
    exact ⟨iff_of_true hu hd, fun hf => hdiffers hf, fun hf => by rw [hd] at hf; cases hf⟩
  · have hd := hdiffers hu
    exact ⟨⟨fun ht => hdiffers ht, fun ht => by rw [hd] at ht; cases ht⟩, iff_of_true hu hd⟩

/-! ## What is left over -/

theorem mem_insertions {i : Nat} : i ∈ (between t keys old new).insertions ↔
    ∃ n, new[i]? = some n ∧ (i, n) ∈ (identityPairing t keys old new).added := by
  constructor
  · intro h
    obtain ⟨⟨j, n⟩, hadded, rfl⟩ := List.mem_map.1 h
    exact ⟨n, mem_placed.1 ((pairUp_added_sublist _ _).mem hadded), hadded⟩
  · rintro ⟨n, -, h⟩; exact List.mem_map_of_mem h

theorem between_partition :
    Partition t keys old new (between t keys old new) where
  olds := olds_perm
  news := news_perm
  paired e he := by
    obtain ⟨n, o, hn, ho, hsame⟩ := mem_kept he
    obtain ⟨hold, hnew, -⟩ := sameIdentity_iff.1 hsame
    exact ⟨n, o, hn, ho, hnew, hold, hsame, mem_updates_iff he hn ho⟩
  maximal i hi j hj o n ho hn := by
    obtain ⟨o', ho', hremoved⟩ := mem_deletions.1 hi
    obtain ⟨n', hn', hadded⟩ := mem_insertions.1 hj
    rw [ho, Option.some.injEq] at ho'
    rw [hn, Option.some.injEq] at hn'
    subst ho' hn'
    exact pairUp_apart hadded hremoved
  deletions_ascending := places_ascending (pairUp_removed_sublist _ _)
  insertions_ascending := places_ascending (pairUp_added_sublist _ _)

end Changes

end RecordGraph
