/-
  Which keys a link table loses and gains.

  Keys that are equal are a class of the pairing, so of each key the table loses the
  surplus of the old list over the new one, and gains the surplus of the new list.
-/
import Mathlib.Data.List.Perm.Subperm
import RecordGraph.Proofs.Graph.Pairing
import RecordGraph.Proofs.Value.Equality

namespace RecordGraph

/-- The old keys without a new one. -/
def unlinkedKeys (old new : List Value) : List Value :=
  (membershipChanges old new).1.filterMap (old[·]?)

/-- The new keys without an old one. -/
def linkedKeys (old new : List Value) : List Value :=
  (membershipChanges old new).2.filterMap (new[·]?)

variable {old new : List Value}

theorem unlinkedKeys_eq : unlinkedKeys old new =
    (pairUp (fun n o => o.eqv n) (placed new) (placed old)).removed.map Prod.snd :=
  filterMap_places fun _ he => (pairUp_old_perm _ _).mem_iff.1 (List.mem_append_right _ he)

theorem linkedKeys_eq : linkedKeys old new =
    (pairUp (fun n o => o.eqv n) (placed new) (placed old)).added.map Prod.snd :=
  filterMap_places fun _ he => (pairUp_new_perm _ _).mem_iff.1 (List.mem_append_right _ he)

theorem isClass_eqv (v : Value) :
    IsClass (fun n o : Value => o.eqv n) (fun n => n.eqv v) fun o => o.eqv v where
  agree _ _ h := (Value.eqv_congr_left h v).symm
  meet _ _ hn ho := Value.eqv_trans ho (by rwa [Value.eqv_comm])

theorem countP_unlinkedKeys (v : Value) : (unlinkedKeys old new).countP (fun k => k.eqv v) =
    old.countP (fun k => k.eqv v) - new.countP (fun k => k.eqv v) := by
  rw [unlinkedKeys_eq, List.countP_map, ← @countP_placed _ new, ← @countP_placed _ old]
  exact countP_removed (isClass_eqv v) (placed new) (placed old)

theorem countP_linkedKeys (v : Value) : (linkedKeys old new).countP (fun k => k.eqv v) =
    new.countP (fun k => k.eqv v) - old.countP (fun k => k.eqv v) := by
  rw [linkedKeys_eq, List.countP_map, ← @countP_placed _ new, ← @countP_placed _ old]
  exact countP_added (isClass_eqv v) (placed new) (placed old)

theorem mem_of_mem_unlinkedKeys {k : Value} (h : k ∈ unlinkedKeys old new) : k ∈ old := by
  obtain ⟨i, -, hi⟩ := List.mem_filterMap.1 h
  exact List.mem_of_getElem? hi

theorem mem_of_mem_linkedKeys {k : Value} (h : k ∈ linkedKeys old new) : k ∈ new := by
  obtain ⟨i, -, hi⟩ := List.mem_filterMap.1 h
  exact List.mem_of_getElem? hi

/-- The same keys, each of them equal to itself, lose and gain nothing. -/
theorem membershipChanges_perm (h : new.Perm old) (hself : ∀ k ∈ new, k.eqv k) :
    unlinkedKeys old new = [] ∧ linkedKeys old new = [] := by
  -- A key that is left over is left over in its class, but old and new have equally many keys
  -- of each class.
  have hnone {left : List Value} (hsub : ∀ k ∈ left, k ∈ new)
      (hcount : ∀ v, left.countP (fun k => k.eqv v) = 0) : left = [] := by
    refine List.eq_nil_iff_forall_not_mem.2 fun k hk => ?_
    exact List.countP_eq_zero.1 (hcount k) k hk (hself k (hsub k hk))
  constructor
  · refine hnone (fun k hk => h.mem_iff.2 (mem_of_mem_unlinkedKeys hk)) fun v => ?_
    rw [countP_unlinkedKeys, h.countP_eq, Nat.sub_self]
  · refine hnone (fun k hk => mem_of_mem_linkedKeys hk) fun v => ?_
    rw [countP_linkedKeys, h.countP_eq, Nat.sub_self]

/-- If no key is lost or gained, every key has a counterpart. -/
theorem paired_of_membershipChanges (hold : unlinkedKeys old new = [])
    (hnew : linkedKeys old new = []) :
    new.length = old.length ∧ ∀ k ∈ new, k.eqv k := by
  have hn := @pairUp_new_perm _ _ (fun n o : Value => o.eqv n) (placed new) (placed old)
  have ho := @pairUp_old_perm _ _ (fun n o : Value => o.eqv n) (placed new) (placed old)
  rw [unlinkedKeys_eq, List.map_eq_nil_iff] at hold
  rw [linkedKeys_eq, List.map_eq_nil_iff] at hnew
  rw [hnew, List.append_nil] at hn
  rw [hold, List.append_nil] at ho
  constructor
  · have hln := hn.length_eq
    have hlo := ho.length_eq
    simp only [List.length_map, placed, List.length_mapIdx] at hln hlo
    exact hln.symm.trans hlo
  · intro k hk
    obtain ⟨i, hi⟩ := List.mem_iff_getElem?.1 hk
    obtain ⟨⟨n, o⟩, hp, rfl⟩ := List.mem_map.1 (hn.mem_iff.2 (mem_placed.2 hi))
    have hon : o.2.eqv k := @pairUp_same _ _ (fun n o : Value => o.eqv n) _ _ _ _ hp
    exact Value.eqv_trans (by rwa [Value.eqv_comm]) hon

/-- Between a list of keys and ones taken from it nothing changes exactly if all of them are
    taken and every one of them equals itself. -/
theorem no_changes_iff (h : new.Subperm old) :
    unlinkedKeys old new = [] ∧ linkedKeys old new = [] ↔
      new.length = old.length ∧ ∀ k ∈ new, k.eqv k := by
  constructor
  · rintro ⟨hold, hnew⟩
    exact paired_of_membershipChanges hold hnew
  · rintro ⟨hlen, hself⟩
    exact membershipChanges_perm (h.perm_of_length_le (Nat.le_of_eq hlen.symm)) hself

end RecordGraph
