/-
  The changes between two memberships are as few as there can be.

  * `LinkChange`: one key more or one key less; an unlink takes one of the keys that are equal to
    its own, if there is one.
  * `MinimalChanges`: the keys to unlink and to link make up the difference of the two lists as
    multisets, and no other changes from the one to the other are fewer.
  * `membershipChanges_minimal`: so are the changes between any two lists of keys that equal
    themselves.  A key that is not a number has no counterpart, not even itself, and is taken off
    and put back every time.
-/
import RecordGraph.Proofs.Graph.Membership

namespace RecordGraph

/-- How often a key is in a list. -/
def occurrences (k : Value) (ks : List Value) : Nat := ks.countP fun l => l.eqv k

/-- Every key is in both lists equally often. -/
def EquallyOften (ks ks' : List Value) : Prop := ∀ k, occurrences k ks = occurrences k ks'

variable {k : Value} {ks us ls old new : List Value}

/-! ## Counting -/

theorem occurrences_cons (k l : Value) (ks : List Value) :
    occurrences k (l :: ks) = occurrences k ks + if l.eqv k then 1 else 0 := List.countP_cons

theorem occurrences_pos : 0 < occurrences k ks ↔ ∃ l ∈ ks, l.eqv k := List.countP_pos_iff

/-- A list of keys that equal themselves is no longer than one in which each of them is at least
    as often. -/
theorem length_le_of_occurrences (hself : ∀ k ∈ ks, k.eqv k)
    (h : ∀ k, occurrences k ks ≤ occurrences k ls) : ks.length ≤ ls.length := by
  induction ks generalizing ls with
  | nil => exact Nat.zero_le _
  | cons k ks ih =>
    have hk : 0 < occurrences k ls := by
      have hle := h k
      rw [occurrences_cons, if_pos (hself k List.mem_cons_self)] at hle
      omega
    obtain ⟨l, hl, hlk⟩ := occurrences_pos.1 hk
    obtain ⟨before, after, rfl⟩ := List.append_of_mem hl
    -- One key of each list is set aside, and they are equal, so the counts go down together.
    have hrest : ∀ v, occurrences v ks ≤ occurrences v (before ++ after) := by
      intro v
      have hle := h v
      have hmiddle : occurrences v (before ++ l :: after) =
          occurrences v (l :: (before ++ after)) := List.perm_middle.countP_eq _
      rw [hmiddle, occurrences_cons, occurrences_cons, Value.eqv_congr_left hlk] at hle
      omega
    have hlen := ih (fun k hk => hself k (List.mem_cons_of_mem _ hk)) hrest
    simp only [List.length_append, List.length_cons] at hlen ⊢
    omega

/-! ## Changes of single links -/

/-- A key more or a key less. -/
inductive LinkChange where
  | link (k : Value)
  | unlink (k : Value)

namespace LinkChange

/-- The keys after a change. -/
def apply (ks : List Value) : LinkChange → List Value
  | link k => k :: ks
  | unlink k => ks.eraseP fun l => l.eqv k

/-- The keys after some changes, one after the other. -/
def applyAll (ks : List Value) (changes : List LinkChange) : List Value := changes.foldl apply ks

/-- The keys that some changes link. -/
def links : List LinkChange → List Value
  | [] => []
  | link k :: cs => k :: links cs
  | unlink _ :: cs => links cs

/-- The keys that some changes unlink. -/
def unlinks : List LinkChange → List Value
  | [] => []
  | link _ :: cs => unlinks cs
  | unlink k :: cs => k :: unlinks cs

/-- To unlink a key takes one key away, if there is an equal one. -/
theorem occurrences_eraseP (k l : Value) (ks : List Value) :
    occurrences k ks = occurrences k (ks.eraseP fun x => x.eqv l) +
      if 0 < occurrences l ks ∧ l.eqv k then 1 else 0 := by
  cases hf : ks.find? fun x => x.eqv l with
  | none =>
    have hnone : ¬ 0 < occurrences l ks := by
      rw [occurrences_pos]
      rintro ⟨x, hx, hxl⟩
      exact List.find?_eq_none.1 hf x hx hxl
    rw [List.eraseP_of_forall_not (List.find?_eq_none.1 hf), if_neg fun h => hnone h.1,
      Nat.add_zero]
  | some x =>
    have hxl : x.eqv l := @List.find?_some _ (fun x : Value => x.eqv l) _ _ hf
    have hpos : 0 < occurrences l ks := occurrences_pos.2 ⟨x, List.mem_of_find?_eq_some hf, hxl⟩
    have hperm : occurrences k ks = occurrences k (x :: ks.eraseP fun x => x.eqv l) :=
      (perm_cons_eraseP hf).countP_eq _
    simp only [hperm, occurrences_cons, Value.eqv_congr_left hxl, hpos, true_and]

/-! ## What changes can do -/

theorem applyAll_cons (ks : List Value) (c : LinkChange) (cs : List LinkChange) :
    applyAll ks (c :: cs) = applyAll (apply ks c) cs := rfl

theorem applyAll_append (ks : List Value) (cs cs' : List LinkChange) :
    applyAll ks (cs ++ cs') = applyAll (applyAll ks cs) cs' := List.foldl_append

/-- No key is lost more often than it is unlinked. -/
theorem occurrences_le_applyAll (k : Value) (ks : List Value) (cs : List LinkChange) :
    occurrences k ks ≤ occurrences k (applyAll ks cs) + occurrences k (unlinks cs) := by
  induction cs generalizing ks with
  | nil => exact Nat.le_add_right _ _
  | cons c cs ih =>
    have hrest := ih (apply ks c)
    rw [applyAll_cons]
    cases c with
    | link l =>
      simp only [apply, unlinks, occurrences_cons] at hrest ⊢
      omega
    | unlink l =>
      have herase := occurrences_eraseP k l ks
      simp only [apply, unlinks, occurrences_cons] at hrest ⊢
      split at herase
      · rename_i hl
        rw [if_pos hl.2]
        omega
      · omega

/-- No key is gained more often than it is linked. -/
theorem applyAll_le_occurrences (k : Value) (ks : List Value) (cs : List LinkChange) :
    occurrences k (applyAll ks cs) ≤ occurrences k ks + occurrences k (links cs) := by
  induction cs generalizing ks with
  | nil => exact Nat.le_add_right _ _
  | cons c cs ih =>
    have hrest := ih (apply ks c)
    rw [applyAll_cons]
    cases c with
    | link l =>
      simp only [apply, links, occurrences_cons] at hrest ⊢
      omega
    | unlink l =>
      have herase := occurrences_eraseP k l ks
      simp only [apply, links] at hrest ⊢
      omega

/-- Every change is a link or an unlink. -/
theorem length_changes (cs : List LinkChange) :
    (unlinks cs).length + (links cs).length = cs.length := by
  induction cs with
  | nil => rfl
  | cons c cs ih => cases c <;> simp only [unlinks, links, List.length_cons] <;> omega

/-- Keys that are there are taken away, each as often as it is unlinked. -/
theorem occurrences_unlinkAll (h : ∀ k, occurrences k us ≤ occurrences k ks) (k : Value) :
    occurrences k (applyAll ks (us.map unlink)) + occurrences k us = occurrences k ks := by
  induction us generalizing ks with
  | nil => rfl
  | cons u us ih =>
    rw [List.map_cons, applyAll_cons]
    -- Of a key that does not equal itself there is none to be counted.
    have herase : ∀ v, occurrences v ks = occurrences v (ks.eraseP fun x => x.eqv u) +
        if u.eqv v then 1 else 0 := by
      intro v
      rw [occurrences_eraseP v u ks]
      by_cases huv : u.eqv v
      · have hu := h u
        rw [occurrences_cons, if_pos (Value.eqv_refl_left huv)] at hu
        rw [if_pos huv, if_pos ⟨by omega, huv⟩]
      · rw [if_neg huv, if_neg fun h => huv h.2]
    have hrest : ∀ v, occurrences v us ≤ occurrences v (apply ks (unlink u)) := by
      intro v
      have hv := h v
      rw [herase, occurrences_cons] at hv
      exact Nat.le_of_add_le_add_right hv
    rw [herase, occurrences_cons, ← Nat.add_assoc, ih hrest, apply]

theorem occurrences_linkAll (k : Value) (ks ls : List Value) :
    occurrences k (applyAll ks (ls.map link)) = occurrences k ks + occurrences k ls := by
  induction ls generalizing ks with
  | nil => rfl
  | cons l ls ih =>
    rw [List.map_cons, applyAll_cons, ih, apply, occurrences_cons, occurrences_cons]
    omega

end LinkChange

/-! ## The changes between two memberships -/

open LinkChange

/-- The places of keys to unlink and of keys to link make up the difference of two lists, and no
    changes from the one to the other are fewer. -/
structure MinimalChanges (old new : List Value) (unlinked linked : List Nat) : Prop where
  /-- Without the unlinked keys and with the linked ones, every key is there as often as it
      should be. -/
  counts : ∀ k, (occurrences k old : Int) - occurrences k (unlinked.filterMap (old[·]?)) +
    occurrences k (linked.filterMap (new[·]?)) = occurrences k new
  /-- No key is unlinked and linked. -/
  apart : ∀ i ∈ unlinked, ∀ j ∈ linked, ∀ k l, old[i]? = some k → new[j]? = some l →
    k.eqv l = false
  unlinked_ascending : unlinked.Pairwise (· < ·)
  linked_ascending : linked.Pairwise (· < ·)
  /-- The changes lead from the one list to the other. -/
  reached : EquallyOften (applyAll old ((unlinked.filterMap (old[·]?)).map unlink ++
    (linked.filterMap (new[·]?)).map link)) new
  /-- No other changes that do so are fewer. -/
  fewest : ∀ cs, EquallyOften (applyAll old cs) new → unlinked.length + linked.length ≤ cs.length

theorem occurrences_unlinkedKeys (k : Value) :
    occurrences k (unlinkedKeys old new) = occurrences k old - occurrences k new :=
  countP_unlinkedKeys k

theorem occurrences_linkedKeys (k : Value) :
    occurrences k (linkedKeys old new) = occurrences k new - occurrences k old :=
  countP_linkedKeys k

theorem length_unlinkedKeys :
    (unlinkedKeys old new).length = (membershipChanges old new).1.length := by
  rw [unlinkedKeys_eq, List.length_map]
  exact (List.length_map _).symm

theorem length_linkedKeys :
    (linkedKeys old new).length = (membershipChanges old new).2.length := by
  rw [linkedKeys_eq, List.length_map]
  exact (List.length_map _).symm

theorem reached_membershipChanges : EquallyOften
    (applyAll old ((unlinkedKeys old new).map unlink ++ (linkedKeys old new).map link)) new := by
  intro k
  have hthere : ∀ v, occurrences v (unlinkedKeys old new) ≤ occurrences v old := by
    intro v
    rw [occurrences_unlinkedKeys]
    exact Nat.sub_le _ _
  have hunlink := occurrences_unlinkAll hthere k
  rw [applyAll_append, occurrences_linkAll]
  rw [occurrences_unlinkedKeys] at hunlink
  rw [occurrences_linkedKeys]
  omega

/-- Whatever changes the one list into the other unlinks and links at least these keys. -/
theorem fewest_membershipChanges (hold : ∀ k ∈ old, k.eqv k) (hnew : ∀ k ∈ new, k.eqv k)
    {cs : List LinkChange} (h : EquallyOften (applyAll old cs) new) :
    (unlinkedKeys old new).length + (linkedKeys old new).length ≤ cs.length := by
  have hunlinked : (unlinkedKeys old new).length ≤ (unlinks cs).length := by
    refine length_le_of_occurrences (fun k hk => hold k (mem_of_mem_unlinkedKeys hk)) fun k => ?_
    have hle := occurrences_le_applyAll k old cs
    rw [h k] at hle
    rw [occurrences_unlinkedKeys]
    omega
  have hlinked : (linkedKeys old new).length ≤ (links cs).length := by
    refine length_le_of_occurrences (fun k hk => hnew k (mem_of_mem_linkedKeys hk)) fun k => ?_
    have hle := applyAll_le_occurrences k old cs
    rw [h k] at hle
    rw [occurrences_linkedKeys]
    omega
  rw [← length_changes cs]
  exact Nat.add_le_add hunlinked hlinked

theorem membershipChanges_minimal (hold : ∀ k ∈ old, k.eqv k) (hnew : ∀ k ∈ new, k.eqv k) :
    MinimalChanges old new (membershipChanges old new).1 (membershipChanges old new).2 where
  counts k := by
    have hunlinked := @occurrences_unlinkedKeys old new k
    have hlinked := @occurrences_linkedKeys old new k
    simp only [unlinkedKeys] at hunlinked
    simp only [linkedKeys] at hlinked
    omega
  apart i hi j hj k l hk hl := by
    obtain ⟨⟨_, k'⟩, hremoved, rfl⟩ := List.mem_map.1 hi
    obtain ⟨⟨_, l'⟩, hadded, rfl⟩ := List.mem_map.1 hj
    have hk' := mem_placed.1 ((pairUp_removed_sublist _ _).mem hremoved)
    have hl' := mem_placed.1 ((pairUp_added_sublist _ _).mem hadded)
    rw [hk, Option.some.injEq] at hk'
    rw [hl, Option.some.injEq] at hl'
    subst hk' hl'
    exact pairUp_apart hadded hremoved
  unlinked_ascending := places_ascending (pairUp_removed_sublist _ _)
  linked_ascending := places_ascending (pairUp_added_sublist _ _)
  reached := reached_membershipChanges
  fewest cs h := by
    rw [← length_unlinkedKeys, ← length_linkedKeys]
    exact fewest_membershipChanges hold hnew h

/-- Of two equal tags both are kept, one tag goes and one comes. -/
theorem tag_exchanged :
    let old : List Value := [.int 1, .int 2, .int 2]
    let new : List Value := [.int 2, .int 3, .int 2]
    (∀ k ∈ old, k.eqv k) ∧ (∀ k ∈ new, k.eqv k) ∧ MinimalChanges old new [0] [1] := by
  intro old new
  have hold : ∀ k ∈ old, k.eqv k := by decide
  have hnew : ∀ k ∈ new, k.eqv k := by decide
  exact ⟨hold, hnew, membershipChanges_minimal hold hnew⟩

/-- A key that is not a number is unlinked and linked again. -/
example : membershipChanges [.float ⟨0x7ff8000000000000⟩] [.float ⟨0x7ff8000000000000⟩] =
    ([0], [0]) := by decide

end RecordGraph
