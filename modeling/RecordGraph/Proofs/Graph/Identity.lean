/-
  Which stored records a collection no longer holds.

  Identity is a partial equivalence, so the stored records that bear given keys form a
  class of the pairing: of each class, the surplus of the old list over the new one is
  left over, and nothing of it exactly if there is no surplus.
-/
import RecordGraph.Proofs.Graph.Pairing
import RecordGraph.Proofs.Value.Equality

namespace RecordGraph

variable {τ : Type} [Model τ] {t : τ} {keys : List String} {a b c n o : Record}

/-! ## Keys -/

/-- The key fields of both records are equal. -/
def sameKeys (t : τ) (keys : List String) (a b : Record) : Bool :=
  keys.all fun k => Value.optionEqv (resolveValue t a k) (resolveValue t b k)

theorem sameKeys_comm : sameKeys t keys a b = sameKeys t keys b a := by
  simp only [sameKeys, Value.optionEqv_comm (resolveValue t a _)]

theorem sameKeys_trans (h : sameKeys t keys a b) (h' : sameKeys t keys b c) :
    sameKeys t keys a c := by
  simp only [sameKeys, List.all_eq_true] at h h' ⊢
  exact fun k hk => Value.optionEqv_trans (h k hk) (h' k hk)

/-- The record is stored under the keys of another one. -/
def bears (t : τ) (keys : List String) (n o : Record) : Bool := !isNew t o && sameKeys t keys n o

theorem sameIdentity_iff : sameIdentity t keys a b ↔
    isNew t a = false ∧ isNew t b = false ∧ sameKeys t keys a b := by
  simp [sameIdentity, sameKeys, and_assoc]

theorem sameIdentity_eq : sameIdentity t keys o n = (!isNew t n && bears t keys n o) := by
  rw [bears, sameKeys_comm]
  simp only [sameIdentity, sameKeys]
  cases isNew t o <;> cases isNew t n <;> simp

/-- The stored records with the keys of one record are a class. -/
theorem bears_isClass (n : Record) :
    IsClass (fun n' o => sameIdentity t keys o n') (bears t keys n) (bears t keys n) where
  agree n' o h := by
    obtain ⟨ho, hn', hk⟩ := sameIdentity_iff.1 h
    simp only [bears, ho, hn', Bool.not_false, Bool.true_and]
    rw [Bool.eq_iff_iff]
    exact ⟨fun h => sameKeys_trans h (by rwa [sameKeys_comm]), fun h => sameKeys_trans h hk⟩
  meet n' o hn' ho := by
    simp only [bears, Bool.and_eq_true, Bool.not_eq_true'] at hn' ho
    exact sameIdentity_iff.2 ⟨ho.1, hn'.1, sameKeys_trans (by rw [sameKeys_comm]; exact ho.2) hn'.2⟩

/-! ## Deletions -/

variable {old new : List Record}

/-- The pairing that the changes are read off. -/
def identityPairing (t : τ) (keys : List String) (old new : List Record) :
    Pairing Record Record :=
  pairUp (fun n o => sameIdentity t keys o n) (placed new) (placed old)

theorem identityPairing_new : ((identityPairing t keys old new).pairs.map Prod.fst ++
    (identityPairing t keys old new).added).Perm (placed new) := pairUp_new_perm _ _

theorem identityPairing_old : ((identityPairing t keys old new).pairs.map Prod.snd ++
    (identityPairing t keys old new).removed).Perm (placed old) := pairUp_old_perm _ _

theorem Changes.mem_deletions {i : Nat} :
    i ∈ (Changes.between t keys old new).deletions ↔
      ∃ o, old[i]? = some o ∧ (i, o) ∈ (identityPairing t keys old new).removed := by
  have hsub : ∀ e ∈ (identityPairing t keys old new).removed, e ∈ placed old := fun e he =>
    identityPairing_old.mem_iff.1 (List.mem_append_right _ he)
  constructor
  · intro h
    obtain ⟨⟨j, o⟩, he, rfl⟩ := List.mem_map.1 h
    exact ⟨o, mem_placed.1 (hsub _ he), he⟩
  · rintro ⟨o, -, h⟩; exact List.mem_map_of_mem h

/-- No more old than new records are stored under the keys of a record. -/
def NoSurplus (t : τ) (keys : List String) (old new : List Record) (n : Record) : Prop :=
  old.countP (bears t keys n) ≤ new.countP (bears t keys n)

instance : Decidable (NoSurplus t keys old new n) := inferInstanceAs (Decidable (_ ≤ _))

/-- No deletion is stored under the keys of a record exactly if there is no surplus of old
    records that are. -/
theorem unborne_iff (n : Record) :
    (∀ i ∈ (Changes.between t keys old new).deletions, ∀ o, old[i]? = some o →
        bears t keys n o = false) ↔ NoSurplus t keys old new n := by
  rw [NoSurplus, ← countP_placed, ← @countP_placed _ new,
    ← (bears_isClass n).forall_removed_iff (placed new) (placed old)]
  constructor
  · rintro h ⟨i, o⟩ ho
    have hi : old[i]? = some o :=
      mem_placed.1 (identityPairing_old.mem_iff.1 (List.mem_append_right _ ho))
    exact h i (Changes.mem_deletions.2 ⟨o, hi, ho⟩) o hi
  · intro h i hi o ho
    obtain ⟨o', ho', hm⟩ := Changes.mem_deletions.1 hi
    rw [ho] at ho'; cases ho'
    exact h _ hm

/-- No deletion has the identity of a new record exactly if no stored record of the new list
    shares its keys with more old records than new ones. -/
theorem deleted_unheld_iff :
    (∀ i ∈ (Changes.between t keys old new).deletions, ∀ o, old[i]? = some o →
        ∀ n ∈ new, sameIdentity t keys o n = false) ↔
      ∀ n ∈ new, isNew t n = false → NoSurplus t keys old new n := by
  simp only [← unborne_iff, sameIdentity_eq, Bool.and_eq_false_imp, Bool.not_eq_true']
  exact ⟨fun h n hn hs i hi o ho => h i hi o ho n hn hs,
    fun h i hi o ho n hn hs => h n hn hs i hi o ho⟩

end RecordGraph
