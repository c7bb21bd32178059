/-
  Pairing two lists.

  Every element is paired or left over, once, and nothing that is left over on one side has
  a counterpart among what is left over on the other.  Of a class of elements that are all
  the same, exactly the surplus of one list over the other is left over.  The last fact
  needs no order: which of several equal elements gets paired makes no difference to
  how many are left.
-/
import Mathlib.Data.List.Basic
import RecordGraph.Graph.Matching

namespace RecordGraph

/-! ## Places -/

section Placed

variable {α : Type} {xs : List α}

theorem mem_placed {i : Nat} {x : α} : (i, x) ∈ placed xs ↔ xs[i]? = some x := by
  simp only [placed, List.mem_mapIdx, Prod.mk.injEq]
  constructor
  · rintro ⟨j, hj, rfl, rfl⟩; exact List.getElem?_eq_getElem hj
  · intro h
    obtain ⟨hi, rfl⟩ := List.getElem?_eq_some_iff.1 h
    exact ⟨i, hi, rfl, rfl⟩

theorem placed_snd : (placed xs).map Prod.snd = xs :=
  List.ext_getElem (by simp [placed]) (by simp [placed])

theorem placed_fst : (placed xs).map Prod.fst = List.range xs.length :=
  List.ext_getElem (by simp [placed]) (by simp [placed])

theorem countP_placed (p : α → Bool) : (placed xs).countP (fun e => p e.2) = xs.countP p := by
  conv_rhs => rw [← @placed_snd _ xs, List.countP_map]
  rfl

theorem filterMap_places {es : List (Nat × α)} (h : ∀ e ∈ es, e ∈ placed xs) :
    (es.map Prod.fst).filterMap (xs[·]?) = es.map Prod.snd := by
  induction es with
  | nil => rfl
  | cons e es ih =>
    obtain ⟨i, x⟩ := e
    have hx : xs[i]? = some x := mem_placed.1 (h _ (by simp))
    rw [List.map_cons, List.filterMap_cons_some hx, ih fun e he => h e (by simp [he])]
    rfl

/-- Elements in their order have ascending places. -/
theorem places_ascending {es : List (Nat × α)} (h : es.Sublist (placed xs)) :
    (es.map Prod.fst).Pairwise (· < ·) := by
  have hrange := h.map Prod.fst
  rw [placed_fst] at hrange
  exact List.pairwise_lt_range.sublist hrange

end Placed

/-! ## What becomes of the elements -/

section PairUp

variable {α β : Type} {same : α → β → Bool}

theorem perm_cons_eraseP {p : β → Bool} {b : β} :
    ∀ {free : List β}, free.find? p = some b → free.Perm (b :: free.eraseP p)
  | [], h => by simp at h
  | c :: free, h => by
    by_cases hc : p c
    · simp only [List.find?_cons, hc, Option.some.injEq] at h
      subst h
      simp [hc]
    · simp only [List.find?_cons, hc] at h
      simp only [List.eraseP_cons, hc, cond_false]
      exact (perm_cons_eraseP h).cons c |>.trans (.swap b c _)

theorem pairUp_new_perm (new : List (Nat × α)) (free : List (Nat × β)) :
    ((pairUp same new free).pairs.map Prod.fst ++ (pairUp same new free).added).Perm new := by
  fun_induction pairUp same new free with
  | case1 => exact .refl _
  | case2 n ns free o ho rest ih => exact ih.cons n
  | case3 n ns free ho rest ih => exact List.perm_middle.trans (ih.cons n)

theorem pairUp_old_perm (new : List (Nat × α)) (free : List (Nat × β)) :
    ((pairUp same new free).pairs.map Prod.snd ++ (pairUp same new free).removed).Perm free := by
  fun_induction pairUp same new free with
  | case1 => exact .refl _
  | case2 n ns free o ho rest ih => exact (ih.cons o).trans (perm_cons_eraseP ho).symm
  | case3 n ns free ho rest ih => exact ih

theorem pairUp_same {new : List (Nat × α)} {free : List (Nat × β)} {n : Nat × α} {o : Nat × β}
    (h : (n, o) ∈ (pairUp same new free).pairs) : same n.2 o.2 := by
  fun_induction pairUp same new free with
  | case1 => simp at h
  | case2 m ns free p hp rest ih =>
    rcases List.mem_cons.1 h with h | h
    · cases h; simpa using List.find?_some hp
    · exact ih h
  | case3 m ns free hp rest ih => exact ih h

theorem pairUp_new_mem {new : List (Nat × α)} {free : List (Nat × β)} {n : Nat × α} {o : Nat × β}
    (h : (n, o) ∈ (pairUp same new free).pairs) : n ∈ new :=
  (pairUp_new_perm new free).mem_iff.1 (List.mem_append_left _ (List.mem_map_of_mem h))

theorem pairUp_old_mem {new : List (Nat × α)} {free : List (Nat × β)} {n : Nat × α} {o : Nat × β}
    (h : (n, o) ∈ (pairUp same new free).pairs) : o ∈ free :=
  (pairUp_old_perm new free).mem_iff.1 (List.mem_append_left _ (List.mem_map_of_mem h))

/-! ## What is left over -/

theorem pairUp_added_sublist (new : List (Nat × α)) (free : List (Nat × β)) :
    (pairUp same new free).added.Sublist new := by
  fun_induction pairUp same new free with
  | case1 => exact .slnil
  | case2 n ns free o ho rest ih => exact ih.cons n
  | case3 n ns free ho rest ih => exact ih.cons_cons n

theorem pairUp_removed_sublist (new : List (Nat × α)) (free : List (Nat × β)) :
    (pairUp same new free).removed.Sublist free := by
  fun_induction pairUp same new free with
  | case1 => exact .refl _
  | case2 n ns free o ho rest ih => exact ih.trans List.eraseP_sublist
  | case3 n ns free ho rest ih => exact ih

/-- A new element is left over only if no free old one is the same, and old ones do not
    become free again. -/
theorem pairUp_apart {new : List (Nat × α)} {free : List (Nat × β)} {n : Nat × α} {o : Nat × β}
    (hn : n ∈ (pairUp same new free).added) (ho : o ∈ (pairUp same new free).removed) :
    same n.2 o.2 = false := by
  fun_induction pairUp same new free with
  | case1 => cases hn
  | case2 m ns free p hp rest ih => exact ih hn ho
  | case3 m ns free hp rest ih =>
    rcases List.mem_cons.1 hn with rfl | hn
    · have hfree : o ∈ free := (pairUp_removed_sublist ns free).mem ho
      simpa using List.find?_eq_none.1 hp o hfree
    · exact ih hn ho

/-! ## How many are left over -/

/-- Two predicates pick one class of elements that are the same. -/
structure IsClass (same : α → β → Bool) (p : α → Bool) (q : β → Bool) : Prop where
  agree : ∀ a b, same a b → p a = q b
  meet : ∀ a b, p a → q b → same a b

variable {p : α → Bool} {q : β → Bool}

theorem IsClass.countP_free_eq_zero (hc : IsClass same p q) {n : Nat × α} (hn : p n.2)
    {free : List (Nat × β)} (h : free.find? (fun o => same n.2 o.2) = none) :
    free.countP (fun o => q o.2) = 0 := by
  rw [List.countP_eq_zero]
  intro o ho hq
  exact List.find?_eq_none.1 h o ho (hc.meet _ _ hn hq)

theorem IsClass.countP_erase (hc : IsClass same p q) {n : Nat × α} {o : Nat × β}
    {free : List (Nat × β)} (h : free.find? (fun o => same n.2 o.2) = some o) :
    free.countP (fun o => q o.2) =
      (free.eraseP fun o => same n.2 o.2).countP (fun o => q o.2) + if p n.2 then 1 else 0 := by
  have hno : same n.2 o.2 := by simpa using List.find?_some h
  rw [(perm_cons_eraseP h).countP_eq, List.countP_cons, hc.agree _ _ hno]

/-- Of the old elements of a class, those beyond the number of new ones are left over. -/
theorem countP_removed (hc : IsClass same p q) (new : List (Nat × α)) (free : List (Nat × β)) :
    (pairUp same new free).removed.countP (fun o => q o.2) =
      free.countP (fun o => q o.2) - new.countP (fun n => p n.2) := by
  fun_induction pairUp same new free with
  | case1 => simp
  | case2 n ns free o ho rest ih =>
    rw [ih, hc.countP_erase ho, List.countP_cons]
    split <;> omega
  | case3 n ns free ho rest ih =>
    rw [ih, List.countP_cons]
    split
    · rw [hc.countP_free_eq_zero ‹_› (by simpa using ho)]; omega
    · omega

/-- Of the new elements of a class, those beyond the number of old ones are left over. -/
theorem countP_added (hc : IsClass same p q) (new : List (Nat × α)) (free : List (Nat × β)) :
    (pairUp same new free).added.countP (fun n => p n.2) =
      new.countP (fun n => p n.2) - free.countP (fun o => q o.2) := by
  fun_induction pairUp same new free with
  | case1 => simp
  | case2 n ns free o ho rest ih =>
    rw [ih, hc.countP_erase ho, List.countP_cons]
    split <;> omega
  | case3 n ns free ho rest ih =>
    rw [List.countP_cons, ih, List.countP_cons]
    split
    · rw [hc.countP_free_eq_zero ‹_› (by simpa using ho)]; omega
    · omega

/-- Nothing of a class is left over on the old side exactly if the class has no surplus there. -/
theorem IsClass.forall_removed_iff (hc : IsClass same p q) (new : List (Nat × α))
    (free : List (Nat × β)) :
    (∀ o ∈ (pairUp same new free).removed, q o.2 = false) ↔
      free.countP (fun o => q o.2) ≤ new.countP (fun n => p n.2) := by
  rw [← Nat.sub_eq_zero_iff_le, ← countP_removed hc, List.countP_eq_zero]
  simp

end PairUp

end RecordGraph
