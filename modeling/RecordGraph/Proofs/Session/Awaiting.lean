/-
  A table of children while their collection is saved.

  First the deletes take the rows of the old children that are dropped (`remaining`).  Then
  the places of the collection are visited one after the other, and `Awaiting` is what holds
  in between: the rows of the parent belong to stored children, the children in the places
  that are done have rows of their own, and no two stored children share a key.  What the
  visits do to all other rows is `Touched`.
-/
import RecordGraph.Proofs.Session.ChildTable
import RecordGraph.Proofs.Session.Collections
import RecordGraph.Proofs.Session.Deletions
import RecordGraph.Proofs.Session.Progress

namespace RecordGraph

namespace Session

variable {τ δ : Type} [Model τ] {env : Env δ} {w w' : World τ δ} {r r' : Record} {t : τ}
  {m : TableMap τ} {names : ChildColumns} {master : Value} {taken : List Value}
  {table : δ → List Row} {rows rows' : List Row} {cs cs' : List Record} {c c' : Record}
  {places : List Nat} {i : Nat}

/-- The row has the key of the record. -/
def RowOf (t : τ) (names : ChildColumns) (row : Row) (c : Record) : Prop :=
  row.holds names.key (keyIn t names.key c) = true

theorem not_rowOf {row : Row} : ¬ RowOf t names row c ↔
    row.holds names.key (keyIn t names.key c) = false := by
  rw [RowOf, Bool.not_eq_true]

/-! ## Deletes -/

/-- The rows that are left when the rows of some records are deleted. -/
def remaining (t : τ) (names : ChildColumns) (rows : List Row) (lost : List Record) : List Row :=
  rows.filter fun row => !lost.any fun o => !isNew t o && row.holds names.key (keyIn t names.key o)

theorem mem_remaining {lost : List Record} (hp : rows'.Perm (remaining t names rows lost))
    (row : Row) :
    row ∈ rows' ↔ row ∈ rows ∧ ∀ o ∈ lost, isNew t o = false → ¬ RowOf t names row o := by
  rw [hp.mem_iff, remaining, List.mem_filter, Bool.not_eq_true', List.any_eq_false]
  simp only [Bool.and_eq_true, Bool.not_eq_true', not_and, RowOf]

/-- Deleting records takes the rows with the keys of those that are stored. -/
theorem ChildTable.deletes [DecidableEq τ] (ht : ChildTable env m names taken table)
    (hm : PlainChild env.config m names master) (hmap : w.catalog.map? m.owner = some m)
    {os : List Record}
    (h : (os.forM (deleteChild m.owner) : Session τ δ Record Unit) env w r = ⟨.ok (), w', r'⟩) :
    (table w'.database).Perm (remaining m.owner names (table w.database) os) := by
  unfold remaining
  induction os generalizing w r with
  | nil =>
    obtain ⟨rfl, rfl⟩ := forM_nil_ok.1 h
    simp
  | cons o os ih =>
    obtain ⟨w₁, r₁, ho, hos⟩ := forM_cons_ok.1 h
    cases hnew : isNew m.owner o with
    | true =>
      rw [deleteChild_of_new hnew, Ran.mk.injEq] at ho
      obtain ⟨-, rfl, rfl⟩ := ho
      refine (ih hmap hos).trans (.of_eq ?_)
      simp [hnew]
    | false =>
      rw [deleteChild_run env _ hmap hnew, hm.keyValues] at ho
      cases hs : m.deleteByKeys env.config.dialect [keyIn m.owner names.key o] with
      | error e => rw [hs] at ho; cases ho
      | ok s =>
        rw [hs] at ho
        dsimp only at ho
        cases hn : (env.executor.execute s w.database).1 with
        | error e => rw [hn] at ho; cases ho
        | ok n =>
          rw [hn] at ho
          cases ho
          have hdel := ht.delete _ s w.database n hs hn
          refine (ih (w := w.executed env s) hmap hos).trans ((hdel.filter _).trans (.of_eq ?_))
          rw [List.filter_filter]
          refine List.filter_congr fun row _ => ?_
          rw [List.any_cons, hnew]
          cases row.holds names.key (keyIn m.owner names.key o) <;> simp

/-! ## One visit -/

/-- The rows and the children of a collection whose children in the given places are still to
    be saved. -/
structure Awaiting (m : TableMap τ) (names : ChildColumns) (master : Value) (taken : List Value)
    (rows : List Row) (cs : List Record) (places : List Nat) : Prop where
  keyed : names.Rows rows
  held : ∀ row ∈ rows, row.holds names.parent master →
    ∃ c ∈ cs, isNew m.owner c = false ∧ RowOf m.owner names row c
  stored : ∀ (i : Nat) (c : Record), i ∉ places → cs[i]? = some c → isNew m.owner c = false ∧
    ∃ row ∈ rows, RowOf m.owner names row c ∧ row.holds names.parent master
  distinct : ∀ (i j : Nat) (c d : Record), i ≠ j → cs[i]? = some c → cs[j]? = some d →
    isNew m.owner c = false → isNew m.owner d = false →
    (keyIn m.owner names.key c).eqv (keyIn m.owner names.key d) = false
  taken : ∀ i ∈ places, ∀ c, cs[i]? = some c → isNew m.owner c = false →
    keyIn m.owner names.key c ∈ taken
  ready : ∀ i ∈ places, ∀ c, cs[i]? = some c →
    Typed m.owner c ∧ m.writeValue? c names.parent = some master

theorem getElem?_set_cases {α : Type} {l : List α} {i j : Nat} {a b : α}
    (h : (l.set i a)[j]? = some b) : (j = i ∧ b = a) ∨ (j ≠ i ∧ l[j]? = some b) := by
  by_cases hj : j = i
  · subst hj
    rw [List.getElem?_set_self'] at h
    obtain ⟨_, -, hb⟩ := Option.map_eq_some_iff.1 h
    exact .inl ⟨rfl, hb.symm⟩
  · rw [List.getElem?_set_ne (Ne.symm hj)] at h
    exact .inr ⟨hj, h⟩

namespace Awaiting

variable (h : Awaiting m names master taken rows cs (i :: places)) (hc : cs[i]? = some c)
  (hs : RowSaved m.owner names master taken rows rows' c c')
include h hc hs

/-- The key of a child that was just saved is the key of no other stored child. -/
theorem key_apart {j : Nat} {d : Record} (hj : j ≠ i) (hd : cs[j]? = some d)
    (hnew : isNew m.owner d = false) :
    (keyIn m.owner names.key d).eqv (keyIn m.owner names.key c') = false := by
  rcases hs.identity with ⟨hold, hkey⟩ | ⟨-, hfresh, hfree⟩
  · rw [Value.eqv_congr_right hkey]
    exact h.distinct j i d c hj hd hc hnew hold
  · by_cases hp : j ∈ places
    · exact hfree _ (h.taken j (List.mem_cons_of_mem _ hp) d hd hnew)
    · have hnot : j ∉ i :: places := by simp [hj, hp]
      obtain ⟨-, row, hrow, hof, -⟩ := h.stored j d hnot hd
      by_contra heqv
      rw [Bool.not_eq_false] at heqv
      exact not_rowOf.2 (hfresh row hrow) ((Row.holds_congr heqv).symm.trans hof)

/-- A row of the parent is the one that was written, or was there before. -/
theorem step_held : ∀ row ∈ rows', row.holds names.parent master →
    ∃ d ∈ cs.set i c', isNew m.owner d = false ∧ RowOf m.owner names row d := by
  intro row hrow hparent
  have hlt : i < cs.length := (List.getElem?_eq_some_iff.1 hc).1
  by_cases hof : RowOf m.owner names row c'
  · exact ⟨c', List.mem_of_getElem? (List.getElem?_set_self hlt), hs.stored, hof⟩
  · have hbefore : row ∈ rows := (hs.others row (not_rowOf.1 hof)).1 hrow
    obtain ⟨d, hd, hnew, hofd⟩ := h.held row hbefore hparent
    obtain ⟨j, hj⟩ := List.getElem?_of_mem hd
    by_cases hji : j = i
    · subst hji
      rw [hc] at hj; cases hj
      rcases hs.identity with ⟨-, hkey⟩ | ⟨habsent, -, -⟩
      · exact absurd ((Row.holds_congr hkey).trans hofd) hof
      · exact absurd hofd (not_rowOf.2 (habsent hnew row hbefore))
    · refine ⟨d, List.mem_of_getElem? (i := j) ?_, hnew, hofd⟩
      rw [List.getElem?_set_ne (Ne.symm hji), hj]

/-- The child that was saved has its row, and the children that were done keep theirs. -/
theorem step_stored : ∀ (j : Nat) (d : Record), j ∉ places → (cs.set i c')[j]? = some d →
    isNew m.owner d = false ∧
      ∃ row ∈ rows', RowOf m.owner names row d ∧ row.holds names.parent master := by
  intro j d hj hd
  rcases getElem?_set_cases hd with ⟨-, rfl⟩ | ⟨hji, hd⟩
  · exact ⟨hs.stored, hs.row⟩
  · have hnot : j ∉ i :: places := by simp [hji, hj]
    obtain ⟨hnew, row, hrow, hof, hparent⟩ := h.stored j d hnot hd
    refine ⟨hnew, row, (hs.others row ?_).2 hrow, hof, hparent⟩
    by_contra hholds
    rw [Bool.not_eq_false] at hholds
    have hapart := h.key_apart hc hs hji hd hnew
    rw [Row.eqv_of_holds hof hholds] at hapart
    cases hapart

theorem step_distinct : ∀ (j k : Nat) (d e : Record), j ≠ k → (cs.set i c')[j]? = some d →
    (cs.set i c')[k]? = some e → isNew m.owner d = false → isNew m.owner e = false →
    (keyIn m.owner names.key d).eqv (keyIn m.owner names.key e) = false := by
  intro j k d e hjk hd he hnewd hnewe
  rcases getElem?_set_cases hd with ⟨rfl, rfl⟩ | ⟨hji, hd'⟩
  · rcases getElem?_set_cases he with ⟨rfl, -⟩ | ⟨hki, he'⟩
    · exact absurd rfl hjk
    · rw [Value.eqv_comm]
      exact h.key_apart hc hs hki he' hnewe
  · rcases getElem?_set_cases he with ⟨rfl, rfl⟩ | ⟨-, he'⟩
    · exact h.key_apart hc hs hji hd' hnewd
    · exact h.distinct j k d e hjk hd' he' hnewd hnewe

/-- One visit: its place no longer waits. -/
theorem step (hi : i ∉ places) : Awaiting m names master taken rows' (cs.set i c') places where
  keyed := hs.keyed
  held := h.step_held hc hs
  stored := h.step_stored hc hs
  distinct := h.step_distinct hc hs
  taken j hj d hd hnew := by
    rcases getElem?_set_cases hd with ⟨rfl, -⟩ | ⟨-, hd⟩
    · exact absurd hj hi
    · exact h.taken j (List.mem_cons_of_mem _ hj) d hd hnew
  ready j hj d hd := by
    rcases getElem?_set_cases hd with ⟨rfl, -⟩ | ⟨-, hd⟩
    · exact absurd hj hi
    · exact h.ready j (List.mem_cons_of_mem _ hj) d hd

end Awaiting

/-! ## Other rows -/

/-- How the rows of a table have changed while a collection was saved: rows that belong to no
    stored child are kept, what is added belongs to a child, and no key is lost. -/
structure Touched (t : τ) (names : ChildColumns) (rows rows' : List Row)
    (cs cs' : List Record) : Prop where
  kept : ∀ row ∈ rows, (∀ c ∈ cs, isNew t c = false → ¬ RowOf t names row c) → row ∈ rows'
  added : ∀ row ∈ rows', row ∈ rows ∨ ∃ c ∈ cs', RowOf t names row c
  keys : ∀ row ∈ rows, ∀ v, row.holds names.key v → ∃ row' ∈ rows', row'.holds names.key v

theorem touched_nil : Touched t names rows rows cs cs where
  kept _ hrow _ := hrow
  added _ hrow := .inl hrow
  keys row hrow _ hv := ⟨row, hrow, hv⟩

/-- One save more, and the rest of the saves. -/
theorem RowSaved.touched {rows₁ : List Row}
    (hs : RowSaved t names master taken rows rows₁ c c') (hc : cs[i]? = some c)
    (hc' : c' ∈ cs') (h : Touched t names rows₁ rows' (cs.set i c') cs') :
    Touched t names rows rows' cs cs' := by
  refine ⟨fun row hrow hfree => ?_, fun row hrow => ?_, fun row hrow v hv => ?_⟩
  · have hnot : row.holds names.key (keyIn t names.key c') = false := by
      rcases hs.identity with ⟨hnew, hkey⟩ | ⟨-, hfresh, -⟩
      · rw [Row.holds_congr hkey]
        exact not_rowOf.1 (hfree c (List.mem_of_getElem? hc) hnew)
      · exact hfresh row hrow
    refine h.kept row ((hs.others row hnot).2 hrow) fun d hd hnew => ?_
    rcases List.mem_or_eq_of_mem_set hd with hd | rfl
    · exact hfree d hd hnew
    · exact not_rowOf.2 hnot
  · rcases h.added row hrow with hrow | hof
    · by_cases hof : RowOf t names row c'
      · exact .inr ⟨c', hc', hof⟩
      · exact .inl ((hs.others row (not_rowOf.1 hof)).1 hrow)
    · exact .inr hof
  · by_cases hof : RowOf t names row c'
    · obtain ⟨row₁, hrow₁, hof₁, -⟩ := hs.row
      have heqv := Row.eqv_of_holds hof hv
      exact h.keys row₁ hrow₁ v (by rwa [← Row.holds_congr heqv])
    · exact h.keys row ((hs.others row (not_rowOf.1 hof)).2 hrow) v hv

/-! ## All visits -/

variable [DecidableEq τ] {n : Nat}

theorem saveLevels_eq (τ δ : Type) [Model τ] [DecidableEq τ] (n : Nat) :
    ∃ saveChild, (saveLevels n : τ → Session τ δ Record Unit) = saveUsing saveChild := by
  cases n with
  | zero => exact ⟨_, rfl⟩
  | succ n => exact ⟨_, rfl⟩

theorem Awaiting.visits (ht : ChildTable env m names taken table) (hτ : Model.Sound τ)
    (hm : PlainChild env.config m names master)
    (hv : Visits env (saveLevels n m.owner) places w cs w' cs') (hn : places.Nodup)
    (hmap : w.catalog.map? m.owner = some m) (hc : w.catalog.Sound env.config)
    (h : Awaiting m names master taken (table w.database) cs places) :
    Awaiting m names master taken (table w'.database) cs' [] ∧
      Touched m.owner names (table w.database) (table w'.database) cs cs' := by
  induction hv with
  | nil => exact ⟨h, touched_nil⟩
  | @cons i places w w₁ w' cs cs' c c' hi hrun hv ih =>
    obtain ⟨hnot, hn⟩ := List.nodup_cons.1 hn
    obtain ⟨saveChild, hsave⟩ := saveLevels_eq τ δ n
    obtain ⟨htyped, hwrite⟩ := h.ready i (by simp) c hi
    have hs := ht.saved hτ hm hmap hc h.keyed htyped hwrite (by rw [← hsave]; exact hrun)
    have hlater := (Grows.saveLevels n m.owner).later hrun
    obtain ⟨hdone, htouched⟩ := ih hn (hlater.maps _ _ hmap) (hlater.sound hc)
      (h.step hi hs hnot)
    have hlt : i < cs.length := (List.getElem?_eq_some_iff.1 hi).1
    have hc' : c' ∈ cs' := by
      refine List.mem_of_getElem? (i := i) ?_
      rw [hv.getElem_other hnot, List.getElem?_set_self hlt]
    exact ⟨hdone, hs.touched hi hc' htouched⟩

end Session

end RecordGraph
