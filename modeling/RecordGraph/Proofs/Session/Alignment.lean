/-
  What the synchronization of a collection makes of the table of its children.

  The old children of the parent are stored as its rows (`OldRows`), and the children that
  are saved are those of the collection, pointed at the parent (`Pointed`).  So when the
  dropped ones are deleted the rows of the parent belong to children that wait or are
  unchanged (`PlainChild.awaiting`), and when no child waits any more the table is what it
  should be (`PlainChild.reached`).
-/
import RecordGraph.Proofs.Samples
import RecordGraph.Proofs.Session.Awaiting
import RecordGraph.Proofs.Session.Children

namespace RecordGraph

namespace Session

variable {τ δ : Type} [Model τ] {env : Env δ} {w w' : World τ δ} {r r' : Record} {t : τ}
  {m : TableMap τ} {names : ChildColumns} {master : Value} {taken : List Value}
  {table : δ → List Row} {rows rows' : List Row} {cs' : List Record} {places : List Nat}
  {olds new children lost : List Record}

/-! ## Lists -/

section Lists

variable {α β : Type} {R : α → β → Prop} {as : List α} {bs : List β} {a : α} {b : β}

theorem exists_right (h : List.Forall₂ R as bs) (ha : a ∈ as) : ∃ b ∈ bs, R a b := by
  induction h with
  | nil => cases ha
  | cons hab _ ih =>
    rcases List.mem_cons.1 ha with rfl | ha
    · exact ⟨_, List.mem_cons_self, hab⟩
    · obtain ⟨b, hb, hab⟩ := ih ha
      exact ⟨b, List.mem_cons_of_mem _ hb, hab⟩

theorem exists_left (h : List.Forall₂ R as bs) (hb : b ∈ bs) : ∃ a ∈ as, R a b :=
  exists_right h.flip hb

theorem pairwise_right {P : α → α → Prop} {Q : β → β → Prop} (h : List.Forall₂ R as bs)
    (hp : as.Pairwise P) (hPQ : ∀ a a' b b', R a b → R a' b' → P a a' → Q b b') :
    bs.Pairwise Q := by
  induction h with
  | nil => exact .nil
  | @cons a b as bs hab hrest ih =>
    obtain ⟨ha, hp⟩ := List.pairwise_cons.1 hp
    refine List.pairwise_cons.2 ⟨fun b' hb' => ?_, ih hp⟩
    obtain ⟨a', ha', hab'⟩ := exists_left hrest hb'
    exact hPQ a a' b b' hab hab' (ha a' ha')

theorem exists_forall₂ (h : ∀ b ∈ bs, ∃ a, R a b) : ∃ as, List.Forall₂ R as bs := by
  induction bs with
  | nil => exact ⟨[], .nil⟩
  | cons b bs ih =>
    obtain ⟨a, ha⟩ := h b (by simp)
    obtain ⟨as, has⟩ := ih fun b hb => h b (by simp [hb])
    exact ⟨a :: as, .cons ha has⟩

theorem countP_le_one {p : α → Bool} (h : as.Pairwise fun a b => p a = true → p b = false) :
    as.countP p ≤ 1 := by
  induction as with
  | nil => exact Nat.zero_le _
  | cons a as ih =>
    obtain ⟨ha, has⟩ := List.pairwise_cons.1 h
    rw [List.countP_cons]
    split
    · rename_i hp
      have hzero : as.countP p = 0 := List.countP_eq_zero.2 fun b hb => by simp [ha b hb hp]
      omega
    · exact ih has

end Lists

/-! ## Identity -/

theorem PlainChild.sameIdentity_eq (hm : PlainChild env.config m names master) (a b : Record) :
    sameIdentity m.owner m.keys a b = (!isNew m.owner a && !isNew m.owner b &&
      (keyIn m.owner names.key a).eqv (keyIn m.owner names.key b)) := by
  simp only [sameIdentity, hm.keys, List.all_cons, List.all_nil, Bool.and_true,
    hm.field.resolve, Value.optionEqv]

theorem PlainChild.sameIdentity_iff (hm : PlainChild env.config m names master) {a b : Record} :
    sameIdentity m.owner m.keys a b ↔ isNew m.owner a = false ∧ isNew m.owner b = false ∧
      (keyIn m.owner names.key a).eqv (keyIn m.owner names.key b) := by
  rw [hm.sameIdentity_eq, Bool.and_eq_true, Bool.and_eq_true, Bool.not_eq_true',
    Bool.not_eq_true', and_assoc]

theorem PlainChild.bears_eq (hm : PlainChild env.config m names master) (a b : Record) :
    bears m.owner m.keys a b =
      (!isNew m.owner b && (keyIn m.owner names.key a).eqv (keyIn m.owner names.key b)) := by
  simp only [bears, sameKeys, hm.keys, List.all_cons, List.all_nil, Bool.and_true,
    hm.field.resolve, Value.optionEqv]

/-! ## Old children -/

/-- The old children of a parent are stored as its rows. -/
structure OldRows (t : τ) (names : ChildColumns) (master : Value) (rows : List Row)
    (olds : List Record) : Prop where
  row : ∀ o ∈ olds, ∃ row ∈ rows, RowOf t names row o ∧ row.holds names.parent master
  old : ∀ row ∈ rows, row.holds names.parent master →
    ∃ o ∈ olds, isNew t o = false ∧ RowOf t names row o
  distinct : olds.Pairwise fun a b => (keyIn t names.key a).eqv (keyIn t names.key b) = false

/-- A child that was mapped from a row has the key of its row. -/
theorem PlainChild.mapped (hm : PlainChild env.config m names master) (hτ : Model.Sound τ)
    (hk : names.Rows rows) {row : Row} {o : Record} (hrow : row ∈ rows)
    (h : RowMapper.MapsTo env.config m.owner row o) :
    row.get? names.key = some (keyIn m.owner names.key o) ∧ isNew m.owner o = false := by
  obtain ⟨v, hv, hkey⟩ := hk.keys row hrow
  have hreads : ReadsKey env.config m.owner names.key row.columns := by
    rw [hk.shape row hrow]
    exact hm.reads
  have hkeyIn := h.keyIn_eq hτ hm.field hreads hv hkey.stored hkey.notNull
  rw [hkeyIn, hm.field.isNew, hkeyIn]
  exact ⟨hv, hkey.set⟩

theorem PlainChild.oldRows (hm : PlainChild env.config m names master) (hτ : Model.Sound τ)
    (hk : names.Rows rows) {held : List Row}
    (hheld : held.Perm (rows.filter fun row => row.holds names.parent master))
    (hmaps : List.Forall₂ (RowMapper.MapsTo env.config m.owner) held olds) :
    OldRows m.owner names master rows olds := by
  have hin {row : Row} (hrow : row ∈ held) : row ∈ rows ∧ row.holds names.parent master = true :=
    List.mem_filter.1 (hheld.mem_iff.1 hrow)
  have hmapped : List.Forall₂ (fun row o => row ∈ held ∧
      row.get? names.key = some (keyIn m.owner names.key o) ∧ isNew m.owner o = false)
      held olds := by
    refine List.forall₂_iff_get.2 ⟨hmaps.length_eq, fun i hi hi' => ?_⟩
    have hrow : held[i] ∈ held := List.getElem_mem hi
    exact ⟨hrow, hm.mapped hτ hk (hin hrow).1 (hmaps.get hi hi')⟩
  have hof {row : Row} {o : Record} (hrow : row ∈ held)
      (hget : row.get? names.key = some (keyIn m.owner names.key o)) :
      RowOf m.owner names row o := by
    rw [RowOf, Row.holds_of_get hget]
    exact (hk.isKey (hin hrow).1 hget).self
  refine ⟨fun o ho => ?_, fun row hrow hpar => ?_, ?_⟩
  · obtain ⟨row, hrow, -, hget, -⟩ := exists_left hmapped ho
    exact ⟨row, (hin hrow).1, hof hrow hget, (hin hrow).2⟩
  · have hrow' : row ∈ held := hheld.mem_iff.2 (List.mem_filter.2 ⟨hrow, hpar⟩)
    obtain ⟨o, ho, -, hget, hnew⟩ := exists_right hmapped hrow'
    exact ⟨o, ho, hnew, hof hrow' hget⟩
  · have hdistinct := ((hk.filter fun row => row.holds names.parent master).perm hheld.symm).distinct
    refine pairwise_right hmapped hdistinct fun a a' b b' hab hab' hne => ?_
    rwa [hab.2.1, hab'.2.1, Value.optionEqv] at hne

/-! ## New children -/

/-- The record is a child of the collection that was pointed at its parent. -/
structure Pointed (m : TableMap τ) (names : ChildColumns) (master : Value) (c n : Record) :
    Prop where
  isNew_eq : isNew m.owner n = isNew m.owner c
  key_eq : keyIn m.owner names.key n = keyIn m.owner names.key c
  typed : Typed m.owner n
  writes : m.writeValue? n names.parent = some master

theorem PlainChild.pointed (hm : PlainChild env.config m names master) (hτ : Model.Sound τ)
    (htyped : ∀ c ∈ children, Typed m.owner c)
    (h : List.Forall₂ (fun c n => attached m.owner names.parent master c = .ok n) children new) :
    List.Forall₂ (Pointed m names master) children new := by
  refine List.forall₂_iff_get.2 ⟨h.length_eq, fun i hi hi' => ?_⟩
  have hatt := h.get hi hi'
  have hc := htyped _ (List.getElem_mem hi)
  have hkey := attached_keyIn hτ hm.field hm.other hatt
  refine ⟨?_, hkey, (attached_written hτ hatt).typed hc, attached_writeValue hτ hm.stores hc hatt⟩
  rw [hm.field.isNew, hm.field.isNew, hkey]

theorem PlainChild.pairwise_pointed (hm : PlainChild env.config m names master)
    (h : List.Forall₂ (Pointed m names master) children new)
    (hd : children.Pairwise fun a b => sameIdentity m.owner m.keys a b = false) :
    new.Pairwise fun a b => sameIdentity m.owner m.keys a b = false := by
  refine pairwise_right h hd fun a a' b b' hab hab' hne => ?_
  rw [hm.sameIdentity_eq] at hne ⊢
  rwa [hab.isNew_eq, hab'.isNew_eq, hab.key_eq, hab'.key_eq]

/-! ## Dropped children -/

/-- The old children that are dropped are none of the stored children of a collection. -/
structure Lost (t : τ) (names : ChildColumns) (olds new lost : List Record) : Prop where
  old : ∀ o ∈ lost, o ∈ olds
  apart : ∀ o ∈ lost, isNew t o = false → ∀ n ∈ new, isNew t n = false →
    (keyIn t names.key n).eqv (keyIn t names.key o) = false

/-- Old children with a key each have no surplus over the new ones. -/
theorem PlainChild.noSurplus (hm : PlainChild env.config m names master)
    (hd : olds.Pairwise fun a b =>
      (keyIn m.owner names.key a).eqv (keyIn m.owner names.key b) = false)
    {n : Record} (hn : n ∈ new) (hnew : isNew m.owner n = false) :
    NoSurplus m.owner m.keys olds new n := by
  have hone : olds.countP (bears m.owner m.keys n) ≤ 1 := by
    refine countP_le_one (hd.imp fun {a b} hab ha => ?_)
    rw [hm.bears_eq, Bool.and_eq_true] at ha
    rw [hm.bears_eq, Value.eqv_congr_left ha.2, hab, Bool.and_false]
  by_cases hzero : olds.countP (bears m.owner m.keys n) = 0
  · rw [NoSurplus, hzero]
    exact Nat.zero_le _
  · obtain ⟨o, -, ho⟩ := List.countP_pos_iff.1 (Nat.pos_of_ne_zero hzero)
    have hself : bears m.owner m.keys n n = true := by
      rw [hm.bears_eq, Bool.and_eq_true] at ho
      rw [hm.bears_eq, hnew, Value.eqv_refl_left ho.2]
      rfl
    have hpos : 0 < new.countP (bears m.owner m.keys n) :=
      List.countP_pos_iff.2 ⟨n, hn, hself⟩
    exact Nat.le_trans hone hpos

theorem PlainChild.lost_changes (hm : PlainChild env.config m names master) {rel : Relation τ}
    (ho : OldRows m.owner names master rows olds) (hrel : m.owner = rel.child) :
    Lost m.owner names olds new (lostChildren rel m (some olds) new) := by
  refine ⟨fun o hlost => ?_, fun o hlost hold n hn hnew => ?_⟩
  · obtain ⟨i, -, hi⟩ := List.mem_filterMap.1 hlost
    exact List.mem_of_getElem? hi
  · obtain ⟨i, hi, hio⟩ := List.mem_filterMap.1 hlost
    rw [childChanges, ← hrel] at hi
    have hnone := (unborne_iff n).2 (hm.noSurplus ho.distinct hn hnew) i hi o hio
    rwa [hm.bears_eq, hold] at hnone

/-! ## Before the visits -/

section Before

variable (hm : PlainChild env.config m names master) (ho : OldRows m.owner names master rows olds)
  (hp : rows'.Perm (remaining m.owner names rows lost))
  (hacc : Accounted m.owner m.keys olds new places lost)
include hm ho hp hacc

/-- A row of the parent that the deletes have left is that of a child. -/
theorem PlainChild.awaiting_held : ∀ row ∈ rows', row.holds names.parent master →
    ∃ n ∈ new, isNew m.owner n = false ∧ RowOf m.owner names row n := by
  intro row hrow hpar
  obtain ⟨hrow, hnot⟩ := (mem_remaining hp row).1 hrow
  obtain ⟨o, hold, hnew, hof⟩ := ho.old row hrow hpar
  rcases hacc.drops o hold with hdrop | ⟨n, hn, hsame⟩
  · exact absurd hof (hnot o hdrop hnew)
  · obtain ⟨-, hnewn, heqv⟩ := hm.sameIdentity_iff.1 hsame
    exact ⟨n, hn, hnewn, (Row.holds_congr heqv).symm.trans hof⟩

/-- A child that does not wait is unchanged, and the deletes have left its row. -/
theorem PlainChild.awaiting_stored (hl : Lost m.owner names olds new lost) :
    ∀ (i : Nat) (c : Record), i ∉ places → new[i]? = some c → isNew m.owner c = false ∧
      ∃ row ∈ rows', RowOf m.owner names row c ∧ row.holds names.parent master := by
  intro i c hi hc
  obtain ⟨kept, hplaces, -, hkept⟩ := hacc.saves
  have hlt : i < new.length := (List.getElem?_eq_some_iff.1 hc).1
  have hin := (List.mem_append.1 (hplaces.mem_iff.2 (List.mem_range.2 hlt))).resolve_left hi
  obtain ⟨⟨_, j⟩, he, rfl⟩ := List.mem_map.1 hin
  obtain ⟨n, o, hn, hold, hsame, -⟩ := hkept _ he
  rw [hc] at hn; cases hn
  obtain ⟨-, hnewc, heqv⟩ := hm.sameIdentity_iff.1 hsame
  obtain ⟨row, hrow, hof, hpar⟩ := ho.row o (List.mem_of_getElem? hold)
  have hofc : RowOf m.owner names row c := (Row.holds_congr heqv).symm.trans hof
  refine ⟨hnewc, row, (mem_remaining hp row).2 ⟨hrow, fun o' ho' hnew' hof' => ?_⟩, hofc, hpar⟩
  have hapart := hl.apart o' ho' hnew' c (List.mem_of_getElem? hc) hnewc
  rw [Row.eqv_of_holds hofc hof'] at hapart
  cases hapart

end Before

/-- Children that are all different have different keys. -/
theorem PlainChild.awaiting_distinct (hm : PlainChild env.config m names master)
    (hd : new.Pairwise fun a b => sameIdentity m.owner m.keys a b = false) :
    ∀ (i j : Nat) (c d : Record), i ≠ j → new[i]? = some c → new[j]? = some d →
      isNew m.owner c = false → isNew m.owner d = false →
      (keyIn m.owner names.key c).eqv (keyIn m.owner names.key d) = false := by
  have hlt {i j : Nat} {c d : Record} (hij : i < j) (hc : new[i]? = some c)
      (hd' : new[j]? = some d) (hcn : isNew m.owner c = false) (hdn : isNew m.owner d = false) :
      (keyIn m.owner names.key c).eqv (keyIn m.owner names.key d) = false := by
    obtain ⟨hi, rfl⟩ := List.getElem?_eq_some_iff.1 hc
    obtain ⟨hj, rfl⟩ := List.getElem?_eq_some_iff.1 hd'
    have hne := List.pairwise_iff_getElem.1 hd i j hi hj hij
    rwa [hm.sameIdentity_eq, hcn, hdn] at hne
  intro i j c d hij hc hd hcn hdn
  rcases Nat.lt_or_gt_of_ne hij with hij | hij
  · exact hlt hij hc hd hcn hdn
  · rw [Value.eqv_comm]
    exact hlt hij hd hc hdn hcn

/-- After the deletes every child waits to be saved, or is unchanged and has its row. -/
theorem PlainChild.awaiting (hm : PlainChild env.config m names master) (hk : names.Rows rows)
    (ho : OldRows m.owner names master rows olds)
    (hp : rows'.Perm (remaining m.owner names rows lost))
    (hacc : Accounted m.owner m.keys olds new places lost)
    (hl : Lost m.owner names olds new lost)
    (hnew : List.Forall₂ (Pointed m names master) children new)
    (hd : children.Pairwise fun a b => sameIdentity m.owner m.keys a b = false)
    (htaken : ∀ c ∈ children, isNew m.owner c = false → keyIn m.owner names.key c ∈ taken) :
    Awaiting m names master taken rows' new places where
  keyed := (hk.filter _).perm hp.symm
  held := hm.awaiting_held ho hp hacc
  stored := hm.awaiting_stored ho hp hacc hl
  distinct := hm.awaiting_distinct (hm.pairwise_pointed hnew hd)
  taken i _ n hn hnn := by
    obtain ⟨c, hc, hcn⟩ := exists_left hnew (List.mem_of_getElem? hn)
    rw [hcn.key_eq]
    exact htaken c hc (hcn.isNew_eq ▸ hnn)
  ready i _ n hn := by
    obtain ⟨c, -, hcn⟩ := exists_left hnew (List.mem_of_getElem? hn)
    exact ⟨hcn.typed, hcn.writes⟩

/-! ## After the visits -/

/-- Once no child waits any more, no two of them share a key. -/
theorem Awaiting.pairwise (h : Awaiting m names master taken rows cs' []) :
    cs'.Pairwise fun a b => (keyIn m.owner names.key a).eqv (keyIn m.owner names.key b) = false := by
  refine List.pairwise_iff_getElem.2 fun i j hi hj hij => ?_
  have hc := List.getElem?_eq_getElem hi
  have hd := List.getElem?_eq_getElem hj
  exact h.distinct i j _ _ (Nat.ne_of_lt hij) hc hd (h.stored i _ (by simp) hc).1
    (h.stored j _ (by simp) hd).1

/-- Once no child waits any more, the rows of the parent are those of the children. -/
theorem Awaiting.rowsOf (h : Awaiting m names master taken rows cs' []) :
    ∃ held, held.Perm (rows.filter fun row => row.holds names.parent master) ∧
      List.Forall₂ (RowOf m.owner names) held cs' := by
  have hrow : ∀ c ∈ cs', ∃ row, row ∈ rows ∧ RowOf m.owner names row c ∧
      row.holds names.parent master = true := by
    intro c hc
    obtain ⟨i, hi⟩ := List.getElem?_of_mem hc
    obtain ⟨-, row, hrow⟩ := h.stored i c (by simp) hi
    exact ⟨row, hrow⟩
  obtain ⟨held, hheld⟩ := exists_forall₂ hrow
  refine ⟨held, ?_, hheld.imp fun _ _ hrow => hrow.2.1⟩
  have hnodup : held.Nodup := by
    refine pairwise_right hheld.flip h.pairwise fun c d row row' hrow hrow' hapart heq => ?_
    rw [heq] at hrow
    rw [Row.eqv_of_holds hrow.2.1 hrow'.2.1] at hapart
    cases hapart
  refine (List.perm_ext_iff_of_nodup hnodup (h.keyed.nodup.filter _)).2 fun row => ?_
  rw [List.mem_filter]
  constructor
  · intro hmem
    obtain ⟨c, -, hrow, -, hpar⟩ := exists_right hheld hmem
    exact ⟨hrow, hpar⟩
  · rintro ⟨hrow, hpar⟩
    obtain ⟨c, hc, -, hof⟩ := h.held row hrow hpar
    obtain ⟨row', hmem, hrow', hof', -⟩ := exists_left hheld hc
    rwa [h.keyed.eq_of_holds hrow hrow' hof hof']

/-- The table after a collection was synchronized, the children `given` having become the
    children `saved`: it has what the collection holds, and nothing else was touched. -/
structure Reached (t : τ) (names : ChildColumns) (master : Value) (rows rows' : List Row)
    (olds given saved : List Record) : Prop where
  /-- The parent has one row for each child, under the key of the child. -/
  rowsOf : ∃ held, held.Perm (rows'.filter fun row => row.holds names.parent master) ∧
    List.Forall₂ (RowOf t names) held saved
  /-- No two children have the same key, and no two rows either. -/
  distinct : saved.Pairwise fun a b => (keyIn t names.key a).eqv (keyIn t names.key b) = false
  keyed : names.Rows rows'
  /-- A row whose key is gone was that of an old child that is not in the collection. -/
  deleted : ∀ row ∈ rows, ∀ v, row.get? names.key = some v →
    (∀ row' ∈ rows', row'.holds names.key v = false) →
    ∃ o ∈ olds, RowOf t names row o ∧ ∀ c ∈ given, isNew t c = false → ¬ RowOf t names row c
  /-- A row that is neither the parent's nor that of a stored child stays as it is. -/
  kept : ∀ row ∈ rows, row.holds names.parent master = false →
    (∀ c ∈ given, isNew t c = false → ¬ RowOf t names row c) → row ∈ rows'
  /-- A row that was not there is that of a child. -/
  added : ∀ row ∈ rows', row ∈ rows ∨ ∃ c ∈ saved, RowOf t names row c

section After

variable {rows₁ : List Row} (ho : OldRows m.owner names master rows olds)
  (hp : rows₁.Perm (remaining m.owner names rows lost))
  (hl : Lost m.owner names olds new lost)
  (hnew : List.Forall₂ (Pointed m names master) children new)
  (ht : Touched m.owner names rows₁ rows' new cs')
include hp hl hnew ht

/-- A row whose key is gone was taken by the deletes. -/
theorem reached_deleted (hk : names.Rows rows) : ∀ row ∈ rows, ∀ v,
    row.get? names.key = some v → (∀ row' ∈ rows', row'.holds names.key v = false) →
    ∃ o ∈ olds, RowOf m.owner names row o ∧
      ∀ c ∈ children, isNew m.owner c = false → ¬ RowOf m.owner names row c := by
  intro row hrow v hv hgone
  have hself : row.holds names.key v = true := by
    rw [Row.holds_of_get hv]
    exact (hk.isKey hrow hv).self
  have hnot : row ∉ rows₁ := by
    intro hrow₁
    obtain ⟨row', hrow', hholds⟩ := ht.keys row hrow₁ v hself
    rw [hgone row' hrow'] at hholds
    cases hholds
  rw [mem_remaining hp] at hnot
  push Not at hnot
  obtain ⟨o, hlost, hnewo, hof⟩ := hnot hrow
  refine ⟨o, hl.old o hlost, hof, fun c hc hcn hofc => ?_⟩
  obtain ⟨n, hn, hpointed⟩ := exists_right hnew hc
  have hapart := hl.apart o hlost hnewo n hn (hpointed.isNew_eq.trans hcn)
  rw [hpointed.key_eq, Row.eqv_of_holds hofc hof] at hapart
  cases hapart

include ho in
/-- The deletes take only rows of the parent, and the visits only rows of stored children. -/
theorem reached_kept (hk : names.Rows rows) : ∀ row ∈ rows,
    row.holds names.parent master = false →
    (∀ c ∈ children, isNew m.owner c = false → ¬ RowOf m.owner names row c) → row ∈ rows' := by
  intro row hrow hpar hfree
  refine ht.kept row ((mem_remaining hp row).2 ⟨hrow, fun o hlost _ hof => ?_⟩) fun n hn hnn => ?_
  · obtain ⟨row', hrow', hof', hpar'⟩ := ho.row o (hl.old o hlost)
    rw [hk.eq_of_holds hrow hrow' hof hof', hpar'] at hpar
    cases hpar
  · obtain ⟨c, hc, hpointed⟩ := exists_left hnew hn
    rw [RowOf, hpointed.key_eq]
    exact hfree c hc (hpointed.isNew_eq.symm.trans hnn)

include ho in
theorem Awaiting.reached (ha : Awaiting m names master taken rows' cs' [])
    (hk : names.Rows rows) :
    Reached m.owner names master rows rows' olds children cs' where
  rowsOf := ha.rowsOf
  distinct := ha.pairwise
  keyed := ha.keyed
  deleted := reached_deleted hp hl hnew ht hk
  kept := reached_kept ho hp hl hnew ht hk
  added row hrow := (ht.added row hrow).imp_left fun hrow => ((mem_remaining hp row).1 hrow).1

end After

/-! ## Synchronization -/

variable [DecidableEq τ] {n : Nat} {pm : TableMap τ} {rel : Relation τ} {old : Record}
  {k : Catalog τ}

/-- The keys of the stored children of a collection. -/
def keysIn (t : τ) (key : String) (cs : List Record) : List Value :=
  (cs.filter fun c => !isNew t c).map (keyIn t key)

omit [DecidableEq τ] in
theorem keyIn_mem_keysIn {key : String} {c : Record} (hc : c ∈ children)
    (hnew : isNew t c = false) : keyIn t key c ∈ keysIn t key children := by
  refine List.mem_map_of_mem (List.mem_filter.2 ⟨hc, ?_⟩)
  rw [hnew]
  rfl

/-- A synchronization that succeeds makes of the table of the children what the collection
    holds, and touches nothing else. -/
theorem synchronize_reached (hτ : Model.Sound τ) (hc : w.catalog.Sound env.config)
    (hkind : rel.kind = .oneToMany) (hwrite : rel.spec.readOnly = false)
    -- The children, and their table.
    (hmap : w.catalog.tableMap env.config rel.child = .ok (m, k))
    (hm : PlainChild env.config m names master)
    (hparent : names.parent = rel.spec.masterColumn (typeName pm.owner))
    (ht : ChildTable env m names (keysIn rel.child names.key children) table)
    (hk : names.Rows (table w.database))
    -- The old parent has the children that are stored.
    (hrows : rows.Perm ((table w.database).filter fun row => row.holds names.parent master))
    (hmaps : List.Forall₂ (RowMapper.MapsTo env.config rel.child) rows olds)
    (hold : old.many? rel.slot = some olds)
    -- The new parent has the same key, and its stored children have a key each.
    (hmaster : masterKey pm rel.spec r = some master) (hnew : r.many? rel.slot = some children)
    (htyped : ∀ c ∈ children, Typed rel.child c)
    (hdistinct : children.Pairwise fun a b =>
      RecordGraph.sameIdentity rel.child m.keys a b = false)
    (h : synchronize (saveLevels n) pm rel (some old) env w r = ⟨.ok (), w', r'⟩) :
    ∃ saved, r'.many? rel.slot = some saved ∧ saved.length = children.length ∧
      Reached rel.child names master (table w.database) (table w'.database) olds children
        saved := by
  have hown : m.owner = rel.child := (hc.tableMap hmap).1.owner
  unfold synchronize at h
  rw [hwrite, if_neg (by simp), hkind] at h
  obtain ⟨hnone, -⟩ | ⟨hnone, -⟩ | ⟨new, m', k', w₁, hal, hmap', hdb, -, hcat, halign⟩ :=
    synchronizeChildren_ok h
  · rw [hnew] at hnone; cases hnone
  · rw [hmaster] at hnone; cases hnone
  rw [hmap] at hmap'; cases hmap'
  have hmap₁ : w₁.catalog.map? m.owner = some m := hown ▸ hcat ▸ Catalog.map_of_tableMap hmap
  have hc₁ : w₁.catalog.Sound env.config := hcat ▸ (hc.tableMap hmap).2
  obtain ⟨w₂, w₃, saved, es, hdel, hv, rfl, rfl⟩ :=
    alignChildren_ok (Record.many_setSlot hnew) (hown ▸ hmap₁) halign
  rw [Option.bind_some, hold] at hdel hv
  obtain ⟨children', master', hch, hms, hatt⟩ := aligned_forall₂ hal
  rw [hnew] at hch; cases hch
  rw [hmaster] at hms; cases hms
  have hacc := accounted_childChanges rel m (some olds) new
  rw [← hparent, ← hown] at hatt
  rw [← hown] at htyped hmaps hdistinct hdel hv hacc ht ⊢
  -- The old and the new children, and what the deletes leave.
  have hpointed := hm.pointed hτ htyped hatt
  have ho := hm.oldRows hτ hk hrows hmaps
  have hl : Lost m.owner names olds new (lostChildren rel m (some olds) new) :=
    hm.lost_changes ho hown
  have hdeleted := ht.deletes hm hmap₁ hdel
  rw [hdb] at hdeleted
  have hawaiting := hm.awaiting hk ho hdeleted hacc hl hpointed hdistinct fun _ hc hcn =>
    keyIn_mem_keysIn hc hcn
  -- The visits.
  have hplaces : (savedPlaces rel m (some olds) new).Nodup := by
    obtain ⟨kept, hperm, -⟩ := hacc.saves
    exact (List.nodup_append.1 (hperm.nodup_iff.2 List.nodup_range)).1
  have hlater := (Grows.forM (fun _ => .deleteChild _ _) _).later hdel
  obtain ⟨hdone, htouched⟩ := hawaiting.visits ht hτ hm hv hplaces (hlater.maps _ _ hmap₁)
    (hlater.sound hc₁)
  refine ⟨saved, Record.many_setSlot (Record.many_setSlot hnew), ?_, ?_⟩
  · rw [hv.length_eq, ← hpointed.length_eq]
  · exact hdone.reached ho hdeleted hl hpointed htouched hk

/-- Order 7 gives up line 4, keeps line 5, takes line 6 over from order 8, and gets a new
    line. -/
theorem lines_reached :
    let given := [Sample.lineOf 5 7, Sample.lineOf 6 8, Sample.lineOf 0 0]
    let stored := [Sample.lineOf 4 7, Sample.lineOf 5 7]
    let w := Sample.lined [(4, 7), (5, 7), (6, 8), (9, 8)]
    let out := synchronize (saveLevels 0) Sample.orderMap Sample.linesRelation
      (some (Sample.orderOf 7 stored)) (Sample.keeping [.int 5, .int 6]) w
      (Sample.orderOf 7 given)
    ∃ saved, out.focus.many? 3 = some saved ∧ saved.length = 3 ∧
      Reached Sample.orderLine Sample.lineNames (.int 7) w.database out.world.database stored
        given saved := by
  intro given stored w out
  have hrun : synchronize (saveLevels 0) Sample.orderMap Sample.linesRelation
      (some (Sample.orderOf 7 stored)) (Sample.keeping [.int 5, .int 6]) w
      (Sample.orderOf 7 given) = ⟨.ok (), out.world, out.focus⟩ :=
    run_of_isOk (by decide +kernel)
  have hkeys : keysIn Sample.orderLine "Id" given = [.int 5, .int 6] := by decide +kernel
  have htable : ChildTable (Sample.keeping [.int 5, .int 6]) Sample.lineMap Sample.lineNames
      (keysIn Sample.orderLine "Id" given) id := by
    rw [hkeys]
    exact childTable_lines _
  have hk : Sample.lineNames.Rows w.database :=
    Sample.rows_lined (by decide +kernel) (by decide +kernel)
  have hrows : [Sample.lineRow (.int 4) (.int 7) (.text "nut") (.int 1),
        Sample.lineRow (.int 5) (.int 7) (.text "nut") (.int 1)].Perm
      (w.database.filter fun row => row.holds "OrderId" (.int 7)) := .of_eq (by decide +kernel)
  have hmaps : List.Forall₂ (RowMapper.MapsTo Sample.config Sample.orderLine)
      [Sample.lineRow (.int 4) (.int 7) (.text "nut") (.int 1),
        Sample.lineRow (.int 5) (.int 7) (.text "nut") (.int 1)] stored :=
    .cons ⟨_, RowMapper.of_ofConfig _ _, rfl, rfl⟩
      (.cons ⟨_, RowMapper.of_ofConfig _ _, rfl, rfl⟩ .nil)
  have hmaster : masterKey Sample.orderMap Sample.linesRelation.spec (Sample.orderOf 7 given) =
      some (.int 7) := rfl
  have hnew : (Sample.orderOf 7 given).many? Sample.linesRelation.slot = some given := rfl
  have htyped : ∀ c ∈ given, Typed Sample.orderLine c := by
    intro c hc
    simp only [given, List.mem_cons, List.not_mem_nil, or_false] at hc
    rcases hc with rfl | rfl | rfl <;> exact Sample.typed_lineOf _ _
  have hdistinct : given.Pairwise fun a b =>
      RecordGraph.sameIdentity Sample.orderLine Sample.lineMap.keys a b = false := by
    decide +kernel
  have hreached := synchronize_reached Sample.sound Sample.sound_lineCatalog rfl rfl
    (Catalog.tableMap_of_map rfl) plainChild_line rfl htable hk hrows hmaps rfl hmaster hnew
    htyped hdistinct hrun
  exact hreached

end Session

end RecordGraph
