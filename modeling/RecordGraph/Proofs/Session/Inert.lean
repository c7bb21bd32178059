/-
  Relations that are not synchronized.

  * `Inert m rel r`: the relation is read only, or the record does not carry the collection, or
    it has no key that the children could refer to.  The synchronization then sends nothing
    and leaves the record as it is (`synchronize_inert`).
  * `Beside slot r r'`: the records differ in one collection at most.  The synchronization of
    another relation changes no more than that (`synchronize_beside`), so a relation that is
    inert stays so (`synchronizeAll_staysInert`).
  * `TableMap.KeyApart`, `TableMap.Unneeded`: keys are no matter of other collections.  Only a
    computed key can be made from a collection (`TableMap.Of.keyIgnores`).
-/
import Mathlib.Data.List.Nodup
import RecordGraph.Proofs.Record.Key
import RecordGraph.Proofs.Session.Edits

namespace RecordGraph

variable {τ δ σ α ι : Type}

/-! ## Records that differ in one collection -/

/-- The second record has another collection in the slot, or is the same. -/
def Beside (slot : Nat) (r r' : Record) : Prop :=
  r' = r ∨ ∃ rs, r' = r.setSlot slot (.many rs)

namespace Beside

variable {slot j : Nat} {r r' r'' : Record}

theorem refl (r : Record) : Beside slot r r := .inl rfl

theorem set (r : Record) (rs : Option (List Record)) :
    Beside slot r (r.setSlot slot (.many rs)) := .inr ⟨rs, rfl⟩

theorem trans (h : Beside slot r r') (h' : Beside slot r' r'') : Beside slot r r'' := by
  rcases h with rfl | ⟨rs, rfl⟩
  · exact h'
  · rcases h' with rfl | ⟨rs', rfl⟩
    · exact .set r rs
    · rw [Record.setSlot_setSlot]
      exact .set r rs'

theorem many (h : Beside slot r r') (hj : slot ≠ j) : r'.many? j = r.many? j := by
  rcases h with rfl | ⟨rs, rfl⟩
  · rfl
  · exact Record.many_setSlot_ne hj

/-- A change elsewhere does not matter. -/
theorem setSlot (h : Beside slot r r') (hj : slot ≠ j) (s : Slot) :
    Beside slot (r.setSlot j s) (r'.setSlot j s) := by
  rcases h with rfl | ⟨rs, rfl⟩
  · exact .refl _
  · refine .inr ⟨rs, ?_⟩
    simp only [Record.setSlot, Record.slots]
    rw [List.set_comm _ _ hj]

end Beside

variable [Model τ]

/-! ## Keys and collections -/

/-- The key that the children of the relation refer to is not made from the collection in the
    slot. -/
def TableMap.KeyIgnores (m : TableMap τ) (rel : Relation τ) (slot : Nat) : Prop :=
  ∀ (r : Record) (rs : Option (List Record)),
    Session.masterKey m rel.spec (r.setSlot slot (.many rs)) = Session.masterKey m rel.spec r

/-- The key that the children of the relation refer to is made from no other collection. -/
def TableMap.KeyApart (m : TableMap τ) (rel : Relation τ) : Prop :=
  ∀ rel' ∈ m.relations, rel'.slot ≠ rel.slot → m.KeyIgnores rel rel'.slot

/-- No key that the children of other relations refer to is made from the collection. -/
def TableMap.Unneeded (m : TableMap τ) (rel : Relation τ) : Prop :=
  ∀ rel' ∈ m.relations, rel'.slot ≠ rel.slot → m.KeyIgnores rel' rel.slot

theorem TableMap.KeyIgnores.beside {m : TableMap τ} {rel : Relation τ} {slot : Nat}
    {r r' : Record} (h : m.KeyIgnores rel slot) (hb : Beside slot r r') :
    Session.masterKey m rel.spec r' = Session.masterKey m rel.spec r := by
  rcases hb with rfl | ⟨rs, rfl⟩
  · rfl
  · exact h r rs

section

variable {t : τ} {slot : Nat} {child : τ} {r : Record} {rs : Option (List Record)}

/-- Only a computed value can depend on a collection. -/
theorem valueAt_setMany (hτ : Model.Sound τ)
    (hs : shapeAt (Model.type t).members slot = some (.many child)) {path : List String}
    (hpath : ∀ name get, path = [name] → (fieldsOf t).get? name ≠ some (.computed get)) :
    valueAt t (r.setSlot slot (.many rs)) path = valueAt t r path := by
  have hne {i : Nat} {shape : Shape τ} (hi : shapeAt (Model.type t).members i = some shape)
      (hshape : shape ≠ .many child) : slot ≠ i := by
    rintro rfl
    rw [hs, Option.some.injEq] at hi
    exact hshape hi.symm
  cases path with
  | nil => rfl
  | cons name rest =>
    by_cases hrest : rest = []
    · subst hrest
      simp only [valueAt, flatValue]
      rcases hg : (fieldsOf t).get? name with _ | ⟨i, ft⟩ | get | ⟨i, target⟩ | ⟨i, c⟩
      · rfl
      · have hi : shapeAt (Model.type t).members i = some (.scalar ft) := (hτ t).fits_get hg
        simp only [Record.scalar_setSlot_ne (hne hi (by simp))]
      · exact absurd hg (hpath name get rfl)
      · rfl
      · rfl
    · obtain ⟨s, rest, rfl⟩ := List.exists_cons_of_ne_nil hrest
      have hn : nestedRecord t (r.setSlot slot (.many rs)) name = nestedRecord t r name := by
        unfold nestedRecord
        rcases hg : (fieldsOf t).get? name with _ | ⟨i, ft⟩ | get | ⟨i, target⟩ | ⟨i, c⟩
        · rfl
        · rfl
        · rfl
        · have hi : shapeAt (Model.type t).members i = some (.nested target) :=
            (hτ t).fits_get hg
          simp only [Record.nested_setSlot_ne (hne hi (by simp))]
        · rfl
      simp only [valueAt, hn]

/-- So a key that is not computed is no matter of collections. -/
theorem TableMap.Of.keyIgnores (hτ : Model.Sound τ) {m : TableMap τ} (hm : m.Of t)
    {rel rel' : Relation τ} (hrel' : rel' ∈ m.relations)
    (hkey : ∀ p, rel.spec.masterProperty.or m.keys.head? = some p →
      ∀ get, (fieldsOf t).get? p ≠ some (.computed get)) : m.KeyIgnores rel rel'.slot := by
  intro r rs
  have hs := hm.shape hτ rel' hrel'
  unfold Session.masterKey
  cases hp : rel.spec.masterProperty.or m.keys.head? with
  | none => rfl
  | some p =>
    simp only [Option.bind_some, hm.owner, resolveValue, fieldValue]
    have hfield : valueAt t (r.setSlot rel'.slot (.many rs)) (FieldName.segments p) =
        valueAt t r (FieldName.segments p) := by
      refine valueAt_setMany hτ hs fun name get hsingle => ?_
      cases hd : FieldName.isDotted p with
      | true => exact absurd hsingle (FieldName.segments_dotted hd name)
      | false =>
        rw [FieldName.segments_plain hd, List.cons.injEq] at hsingle
        obtain ⟨rfl, -⟩ := hsingle
        exact hkey p hp get
    have hstem (x : String) : valueAt t (r.setSlot rel'.slot (.many rs))
        (FieldName.segments (FieldName.keyPath x)) =
          valueAt t r (FieldName.segments (FieldName.keyPath x)) := by
      refine valueAt_setMany hτ hs fun name _ hsingle => ?_
      exact absurd hsingle (FieldName.segments_dotted (FieldName.isDotted_keyPath x) name)
    rw [hfield]
    simp only [hstem]

end

section

variable {t : τ} {m : TableMap τ} {a rel : Relation τ}

theorem TableMap.Of.slot_ne (hτ : Model.Sound τ) (hm : m.Of t) (ha : a ∈ m.relations)
    (hrel : rel ∈ m.relations) (hne : a.spec.property ≠ rel.spec.property) :
    a.slot ≠ rel.slot := by
  intro heq
  exact (hτ t).apart_get (hm.found a ha) (hm.found rel hrel) hne a.slot rfl
    (congrArg some heq.symm)

/-- A map has one relation for a collection. -/
theorem TableMap.Of.eq_of_property (hm : m.Of t) (ha : a ∈ m.relations) (hrel : rel ∈ m.relations)
    (h : a.spec.property = rel.spec.property) : a = rel :=
  List.inj_on_of_nodup_map (List.pairwise_map.2 hm.once) ha hrel h

end

/-! ## Inert relations -/

/-- The relation is not synchronized for the record, whatever becomes of other collections. -/
inductive Inert (m : TableMap τ) (rel : Relation τ) (r : Record) : Prop
  | readOnly : rel.spec.readOnly = true → Inert m rel r
  | absent : r.many? rel.slot = none → Inert m rel r
  | keyless : m.KeyApart rel → Session.masterKey m rel.spec r = none → Inert m rel r

/-- The change of another collection makes no difference. -/
theorem Inert.beside {m : TableMap τ} {a rel : Relation τ} {r r' : Record} (h : Inert m rel r)
    (ha : a ∈ m.relations) (hslot : a.slot ≠ rel.slot) (hb : Beside a.slot r r') :
    Inert m rel r' := by
  cases h with
  | readOnly hro => exact .readOnly hro
  | absent hnone => exact .absent ((hb.many hslot).trans hnone)
  | keyless hapart hkey => exact .keyless hapart (((hapart a ha hslot).beside hb).trans hkey)

/-- An inert relation stays so, and its collection as it is. -/
def StaysInert (m : TableMap τ) (rel : Relation τ) (r r' : Record) : Prop :=
  Inert m rel r → r'.many? rel.slot = r.many? rel.slot ∧ Inert m rel r'

namespace Session

theorem chained_staysInert (m : TableMap τ) (rel : Relation τ) : Chained (StaysInert m rel) where
  refl _ h := ⟨rfl, h⟩
  trans h h' hr :=
    have ⟨hmany, hr'⟩ := h hr
    have ⟨hmany', hr''⟩ := h' hr'
    ⟨hmany'.trans hmany, hr''⟩

variable [DecidableEq τ] {env : Env δ} {w : World τ δ} {r : Record} {t : τ} {m : TableMap τ}
  {a rel : Relation τ} {saveChild : τ → Session τ δ Record Unit}

/-- An inert relation is left alone, which may be reported. -/
theorem synchronize_inert (saveChild : τ → Session τ δ Record Unit) (old : Option Record)
    (h : Inert m rel r) :
    ∃ ds, synchronize saveChild m rel old env w r = ⟨.ok (), w.toldAll env.config ds, r⟩ := by
  unfold synchronize
  by_cases hro : rel.spec.readOnly = true
  · rw [if_pos hro]
    exact ⟨[], rfl⟩
  · rw [if_neg hro]
    have h : r.many? rel.slot = none ∨ masterKey m rel.spec r = none := by
      cases h with
      | readOnly h => exact absurd h hro
      | absent hnone => exact .inl hnone
      | keyless _ hkey => exact .inr hkey
    cases rel.kind with
    | manyToMany => exact synchronizeLinks_skipped old h
    | oneToMany => exact synchronizeChildren_skipped saveChild old h

/-! ## Relations that are synchronized -/

theorem chained_beside (slot : Nat) : Chained (Beside slot) := ⟨.refl, .trans⟩

theorem beside_setChild {slot i : Nat} {c : Record} : Beside slot r (r.setChild slot i c) := by
  unfold Record.setChild
  cases r.many? slot with
  | none => exact .refl r
  | some rs => exact .set r _

/-- The synchronization of a relation changes no more than its own collection, whatever the
    children are saved by. -/
theorem synchronize_beside (hs : ∀ t, Grows (saveChild t)) (m : TableMap τ) (rel : Relation τ)
    (old : Option Record) : Keeps (Beside rel.slot) (synchronize saveChild m rel old) := by
  have hch := chained_beside rel.slot
  rw [synchronize_eq]
  refine .bind hch (openRelation_keeps hch (fun _ _ => beside_setChild) m old)
    (.openRelation m rel old) fun opened => ?_
  have hany (t : τ) : Keeps (fun _ _ => True) (saveChild t) := fun _ _ _ _ => trivial
  refine .bind hch (.forM hch (fun _ _ => .onChild hch (fun _ _ => beside_setChild)
    (hany rel.child)) fun _ => .onChild (hs rel.child) _ _) (.saveAll hs rel _) fun _ => ?_
  exact .of_still hch (.forM .emit _)

/-- What the stored record has in the other collections does not matter. -/
theorem synchronize_congr {old old' : Option Record}
    (h : (old.bind fun r => r.many? rel.slot) = old'.bind fun r => r.many? rel.slot) :
    synchronize saveChild m rel old = synchronize saveChild m rel old' := by
  simp only [synchronize, synchronizeChildren, synchronizeLinks, h]

theorem synchronize_staysInert (hτ : Model.Sound τ) (hm : m.Of t) (hs : ∀ t, Grows (saveChild t))
    (hrel : rel ∈ m.relations) (ha : a ∈ m.relations) (old : Option Record) :
    Keeps (StaysInert m rel) (synchronize saveChild m a old) := by
  intro env w r hw hinert
  by_cases h : a.spec.property = rel.spec.property
  · obtain rfl := hm.eq_of_property ha hrel h
    obtain ⟨ds, hrun⟩ := synchronize_inert saveChild old hinert
    rw [hrun]
    exact ⟨rfl, hinert⟩
  · have hslot := hm.slot_ne hτ ha hrel h
    have hb := synchronize_beside hs m a old env w r hw
    exact ⟨hb.many hslot, hinert.beside ha hslot hb⟩

/-- No relation disturbs one that is inert. -/
theorem synchronizeAll_staysInert (hτ : Model.Sound τ) (hm : m.Of t)
    (hs : ∀ t, Grows (saveChild t)) (hrel : rel ∈ m.relations) {rels : List (Relation τ)}
    (hrels : rels ⊆ m.relations) (old : Option Record) :
    Keeps (StaysInert m rel) (rels.forM fun a => synchronize saveChild m a old) :=
  .forM (chained_staysInert m rel)
    (fun _ ha => synchronize_staysInert hτ hm hs hrel (hrels ha) old)
    fun a => .synchronize hs m a old

end Session

end RecordGraph
