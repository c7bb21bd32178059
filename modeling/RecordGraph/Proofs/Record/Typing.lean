/-
  Records of a type, and types whose fields fit their members.

  * `RecordType.Sound`: every field reaches a member of the shape that it expects, and
    no two fields share one.
  * `Typed t r`: every slot of `r` holds what the members of `t` say, also in nested
    records and collections.
-/
import Mathlib.Data.List.Forall2
import Mathlib.Data.List.Pairwise
import RecordGraph.Proofs.Record.FieldTable
import RecordGraph.Proofs.Record.Slots
import RecordGraph.Record.Access

namespace RecordGraph

variable {τ : Type}

/-! ## Sound types -/

/-- What is in a slot of a type. -/
def shapeAt (members : List (Member τ)) (slot : Nat) : Option (Shape τ) :=
  members[slot]?.map Member.shape

/-- The access finds what it expects. -/
def Access.Fits (members : List (Member τ)) : Access τ → Prop
  | .stored slot t => shapeAt members slot = some (.scalar t)
  | .computed _ => True
  | .nested slot target => shapeAt members slot = some (.nested target)
  | .many slot child => shapeAt members slot = some (.many child)

/-- The slot that an access reaches. -/
def Access.slot? : Access τ → Option Nat
  | .stored slot _ => some slot
  | .computed _ => none
  | .nested slot _ => some slot
  | .many slot _ => some slot

/-- The accesses reach different slots. -/
def Access.Apart (a b : Access τ) : Prop := ∀ i, a.slot? = some i → b.slot? ≠ some i

theorem Access.Apart.symm {a b : Access τ} (h : a.Apart b) : b.Apart a :=
  fun i hb ha => h i ha hb

instance : Std.Symm fun a b : String × Access τ => a.2.Apart b.2 := ⟨fun _ _ h => h.symm⟩

/-- The fields of a type reach its members, each one of its own. -/
structure RecordType.Sound (t : RecordType τ) : Prop where
  consistent : t.fields.Consistent
  fits : ∀ e ∈ t.fields.entries, e.2.Fits t.members
  apart : t.fields.entries.Pairwise fun a b => a.2.Apart b.2

namespace RecordType

variable {t : RecordType τ} {name name' : String} {a a' : Access τ}

theorem Sound.fits_get (h : t.Sound) (hg : t.fields.get? name = some a) : a.Fits t.members :=
  h.fits _ (FieldTable.mem_of_get h.consistent hg)

theorem Sound.apart_get (h : t.Sound) (hg : t.fields.get? name = some a)
    (hg' : t.fields.get? name' = some a') (hn : name ≠ name') : a.Apart a' := by
  obtain ⟨i, hi⟩ := (FieldTable.get_eq_some h.consistent).1 hg
  obtain ⟨j, hj⟩ := (FieldTable.get_eq_some h.consistent).1 hg'
  obtain ⟨hi', hie⟩ := List.getElem?_eq_some_iff.1 hi
  obtain ⟨hj', hje⟩ := List.getElem?_eq_some_iff.1 hj
  rcases Nat.lt_trichotomy i j with hlt | rfl | hgt
  · have hp := List.pairwise_iff_getElem.1 h.apart i j hi' hj' hlt
    rwa [hie, hje] at hp
  · rw [hi] at hj; cases hj; exact absurd rfl hn
  · have hp := List.pairwise_iff_getElem.1 h.apart j i hj' hi' hgt
    rw [hie, hje] at hp
    exact hp.symm

/-- Registrations that fit and reach different slots make a sound type. -/
theorem sound_of_registrations {regs : List (String × Access τ)} (h : t.fields = .ofList regs)
    (hf : ∀ e ∈ regs, e.2.Fits t.members) (ha : regs.Pairwise fun a b => a.2.Apart b.2) :
    t.Sound := by
  obtain ⟨hc, hm⟩ := FieldTable.ofList_spec regs
  rw [← h] at hc hm
  refine ⟨hc, fun e he => hf e (hm e he), List.pairwise_iff_getElem.2 fun i j hi hj hij => ?_⟩
  have hne : t.fields.entries[i] ≠ t.fields.entries[j] := by
    have hn := List.pairwise_iff_getElem.1 hc.2 i j (by simpa [FieldTable.names] using hi)
      (by simpa [FieldTable.names] using hj) hij
    simp only [FieldTable.names, List.getElem_map] at hn
    exact fun heq => hn (by rw [heq])
  exact ha.forall (hm _ (List.getElem_mem hi)) (hm _ (List.getElem_mem hj)) hne

theorem fits_memberFields (members : List (Member τ)) :
    ∀ e ∈ memberFields members, e.2.Fits members := by
  intro e he
  simp only [memberFields, List.mem_mapIdx] at he
  obtain ⟨i, hi, rfl⟩ := he
  have hs : shapeAt members i = some members[i].shape := by
    simp [shapeAt, List.getElem?_eq_getElem hi]
  cases hm : members[i].shape <;> simp only [Shape.access, Access.Fits, hs, hm]

theorem apart_memberFields (members : List (Member τ)) :
    (memberFields members).Pairwise fun a b => a.2.Apart b.2 := by
  refine List.pairwise_iff_getElem.2 fun i j hi hj hij k hk hk' => ?_
  have hslot (s : Shape τ) (n : Nat) : (s.access n).slot? = some n := by cases s <;> rfl
  simp only [memberFields, List.getElem_mapIdx, hslot, Option.some.injEq] at hk hk'
  omega

theorem sound_of_members (h : t.fields = .ofList (memberFields t.members)) : t.Sound :=
  sound_of_registrations h (fits_memberFields t.members) (apart_memberFields t.members)

/-- A computed field more makes no difference. -/
theorem sound_of_computed (name : String) (get : Record → Value)
    (h : t.fields = .ofList (memberFields t.members ++ [(name, .computed get)])) : t.Sound := by
  refine sound_of_registrations h (fun e he => ?_) ?_
  · rcases List.mem_append.1 he with he | he
    · exact fits_memberFields t.members e he
    · rw [List.mem_singleton] at he; subst he; trivial
  · refine List.pairwise_append.2 ⟨apart_memberFields t.members, List.pairwise_singleton _ _, ?_⟩
    intro a _ b hb i _
    rw [List.mem_singleton] at hb
    subst hb; exact nofun

end RecordType

/-! ## Records of a type -/

variable [Model τ]

/-- All types of a domain are sound. -/
def Model.Sound (τ : Type) [Model τ] : Prop := ∀ t : τ, (Model.type t).Sound

mutual

/-- The record holds in every slot what its type says. -/
inductive Typed : τ → Record → Prop
  | mk {t : τ} {slots : List Slot} :
      List.Forall₂ (fun m s => SlotTyped m.shape s) (Model.type t).members slots →
      Typed t (.mk slots)

/-- The slot holds what its shape says. -/
inductive SlotTyped : Shape τ → Slot → Prop
  | scalar {t : FieldType} (x : t.Carrier) : SlotTyped (.scalar t) (.scalar (t.write x))
  | unset {target : τ} : SlotTyped (.nested target) (.nested none)
  | nested {target : τ} {r : Record} :
      Typed target r → SlotTyped (.nested target) (.nested (some r))
  | absent {child : τ} : SlotTyped (.many child) (.many none)
  | many {child : τ} {rs : List Record} : (∀ r ∈ rs, Typed child r) →
      SlotTyped (.many child) (.many (some rs))

end

section

variable {t : τ} {r : Record} {i : Nat} {shape : Shape τ} {s : Slot}

theorem Typed.slots (h : Typed t r) :
    List.Forall₂ (fun m s => SlotTyped m.shape s) (Model.type t).members r.slots := by
  cases h with
  | mk h => exact h

theorem Typed.slot (h : Typed t r) (hs : shapeAt (Model.type t).members i = some shape) :
    ∃ s, r.slots[i]? = some s ∧ SlotTyped shape s := by
  obtain ⟨m, hm, rfl⟩ := Option.map_eq_some_iff.1 hs
  obtain ⟨hi, rfl⟩ := List.getElem?_eq_some_iff.1 hm
  have hi' : i < r.slots.length := h.slots.length_eq ▸ hi
  exact ⟨r.slots[i], List.getElem?_eq_getElem hi', h.slots.get hi hi'⟩

theorem Typed.lt (h : Typed t r) (hs : shapeAt (Model.type t).members i = some shape) :
    i < r.slots.length := by
  obtain ⟨s, hs, -⟩ := h.slot hs
  exact (List.getElem?_eq_some_iff.1 hs).1

theorem Typed.setSlot (h : Typed t r) (hs : shapeAt (Model.type t).members i = some shape)
    (ht : SlotTyped shape s) : Typed t (r.setSlot i s) := by
  refine .mk (List.forall₂_iff_get.2 ⟨by simpa using h.slots.length_eq, fun j hj hj' => ?_⟩)
  simp only [List.get_eq_getElem, List.getElem_set]
  split
  · rename_i hij
    subst hij
    obtain ⟨m, hm, rfl⟩ := Option.map_eq_some_iff.1 hs
    obtain ⟨hi, rfl⟩ := List.getElem?_eq_some_iff.1 hm
    exact ht
  · exact h.slots.get hj _

theorem Typed.nested {target : τ} {n : Record} (h : Typed t r)
    (hs : shapeAt (Model.type t).members i = some (.nested target)) (hn : r.nested? i = some n) :
    Typed target n := by
  obtain ⟨s, hs, ht⟩ := h.slot hs
  cases ht with
  | unset => simp [Record.nested?, hs] at hn
  | nested hr => simp only [Record.nested?, hs, Option.some.injEq] at hn; exact hn ▸ hr

theorem typed_freshRecord (t : τ) : Typed t (freshRecord t) := by
  refine .mk (List.forall₂_map_right_iff.2 (List.forall₂_same.2 fun m _ => ?_))
  cases m.shape with
  | scalar t => exact .scalar t.fresh
  | nested => exact .unset
  | many => exact .absent

/-- The nested record that a write goes through is of the type of its field. -/
theorem Typed.nestedOrFresh {target : τ} (h : Typed t r)
    (hs : shapeAt (Model.type t).members i = some (.nested target)) :
    Typed target ((r.nested? i).getD (freshRecord target)) := by
  cases hn : r.nested? i with
  | none => exact typed_freshRecord target
  | some n => exact h.nested hs hn

end

theorem slot_freshRecord (t : τ) (i : Nat) : (freshRecord t).slots[i]? =
    (shapeAt (Model.type t).members i).map Shape.fresh := by
  simp [freshRecord, RecordType.fresh, Record.slots, shapeAt, Function.comp_def]

/-- In a fresh record no nested record is set. -/
theorem nested_freshRecord (t : τ) (slot : Nat) : (freshRecord t).nested? slot = none := by
  simp only [Record.nested?, slot_freshRecord]
  rcases shapeAt (Model.type t).members slot with _ | _ | _ | _ <;> rfl

end RecordGraph
