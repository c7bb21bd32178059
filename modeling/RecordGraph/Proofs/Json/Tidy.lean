/-
  Documents as they are read.

  What is read of a text is tidy (`readDocument_tidy`): whole numbers are in range, the members of
  an object stand in the order of their names, each name once, and the nesting is as deep as there
  is room for.
-/
import Mathlib.Data.String.Basic
import RecordGraph.Proofs.Json.Numerals

namespace RecordGraph.Json

/-! ## Members -/

/-- The members stand in the order of their names, each name once. -/
def Sorted (members : List (String × Json)) : Prop := members.Pairwise fun m n => m.1 < n.1

variable {name : String} {value : Json} {members : List (String × Json)}

theorem of_mem_insertMember {m : String × Json} (h : m ∈ insertMember name value members) :
    m = (name, value) ∨ m ∈ members := by
  induction members with
  | nil => simpa [insertMember] using h
  | cons n rest ih =>
    rw [insertMember] at h
    split_ifs at h
    · simpa using h
    · rcases List.mem_cons.1 h with h | h
      · exact .inl h
      · exact .inr (List.mem_cons_of_mem _ h)
    · rcases List.mem_cons.1 h with h | h
      · exact .inr (h ▸ List.mem_cons_self)
      · exact (ih h).imp_right (List.mem_cons_of_mem _)

theorem Sorted.insertMember (h : Sorted members) : Sorted (insertMember name value members) := by
  induction members with
  | nil => exact List.pairwise_singleton _ _
  | cons m rest ih =>
    obtain ⟨hm, hrest⟩ := List.pairwise_cons.1 h
    rw [Json.insertMember]
    split_ifs with hlt heq
    · refine List.pairwise_cons.2 ⟨fun n hn => ?_, h⟩
      rcases List.mem_cons.1 hn with rfl | hn
      · exact hlt
      · exact hlt.trans (hm n hn)
    · subst heq
      exact List.pairwise_cons.2 ⟨hm, hrest⟩
    · have hgt : m.1 < name := lt_of_le_of_ne (not_lt.1 hlt) (Ne.symm heq)
      refine List.pairwise_cons.2 ⟨fun n hn => ?_, ih hrest⟩
      rcases of_mem_insertMember hn with rfl | hn
      · exact hgt
      · exact hm n hn

/-- A member behind all others is added at the end. -/
theorem insertMember_last (h : ∀ m ∈ members, m.1 < name) :
    insertMember name value members = members ++ [(name, value)] := by
  induction members with
  | nil => rfl
  | cons m rest ih =>
    have hm : m.1 < name := h m List.mem_cons_self
    have hrest := ih fun n hn => h n (List.mem_cons_of_mem _ hn)
    rw [insertMember, if_neg hm.not_gt, if_neg hm.ne', hrest]
    rfl

theorem foldl_insertMember (before : List (String × Json)) (h : Sorted (before ++ members)) :
    members.foldl (fun ms m => insertMember m.1 m.2 ms) before = before ++ members := by
  induction members generalizing before with
  | nil => rw [List.append_nil]; rfl
  | cons m rest ih =>
    have hlast : ∀ n ∈ before, n.1 < m.1 := fun n hn =>
      (List.pairwise_append.1 h).2.2 n hn m List.mem_cons_self
    rw [List.foldl_cons, insertMember_last hlast, ih _ (by simpa using h), List.append_assoc]
    rfl

theorem ofMembers_sorted (h : Sorted members) : ofMembers members = .object members :=
  congrArg object (foldl_insertMember [] h)

/-- What an object is put together from: sorted members, each of which was given. -/
theorem ofMembers_eq (members : List (String × Json)) :
    ∃ ms, ofMembers members = .object ms ∧ Sorted ms ∧ ∀ m ∈ ms, m ∈ members := by
  suffices hfold : ∀ before, Sorted before →
      Sorted (members.foldl (fun ms m => insertMember m.1 m.2 ms) before) ∧
      ∀ m ∈ members.foldl (fun ms m => insertMember m.1 m.2 ms) before,
        m ∈ before ∨ m ∈ members by
    obtain ⟨hsorted, hmem⟩ := hfold [] .nil
    exact ⟨_, rfl, hsorted, fun m hm => (hmem m hm).resolve_left List.not_mem_nil⟩
  induction members with
  | nil => exact fun before hbefore => ⟨hbefore, fun m hm => .inl hm⟩
  | cons n rest ih =>
    intro before hbefore
    obtain ⟨hsorted, hmem⟩ := ih (Json.insertMember n.1 n.2 before) hbefore.insertMember
    refine ⟨hsorted, fun m hm => ?_⟩
    rcases hmem m hm with hm | hm
    · rcases of_mem_insertMember hm with rfl | hm
      · exact .inr List.mem_cons_self
      · exact .inl hm
    · exact .inr (List.mem_cons_of_mem _ hm)

/-! ## Numbers -/

/-- Numbers that are read: a whole number is in range. -/
inductive Kept : JsonNumber → Prop
  | whole {i : Int} : InRange i → Kept (.whole i)
  | fraction (x : Double) : Kept (.fraction x)

variable {negative : Bool} {significand : Nat} {exponent : Int} {cs rest : List Char}
  {n : JsonNumber}

theorem absorb_lt (ds : List Char) {m : Nat} (taken : Nat) (h : m < Nat.pow 2 64) :
    (absorb m taken ds).1 < Nat.pow 2 64 := by
  induction ds generalizing m taken with
  | nil => exact h
  | cons d ds ih =>
    rw [absorb]
    split
    · rename_i hnext
      exact ih _ hnext
    · exact h

theorem ofParts_kept (h : ofParts negative significand exponent = some n) : Kept n := by
  obtain ⟨x, -, rfl⟩ := Option.map_eq_some_iff.1 h
  exact .fraction _

theorem ofParts_map_kept (h : (ofParts negative significand exponent).map (·, rest) =
    some (n, cs)) : Kept n := by
  obtain ⟨m, hm, ⟨⟩⟩ := Option.map_eq_some_iff.1 h
  exact ofParts_kept hm

theorem readExponent_kept (h : readExponent negative significand exponent cs = some (n, rest)) :
    Kept n := by
  unfold readExponent at h
  dsimp only at h
  split_ifs at h
  · cases h
    exact .fraction _
  · cases h
    exact .fraction _
  · exact ofParts_map_kept h
  · exact ofParts_map_kept h

theorem readTail_kept (h : readTail negative significand exponent cs = some (n, rest)) :
    Kept n := by
  unfold readTail at h
  split at h
  · dsimp only at h
    split_ifs at h
    split at h
    · exact readExponent_kept h
    · exact readExponent_kept h
    · exact ofParts_map_kept h
  · exact readExponent_kept h
  · exact readExponent_kept h
  · exact ofParts_map_kept h

theorem readNumber_kept (h : readNumber negative cs = some (n, rest)) : Kept n := by
  unfold readNumber at h
  dsimp only at h
  have hlt := absorb_lt (spanDigits cs).1 (m := 0) 0 (by decide)
  have hpow : Nat.pow 2 64 = 2 * Nat.pow 2 63 := rfl
  split at h
  · cases h
  split at h
  · exact readTail_kept h
  · exact readTail_kept h
  · exact readTail_kept h
  · split_ifs at h
    · exact readTail_kept h
    · cases h
      exact .whole ⟨by omega, by omega⟩
    · cases h
      exact .whole ⟨by omega, by omega⟩
    · cases h
      exact .fraction _

/-! ## Documents -/

/-- A document that can be read, with so much room for its nesting. -/
inductive Tidy : Nat → Json → Prop
  | null (room : Nat) : Tidy room .null
  | bool (room : Nat) (b : Bool) : Tidy room (.bool b)
  | number (room : Nat) {n : JsonNumber} : Kept n → Tidy room (.number n)
  | string (room : Nat) (s : String) : Tidy room (.string s)
  | array {room : Nat} {items : List Json} : (∀ item ∈ items, Tidy room item) →
      Tidy (room + 1) (.array items)
  | object {room : Nat} {members : List (String × Json)} : Sorted members →
      (∀ m ∈ members, Tidy room m.2) → Tidy (room + 1) (.object members)

/-- What the three readers read with some fuel is tidy. -/
structure ReadTidy (fuel : Nat) : Prop where
  document {room : Nat} {cs rest : List Char} {j : Json} :
    readDocument fuel room cs = some (j, rest) → Tidy room j
  items {room : Nat} {cs rest : List Char} {items : List Json} :
    readItems fuel room cs = some (items, rest) → ∀ item ∈ items, Tidy room item
  members {room : Nat} {cs rest : List Char} {members : List (String × Json)} :
    readMembers fuel room cs = some (members, rest) → ∀ m ∈ members, Tidy room m.2

variable {fuel room : Nat}

theorem readDocument_step (ih : ReadTidy fuel) {j : Json}
    (h : readDocument (fuel + 1) room cs = some (j, rest)) : Tidy room j := by
  rw [readDocument] at h
  split at h
  · cases h
    exact .null room
  · cases h
    exact .bool room true
  · cases h
    exact .bool room false
  · obtain ⟨⟨s, _⟩, -, ⟨⟩⟩ := Option.map_eq_some_iff.1 h
    exact .string room s
  · obtain ⟨⟨n, _⟩, hn, ⟨⟩⟩ := Option.map_eq_some_iff.1 h
    exact .number room (readNumber_kept hn)
  · split at h
    · cases h
    · rename_i hroom
      obtain ⟨room, rfl⟩ := Nat.exists_eq_succ_of_ne_zero hroom
      split at h
      · cases h
        exact .array (List.forall_mem_nil _)
      · obtain ⟨⟨items, _⟩, hitems, ⟨⟩⟩ := Option.map_eq_some_iff.1 h
        exact .array (ih.items hitems)
  · split at h
    · cases h
    · rename_i hroom
      obtain ⟨room, rfl⟩ := Nat.exists_eq_succ_of_ne_zero hroom
      split at h
      · cases h
        exact .object .nil (List.forall_mem_nil _)
      · obtain ⟨⟨members, _⟩, hmembers, ⟨⟩⟩ := Option.map_eq_some_iff.1 h
        obtain ⟨ms, hms, hsorted, hmem⟩ := ofMembers_eq members
        rw [hms]
        exact .object hsorted fun m hm => ih.members hmembers m (hmem m hm)
  · obtain ⟨⟨n, _⟩, hn, ⟨⟩⟩ := Option.map_eq_some_iff.1 h
    exact .number room (readNumber_kept hn)

theorem readItems_step (ih : ReadTidy fuel) {items : List Json}
    (h : readItems (fuel + 1) room cs = some (items, rest)) : ∀ item ∈ items, Tidy room item := by
  rw [readItems] at h
  split at h
  · cases h
  · rename_i hitem
    split at h
    · obtain ⟨⟨items, _⟩, hitems, ⟨⟩⟩ := Option.map_eq_some_iff.1 h
      exact List.forall_mem_cons.2 ⟨ih.document hitem, ih.items hitems⟩
    · cases h
      exact List.forall_mem_cons.2 ⟨ih.document hitem, List.forall_mem_nil _⟩
    · cases h

theorem readMembers_step (ih : ReadTidy fuel) {members : List (String × Json)}
    (h : readMembers (fuel + 1) room cs = some (members, rest)) :
    ∀ m ∈ members, Tidy room m.2 := by
  rw [readMembers] at h
  split at h
  · split at h
    · cases h
    split at h
    · split at h
      · cases h
      · rename_i hvalue
        split at h
        · obtain ⟨⟨members, _⟩, hmembers, ⟨⟩⟩ := Option.map_eq_some_iff.1 h
          exact List.forall_mem_cons.2 ⟨ih.document hvalue, ih.members hmembers⟩
        · cases h
          exact List.forall_mem_cons.2 ⟨ih.document hvalue, List.forall_mem_nil _⟩
        · cases h
    · cases h
  · cases h

theorem readTidy (fuel : Nat) : ReadTidy fuel := by
  induction fuel with
  | zero => exact ⟨nofun, nofun, nofun⟩
  | succ fuel ih => exact ⟨readDocument_step ih, readItems_step ih, readMembers_step ih⟩

theorem read?_tidy {s : String} {j : Json} (h : read? s = some j) : Tidy deepest j := by
  unfold read? at h
  dsimp only at h
  split at h
  · rename_i hread
    split at h
    · cases h
      exact (readTidy _).document hread
    · cases h
  · cases h

end RecordGraph.Json
