/-
  Tables of fields made from registrations.

  * `ofList_spec`: index and entries agree, and every entry is one of the registrations.
  * `latest`: the entry that a history of registrations leaves under a name.  It is the one that
    is found (`get_ofList_eq`), whatever was registered under the name before.
  * `names_ofList`: the names stand in the order of their first registration.
-/
import Mathlib.Data.List.Basic
import Mathlib.Data.List.Induction
import RecordGraph.Record.FieldTable

namespace RecordGraph.FieldTable

variable {α : Type} {t : FieldTable α} {name name' : String} {a a' : α} {i : Nat}

/-! ## Registration -/

theorem mem_names (h : t.Consistent) : name ∈ t.names ↔ t.contains name = true := by
  rw [contains, Option.isSome_iff_exists, List.mem_iff_getElem?]
  exact exists_congr fun i => (h.1 name i).symm

theorem names_modify (t : FieldTable α) (i : Nat) (a : α) :
    (t.entries.modify i fun e => (e.1, a)).map Prod.fst = t.names := by
  refine List.ext_getElem (by simp [names]) fun j h₁ h₂ => ?_
  simp only [List.getElem_map, List.getElem_modify, names]
  split <;> rfl

theorem Consistent.insert (h : t.Consistent) (name : String) (a : α) :
    (t.insert name a).Consistent := by
  unfold FieldTable.insert
  cases hl : t.index.lookup name with
  | some i =>
    refine ⟨fun n j => ?_, ?_⟩
    · simp only [names, names_modify]; exact h.1 n j
    · simp only [names, names_modify]; exact h.2
  | none =>
    have hnew : name ∉ t.names := by simp [mem_names h, contains, hl]
    have hlen : t.names.length = t.entries.length := List.length_map _
    refine ⟨fun n j => ?_, ?_⟩
    · simp only [names, List.map_append, List.map_cons, List.map_nil, List.lookup_append]
      change (_ ↔ (t.names ++ [name])[j]? = some n)
      by_cases hn : n = name
      · subst hn
        rw [hl]
        simp only [List.lookup_cons, beq_self_eq_true, Option.none_or, Option.some.injEq]
        constructor
        · rintro rfl; simp [← hlen]
        · intro hj
          rcases Nat.lt_trichotomy j t.names.length with hlt | heq | hgt
          · rw [List.getElem?_append_left hlt] at hj
            exact absurd (List.mem_of_getElem? hj) hnew
          · omega
          · rw [List.getElem?_eq_none (by simp; omega)] at hj; cases hj
      · have hn' : (n == name) = false := by simpa using hn
        simp only [List.lookup_cons, hn', List.lookup_nil, Option.or_none]
        rw [h.1 n j]
        rcases Nat.lt_or_ge j t.names.length with hlt | hge
        · rw [List.getElem?_append_left hlt]
        · rw [List.getElem?_eq_none hge, List.getElem?_append_right hge]
          cases j - t.names.length with
          | zero => simp [Ne.symm hn]
          | succ k => simp
    · simp only [names, List.map_append, List.map_cons, List.map_nil]
      exact List.nodup_append.2 ⟨h.2, by simp, by
        intro x hx y hy hxy
        rw [List.mem_singleton] at hy
        exact hnew (hy ▸ hxy ▸ hx)⟩

/-- A new name goes to the end, a name that is there keeps its place. -/
theorem names_insert (h : t.Consistent) (name : String) (a : α) :
    (t.insert name a).names = if name ∈ t.names then t.names else t.names ++ [name] := by
  unfold FieldTable.insert
  cases hl : t.index.lookup name with
  | some i =>
    rw [if_pos ((mem_names h).2 (by rw [contains, hl]; rfl))]
    exact names_modify t i a
  | none =>
    rw [if_neg (by simp [mem_names h, contains, hl])]
    simp [names]

theorem mem_insert (h : t.Consistent) {e : String × α} (he : e ∈ (t.insert name a).entries) :
    e ∈ t.entries ∨ e = (name, a) := by
  unfold FieldTable.insert at he
  cases hl : t.index.lookup name with
  | none =>
    simp only [hl, List.mem_append, List.mem_singleton] at he
    exact he
  | some i =>
    simp only [hl] at he
    obtain ⟨j, hj⟩ := List.getElem?_of_mem he
    rw [List.getElem?_modify] at hj
    obtain ⟨e', he', hee⟩ := Option.map_eq_some_iff.1 hj
    by_cases hij : i = j
    · subst hij
      rw [if_pos rfl] at hee
      have hname := (h.1 name i).1 hl
      rw [names, List.getElem?_map, he'] at hname
      cases hname
      exact .inr hee.symm
    · rw [if_neg hij] at hee
      exact .inl (hee ▸ List.mem_of_getElem? he')

theorem consistent_empty : (empty : FieldTable α).Consistent :=
  ⟨fun _ _ => by simp [empty, names], by simp [empty, names]⟩

theorem ofList_concat (regs : List (String × α)) (r : String × α) :
    ofList (regs ++ [r]) = (ofList regs).insert r.1 r.2 := by
  simp [ofList, List.foldl_append]

theorem ofList_spec (regs : List (String × α)) :
    (ofList regs).Consistent ∧ ∀ e ∈ (ofList regs).entries, e ∈ regs := by
  induction regs using List.reverseRecOn with
  | nil => exact ⟨consistent_empty, fun e he => he⟩
  | append_singleton regs r ih =>
    obtain ⟨hc, hm⟩ := ih
    rw [ofList_concat]
    refine ⟨hc.insert r.1 r.2, fun e he => ?_⟩
    rcases mem_insert hc he with he | rfl
    · exact List.mem_append_left _ (hm e he)
    · exact List.mem_append_right _ (List.mem_singleton_self _)

/-! ## Look-up -/

theorem get_eq_some (ht : t.Consistent) :
    t.get? name = some a ↔ ∃ i : Nat, t.entries[i]? = some (name, a) := by
  simp only [get?, Option.bind_eq_some_iff, Option.map_eq_some_iff]
  constructor
  · rintro ⟨i, hi, e, he, rfl⟩
    have hname := (ht.1 name i).1 hi
    rw [names, List.getElem?_map, he] at hname
    cases hname
    exact ⟨i, he⟩
  · rintro ⟨i, hi⟩
    exact ⟨i, (ht.1 name i).2 (by rw [names, List.getElem?_map, hi]; rfl), _, hi, rfl⟩

theorem mem_of_get (ht : t.Consistent) (h : t.get? name = some a) : (name, a) ∈ t.entries := by
  obtain ⟨i, hi⟩ := (get_eq_some ht).1 h
  exact List.mem_of_getElem? hi

theorem entry_of_lookup (ht : t.Consistent) (hl : t.index.lookup name = some i) :
    ∃ a, t.entries[i]? = some (name, a) := by
  have hname := (ht.1 name i).1 hl
  rw [names, List.getElem?_map] at hname
  obtain ⟨⟨_, a⟩, he, rfl⟩ := Option.map_eq_some_iff.1 hname
  exact ⟨a, he⟩

theorem contains_eq (ht : t.Consistent) (name : String) :
    t.contains name = (t.get? name).isSome := by
  rw [contains, get?]
  cases hl : t.index.lookup name with
  | none => rfl
  | some i =>
    obtain ⟨a, he⟩ := entry_of_lookup ht hl
    simp [he]

/-- A registration is found under its name and changes nothing under other names. -/
theorem get_insert (ht : t.Consistent) (name : String) (a : α) (name' : String) :
    (t.insert name a).get? name' = if name' = name then some a else t.get? name' := by
  unfold FieldTable.insert
  cases hl : t.index.lookup name with
  | some i =>
    obtain ⟨b, he⟩ := entry_of_lookup ht hl
    simp only [get?]
    by_cases hn : name' = name
    · subst hn
      simp [hl, List.getElem?_modify, he]
    · rw [if_neg hn]
      refine Option.bind_congr fun j hj => ?_
      have hij : i ≠ j := by
        rintro rfl
        obtain ⟨b', he'⟩ := entry_of_lookup ht hj
        rw [he] at he'
        cases he'
        exact hn rfl
      simp [hij]
  | none =>
    simp only [get?, List.lookup_append, List.lookup_cons, List.lookup_nil]
    by_cases hn : name' = name
    · subst hn
      simp [hl]
    · have hn' : (name' == name) = false := by simpa using hn
      simp only [hn', Option.or_none, if_neg hn]
      refine Option.bind_congr fun j hj => ?_
      obtain ⟨b, he⟩ := entry_of_lookup ht hj
      rw [List.getElem?_append_left (List.getElem?_eq_some_iff.1 he).1]

/-- To look through the entries is to look under every name once. -/
theorem any_entries (ht : t.Consistent) (p : α → Bool) :
    (t.entries.any fun e => p e.2) = t.names.any fun name => (t.get? name).any p := by
  rw [Bool.eq_iff_iff, List.any_eq_true, List.any_eq_true]
  constructor
  · rintro ⟨⟨name, a⟩, he, hp⟩
    have hg : t.get? name = some a := (get_eq_some ht).2 (List.getElem?_of_mem he)
    exact ⟨name, List.mem_map.2 ⟨_, he, rfl⟩, by rw [hg]; exact hp⟩
  · rintro ⟨name, -, hp⟩
    obtain ⟨a, hg, hp⟩ := (Option.any_eq_true _ _).1 hp
    exact ⟨_, mem_of_get ht hg, hp⟩

/-! ## Histories of registrations -/

/-- The entry that was registered last under a name. -/
def latest (regs : List (String × α)) (name : String) : Option α := regs.reverse.lookup name

section

variable (regs : List (String × α)) (r : String × α) (name : String)

theorem latest_concat :
    latest (regs ++ [r]) name = if name = r.1 then some r.2 else latest regs name := by
  obtain ⟨name', a⟩ := r
  simp only [latest, List.reverse_append, List.reverse_singleton, List.singleton_append,
    List.lookup_cons]
  by_cases hn : name = name'
  · simp [hn]
  · simp [hn, beq_false_of_ne hn]

/-- The last registration of a name is the one that is found. -/
theorem get_ofList_eq : (ofList regs).get? name = latest regs name := by
  induction regs using List.reverseRecOn with
  | nil => rfl
  | append_singleton regs r ih =>
    rw [ofList_concat, get_insert (ofList_spec regs).1, latest_concat, ih]

/-- Every name stands once, in the order of the first registrations. -/
theorem names_ofList : (ofList regs).names = (regs.map Prod.fst).eraseDups := by
  induction regs using List.reverseRecOn with
  | nil => rfl
  | append_singleton regs r ih =>
    rw [ofList_concat, names_insert (ofList_spec regs).1, ih, List.map_append,
      List.eraseDups_append]
    by_cases hmem : r.1 ∈ regs.map Prod.fst
    · rw [if_pos (List.mem_eraseDups.2 hmem)]
      simp [List.removeAll, List.mem_map.1 hmem]
    · rw [if_neg (mt List.mem_eraseDups.1 hmem)]
      simp [List.removeAll, hmem, List.eraseDups_cons]

theorem contains_ofList : (ofList regs).contains name = true ↔ name ∈ regs.map Prod.fst := by
  rw [← mem_names (ofList_spec regs).1, names_ofList, List.mem_eraseDups]

end

/-- The last registration of a name is one with no other after it. -/
theorem latest_eq_some {regs : List (String × α)} :
    latest regs name = some a ↔ ∃ i : Nat, regs[i]? = some (name, a) ∧
      ∀ j : Nat, i < j → ∀ b, regs[j]? ≠ some (name, b) := by
  rw [latest, List.lookup_eq_some_iff]
  constructor
  · rintro ⟨later, earlier, hsplit, hlater⟩
    have hregs : regs = earlier.reverse ++ (name, a) :: later.reverse := by
      rw [← List.reverse_reverse regs, hsplit]
      simp
    subst hregs
    refine ⟨earlier.reverse.length, by simp, fun j hj b hb => ?_⟩
    rw [List.getElem?_append_right (by omega), List.getElem?_cons, if_neg (by omega)] at hb
    have hmem : (name, b) ∈ later := List.mem_reverse.1 (List.mem_of_getElem? hb)
    simpa using hlater _ hmem
  · rintro ⟨i, hi, hlast⟩
    obtain ⟨hlt, hget⟩ := List.getElem?_eq_some_iff.1 hi
    refine ⟨(regs.drop (i + 1)).reverse, (regs.take i).reverse, ?_, fun p hp => ?_⟩
    · calc regs.reverse = (regs.take i ++ (name, a) :: regs.drop (i + 1)).reverse := by
            rw [← hget, List.getElem_cons_drop, List.take_append_drop]
        _ = _ := by simp
    · obtain ⟨j, hj⟩ := List.getElem?_of_mem (List.mem_reverse.1 hp)
      rw [List.getElem?_drop] at hj
      have hne : name ≠ p.1 := by
        rintro rfl
        exact hlast _ (by omega) p.2 hj
      simpa using hne

theorem get_ofList (regs : List (String × α)) :
    (ofList regs).get? name = some a ↔ ∃ i : Nat, regs[i]? = some (name, a) ∧
      ∀ j : Nat, i < j → ∀ b, regs[j]? ≠ some (name, b) := by
  rw [get_ofList_eq, latest_eq_some]

end RecordGraph.FieldTable
