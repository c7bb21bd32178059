/-
  Which declarations are those of record types, and what becomes of them.

  * `Declaration.IsRecord` says when a declaration is accepted, `FieldDeclaration.described` what
    becomes of a field, and `Declaration.IsKey` which field is the key.
  * `Declaration.outline_accepted`: the outline is there exactly if the declaration is accepted,
    it says of every field that is not left out what is described, and it does not depend on the
    order of marks that set different things.
-/
import Mathlib.Data.List.Forall2
import Mathlib.Data.List.Nodup
import RecordGraph.Declaration.Outline
import RecordGraph.Proofs.Declaration.Marks

namespace RecordGraph

/-! ## Types of fields -/

namespace TypeExpr

variable {t : TypeExpr} {wrapper : String}

theorem inside_eq_some {u : TypeExpr} :
    t.inside wrapper = some u ↔ t = .named wrapper [some u] := by
  constructor
  · intro h
    unfold inside at h
    split at h
    · split at h
      · cases h
        subst wrapper
        rfl
      · cases h
    · cases h
  · rintro rfl
    exact if_pos rfl

theorem insideOption_isSome : t.insideOption.isSome ↔ ∃ u, t = .named "Option" [some u] := by
  simp only [Option.isSome_iff_exists, insideOption, inside_eq_some]

theorem inside_inside_isSome : (t.insideOption.bind (inside wrapper)).isSome ↔
    ∃ u, t = .named "Option" [some (.named wrapper [some u])] := by
  simp only [Option.isSome_iff_exists, Option.bind_eq_some_iff, insideOption, inside_eq_some]
  constructor
  · rintro ⟨u, v, rfl, rfl⟩
    exact ⟨u, rfl⟩
  · rintro ⟨u, rfl⟩
    exact ⟨u, _, rfl, rfl⟩

end TypeExpr

/-! ## Fields -/

namespace FieldDeclaration

variable {f f' : FieldDeclaration}

/-- What the marks of the field say one by one. -/
def said (f : FieldDeclaration) : List FieldMark := f.marks.filterMap Mark.ofField?

/-- The field may stand in a record type. -/
structure Proper (f : FieldDeclaration) : Prop where
  known : ∀ k ∈ f.marks, ∃ n, k.ofField? = some n
  oneRole : FieldMark.OneRole f.said
  nested : .nested ∈ f.said → ∃ u, f.type = .named "Option" [some u]
  collection : .collection ∈ f.said → ∃ u, f.type = .named "Option" [some (.named "Vec" [some u])]

/-- How the content of the field is reached. -/
def reach (f : FieldDeclaration) : Reach :=
  if .nested ∈ f.said then if f.type.isOptionalBox then .nestedBox else .nested
  else if .collection ∈ f.said then .collection
  else .scalar

/-- What becomes of a field that is not left out. -/
def described (f : FieldDeclaration) : FieldOutline where
  name := f.name
  column := (f.said.filterMap FieldMark.column?).getLast?.getD f.defaultColumn
  reach := f.reach
  isKey := .key ∈ f.said
  isDeleted := .deleted ∈ f.said
  isGhost := .ghost ∈ f.said
  lastChange := if .lastChange ∈ f.said then some f.changeType else none

/-- The role that the marks give is taken exactly if the type fits. -/
theorem reach_eq_ok {x : Option Reach} (hone : FieldMark.OneRole f.said) :
    (FieldMarks.said f.said).role.reach f.type = .ok x ↔
      (.nested ∈ f.said → ∃ u, f.type = .named "Option" [some u]) ∧
      (.collection ∈ f.said → ∃ u, f.type = .named "Option" [some (.named "Vec" [some u])]) ∧
      x = if .skip ∈ f.said then none else some f.reach := by
  have hsaid := FieldMarks.role_said f.said
  generalize (FieldMarks.said f.said).role = role at hsaid ⊢
  rcases hsaid with ⟨rfl, hnone⟩ | ⟨n, hn, hrole⟩
  · have hnested : .nested ∉ f.said := fun h => hnone _ h rfl
    have hcollection : .collection ∉ f.said := fun h => hnone _ h rfl
    have hskip : .skip ∉ f.said := fun h => hnone _ h rfl
    simpa [FieldRole.reach, reach, hnested, hcollection, hskip] using eq_comm
  have hothers (n' : FieldMark) (hpart : n'.part = .role) (hne : n ≠ n') : n' ∉ f.said :=
    fun hn' => hne (hone n hn n' hn' (FieldMark.role_eq_some hrole).1 hpart)
  cases n <;> cases hrole
  case inr.nested =>
    have hcollection := hothers .collection rfl nofun
    have hskip := hothers .skip rfl nofun
    rw [← TypeExpr.insideOption_isSome]
    cases h : f.type.insideOption with
    | none => simp [FieldRole.reach, h, hn]
    | some u => simpa [FieldRole.reach, reach, h, hn, hcollection, hskip] using eq_comm
  case inr.collection =>
    have hnested := hothers .nested rfl nofun
    have hskip := hothers .skip rfl nofun
    rw [← TypeExpr.inside_inside_isSome]
    by_cases h : f.type.isOptionalVec
    · have h' : (f.type.insideOption.bind (TypeExpr.inside "Vec")).isSome := h
      simpa [FieldRole.reach, reach, h, h', hn, hnested, hskip] using eq_comm
    · have h' : ¬ (f.type.insideOption.bind (TypeExpr.inside "Vec")).isSome := h
      simp [FieldRole.reach, h, h', hn]
  case inr.skip =>
    have hnested := hothers .nested rfl nofun
    have hcollection := hothers .collection rfl nofun
    simpa [FieldRole.reach, hn, hnested, hcollection] using eq_comm

/-- The outline of a field is there exactly if the field may stand in a record type. -/
theorem outline_eq_ok {x : Option FieldOutline} : f.outline = .ok x ↔
    f.Proper ∧ x = if .skip ∈ f.said then none else some f.described := by
  have hmake : (if .skip ∈ f.said then none else some f.reach).map (fun r =>
      (⟨f.name, (FieldMarks.said f.said).column.getD f.defaultColumn, r,
        (FieldMarks.said f.said).isKey, (FieldMarks.said f.said).isDeleted,
        (FieldMarks.said f.said).isGhost,
        if (FieldMarks.said f.said).isLastChange then some f.changeType else none⟩ :
          FieldOutline)) = if .skip ∈ f.said then none else some f.described := by
    by_cases hskip : .skip ∈ f.said
    · rw [if_pos hskip, if_pos hskip]
      rfl
    · simp only [if_neg hskip, Option.map_some, FieldMarks.said, decide_eq_true_eq]
      rfl
  unfold outline
  simp only [result_bind_ok, FieldMarks.read_eq_ok]
  constructor
  · rintro ⟨_, ⟨hknown, hone, rfl⟩, reach, hreach, ⟨⟩⟩
    obtain ⟨hnested, hcollection, rfl⟩ := (reach_eq_ok hone).1 hreach
    exact ⟨⟨hknown, hone, hnested, hcollection⟩, hmake⟩
  · rintro ⟨h, rfl⟩
    exact ⟨_, ⟨h.known, h.oneRole, rfl⟩, _,
      (reach_eq_ok h.oneRole).2 ⟨h.nested, h.collection, rfl⟩, congrArg Except.ok hmake⟩

end FieldDeclaration

/-- The fields that are not left out. -/
def mappedOf (fs : List FieldDeclaration) : List FieldDeclaration :=
  fs.filter fun f => .skip ∉ f.said

section

variable {f : FieldDeclaration} {fs : List FieldDeclaration}

theorem mappedOf_cons_skip (h : .skip ∈ f.said) : mappedOf (f :: fs) = mappedOf fs :=
  List.filter_cons_of_neg (by simpa using h)

theorem mappedOf_cons (h : .skip ∉ f.said) : mappedOf (f :: fs) = f :: mappedOf fs :=
  List.filter_cons_of_pos (by simpa using h)

/-- Fields are taken exactly if each may stand in a record type and no two of those that are not
    left out are marked as the key, the one seen before included. -/
theorem outlinesOf_eq_ok {seen : Bool} {os : List FieldOutline} : outlinesOf seen fs = .ok os ↔
    (∀ f ∈ fs, f.Proper) ∧
      (mappedOf fs).countP (fun f => .key ∈ f.said) + seen.toNat ≤ 1 ∧
      os = (mappedOf fs).map FieldDeclaration.described := by
  induction fs generalizing seen os with
  | nil =>
    have hseen : seen.toNat ≤ 1 := Bool.toNat_le seen
    simp [outlinesOf, mappedOf, eq_comm, hseen]
  | cons f fs ih =>
    rw [outlinesOf, result_bind_ok, List.forall_mem_cons]
    simp only [FieldDeclaration.outline_eq_ok]
    by_cases hskip : .skip ∈ f.said
    · simp only [hskip, if_true, mappedOf_cons_skip hskip]
      constructor
      · rintro ⟨_, ⟨hf, rfl⟩, h⟩
        obtain ⟨hfs, hkeys, rfl⟩ := ih.1 h
        exact ⟨⟨hf, hfs⟩, hkeys, rfl⟩
      · rintro ⟨⟨hf, hfs⟩, hkeys, rfl⟩
        exact ⟨_, ⟨hf, rfl⟩, ih.2 ⟨hfs, hkeys, rfl⟩⟩
    -- A key that has been seen counts as one more before the rest is looked at.
    · have hcount : (f :: mappedOf fs).countP (fun f => .key ∈ f.said) + seen.toNat ≤ 1 ↔
          ¬ (f.described.isKey && seen) = true ∧
          (mappedOf fs).countP (fun f => .key ∈ f.said) +
            (seen || f.described.isKey).toNat ≤ 1 := by
        rw [List.countP_cons, show decide (.key ∈ f.said) = f.described.isKey from rfl]
        cases f.described.isKey <;> cases seen <;> simp
      simp only [hskip, if_false, mappedOf_cons hskip, hcount, List.map_cons]
      constructor
      · rintro ⟨_, ⟨hf, rfl⟩, h⟩
        dsimp only at h
        split at h
        · cases h
        · rename_i hseen
          obtain ⟨os', hos', ⟨⟩⟩ := result_bind_ok.1 h
          obtain ⟨hfs, hkeys, rfl⟩ := ih.1 hos'
          exact ⟨⟨hf, hfs⟩, ⟨hseen, hkeys⟩, rfl⟩
      · rintro ⟨⟨hf, hfs⟩, ⟨hseen, hkeys⟩, rfl⟩
        refine ⟨_, ⟨hf, rfl⟩, ?_⟩
        dsimp only
        rw [if_neg hseen, ih.2 ⟨hfs, hkeys, rfl⟩]
        rfl

end

/-! ## Keys -/

theorem keyField_eq_none {os : List FieldOutline} :
    keyField os = none ↔ ∀ g ∈ os, ¬ g.isKey = true ∧ g.name ≠ implicitKey := by
  simp [keyField, Option.or_eq_none_iff, List.find?_eq_none, forall_and]

theorem keyField_mem {os : List FieldOutline} {g : FieldOutline} (h : keyField os = some g) :
    g ∈ os ∧ (g.isKey = true ∨ (∀ g' ∈ os, ¬ g'.isKey = true) ∧ g.name = implicitKey) := by
  unfold keyField at h
  cases hmarked : os.find? (·.isKey) with
  | some g' =>
    rw [hmarked] at h
    cases h
    exact ⟨List.mem_of_find?_eq_some hmarked,
      .inl (List.find?_some (p := FieldOutline.isKey) hmarked)⟩
  | none =>
    rw [hmarked, Option.none_or] at h
    refine ⟨List.mem_reverse.1 (List.mem_of_find?_eq_some h), .inr ⟨?_, ?_⟩⟩
    · exact List.find?_eq_none.1 hmarked
    · simpa using List.find?_some h

/-! ## Declarations -/

namespace Declaration

variable {d d' : Declaration} {o : Outline} {f f' : FieldDeclaration}

/-- The fields that are not left out, in the order of their declaration. -/
def mapped (d : Declaration) : List FieldDeclaration := mappedOf d.fields

/-- The declaration is one of a record type. -/
structure IsRecord (d : Declaration) : Prop where
  form : d.form = .namedFields
  marks : ∀ k ∈ d.marks, ∃ n, k.ofStruct? = some n
  fields : ∀ f ∈ d.fields, f.Proper
  oneKey : d.mapped.countP (fun f => .key ∈ f.said) ≤ 1
  key : ∃ f ∈ d.mapped, .key ∈ f.said ∨ f.name = "id"

/-- The field is the key: it is marked so, or no field is and it is named so. -/
def IsKey (d : Declaration) (f : FieldDeclaration) : Prop :=
  f ∈ d.mapped ∧ (.key ∈ f.said ∨ (∀ g ∈ d.mapped, .key ∉ g.said) ∧ f.name = "id")

/-- The declaration is accepted exactly if it is one of a record type; then the outline has what
    is described of its fields, in their order. -/
theorem outline_eq_ok : d.outline = .ok o ↔ d.IsRecord ∧ o.name = d.name ∧
    o.marks = .said (d.marks.filterMap Mark.ofStruct?) ∧
    o.fields = d.mapped.map FieldDeclaration.described ∧ keyField o.fields = some o.key := by
  constructor
  · intro h
    unfold outline at h
    split at h
    case h_5 hform =>
      obtain ⟨marks, hmarks, h⟩ := result_bind_ok.1 h
      obtain ⟨fields, hfields, h⟩ := result_bind_ok.1 h
      obtain ⟨hknown, rfl⟩ := StructMarks.read_eq_ok.1 hmarks
      obtain ⟨hproper, hone, rfl⟩ := outlinesOf_eq_ok.1 hfields
      split at h
      · cases h
      · rename_i key hkey
        cases h
        refine ⟨⟨hform, hknown, hproper, hone, ?_⟩, rfl, rfl, rfl, hkey⟩
        obtain ⟨hmem, hwhy⟩ := keyField_mem hkey
        obtain ⟨f, hf, rfl⟩ := List.mem_map.1 hmem
        exact ⟨f, hf, hwhy.imp of_decide_eq_true And.right⟩
    all_goals cases h
  · rintro ⟨⟨hform, hknown, hproper, hone, -⟩, hname, hmarks, hfields, hkey⟩
    have hread : outlinesOf false d.fields = .ok o.fields :=
      outlinesOf_eq_ok.2 ⟨hproper, hone, hfields⟩
    rw [outline, hform]
    dsimp only
    refine result_bind_ok.2 ⟨o.marks, StructMarks.read_eq_ok.2 ⟨hknown, hmarks⟩,
      result_bind_ok.2 ⟨o.fields, hread, ?_⟩⟩
    simp only [hkey, ← hname]
    rfl

/-- There is an outline exactly of the declarations of record types. -/
theorem exists_outline : (∃ o, d.outline = .ok o) ↔ d.IsRecord := by
  refine ⟨fun ⟨o, ho⟩ => (outline_eq_ok.1 ho).1, fun h => ?_⟩
  cases hkey : keyField (d.mapped.map FieldDeclaration.described) with
  | none =>
    obtain ⟨f, hf, hwhy⟩ := h.key
    obtain ⟨hmarked, hname⟩ := keyField_eq_none.1 hkey _ (List.mem_map_of_mem hf)
    rcases hwhy with hkey | hid
    · exact (hmarked (decide_eq_true hkey)).elim
    · exact (hname hid).elim
  | some key => exact ⟨⟨d.name, _, _, key⟩, outline_eq_ok.2 ⟨h, rfl, rfl, rfl, hkey⟩⟩

theorem exists_key (h : d.outline = .ok o) : ∃ f, d.IsKey f ∧ o.key = f.described := by
  obtain ⟨-, -, -, hfields, hkey⟩ := outline_eq_ok.1 h
  rw [hfields] at hkey
  obtain ⟨hmem, hwhy⟩ := keyField_mem hkey
  obtain ⟨f, hf, hdescribed⟩ := List.mem_map.1 hmem
  refine ⟨f, ⟨hf, ?_⟩, hdescribed.symm⟩
  rw [← hdescribed] at hwhy
  refine hwhy.imp of_decide_eq_true (And.imp_left fun hnone g hg hkey => ?_)
  exact hnone _ (List.mem_map_of_mem hg) (decide_eq_true hkey)

/-- Fields of different names do not share the key. -/
theorem IsKey.name_eq (h : d.IsRecord) (hf : d.IsKey f) (hf' : d.IsKey f') :
    f.name = f'.name := by
  obtain ⟨hmem, hwhy⟩ := hf
  obtain ⟨hmem', hwhy'⟩ := hf'
  rcases hwhy with hkey | ⟨hnone, hname⟩ <;> rcases hwhy' with hkey' | ⟨hnone', hname'⟩
  · have hlen : (d.mapped.filter fun f => .key ∈ f.said).length ≤ 1 := by
      rw [← List.countP_eq_length_filter]
      exact h.oneKey
    have hin : f ∈ d.mapped.filter fun f => .key ∈ f.said :=
      List.mem_filter.2 ⟨hmem, decide_eq_true hkey⟩
    have hin' : f' ∈ d.mapped.filter fun f => .key ∈ f.said :=
      List.mem_filter.2 ⟨hmem', decide_eq_true hkey'⟩
    generalize d.mapped.filter (fun f => .key ∈ f.said) = keys at hlen hin hin'
    match keys, hlen with
    | [], _ => cases hin
    | [k], _ => rw [List.mem_singleton.1 hin, List.mem_singleton.1 hin']
  · exact (hnone' f hmem hkey).elim
  · exact (hnone f' hmem' hkey').elim
  · rw [hname, hname']

theorem nodup_mapped (hnames : (d.fields.map (·.name)).Nodup) :
    (d.mapped.map (·.name)).Nodup :=
  hnames.sublist (List.filter_sublist.map _)

/-- Fields have different names, so there is one key. -/
theorem IsKey.outline_key (h : d.outline = .ok o) (hnames : (d.fields.map (·.name)).Nodup)
    (hf : d.IsKey f) : o.key = f.described := by
  obtain ⟨k, hk, hkey⟩ := exists_key h
  have hname := hk.name_eq (outline_eq_ok.1 h).1 hf
  rw [hkey, List.inj_on_of_nodup_map (nodup_mapped hnames) hk.1 hf.1 hname]

/-- The names of an outline are those of the fields that are not left out. -/
theorem nodup_names (hfields : o.fields = d.mapped.map FieldDeclaration.described)
    (hnames : (d.fields.map (·.name)).Nodup) : (o.fields.map (·.name)).Nodup := by
  have hmapped : o.fields.map (·.name) = d.mapped.map (·.name) := by
    rw [hfields, List.map_map]
    rfl
  rw [hmapped]
  exact nodup_mapped hnames

end Declaration

theorem Outline.slotOf_eq {o : Outline} {g : FieldOutline} {i : Nat}
    (hnames : (o.fields.map (·.name)).Nodup) (hi : o.fields[i]? = some g) : o.slotOf g = i := by
  obtain ⟨hlt, rfl⟩ := List.getElem?_eq_some_iff.1 hi
  refine (List.findIdx_eq hlt).2 ⟨decide_eq_true rfl, fun j hj => decide_eq_false fun hname => ?_⟩
  have hlen : i < (o.fields.map (·.name)).length := by simpa
  have hlen' : j < (o.fields.map (·.name)).length := Nat.lt_trans hj hlen
  have hsame : (o.fields.map (·.name))[j] = (o.fields.map (·.name))[i] := by
    simpa using hname
  exact Nat.ne_of_lt hj (hnames.getElem_inj_iff.1 hsame)

/-! ## What becomes of a declaration -/

/-- What the outline of a declaration says. -/
structure Declaration.Becomes (d : Declaration) (o : Outline) : Prop where
  name : o.name = d.name
  marks : o.marks = .said (d.marks.filterMap Mark.ofStruct?)
  /-- The fields that are not left out, in their order. -/
  fields : o.fields = d.mapped.map FieldDeclaration.described
  /-- They are registered in that order. -/
  registered {τ : Type} (content : FieldOutline → Shape τ) : (o.recordType content).fields =
    .ofList (d.mapped.mapIdx fun i f => (f.described.column, (content f.described).access i))
  /-- Boxes are where the type has one. -/
  boxed : ∀ f ∈ d.mapped, f.described.reach = .nestedBox ↔
    .nested ∈ f.said ∧ ∃ u, f.type = .named "Option" [some (.named "Box" [some u])]
  key : ∃ f, d.IsKey f ∧ o.key = f.described
  /-- The key of a record is in the slot of the key. -/
  keyRead {τ : Type} (content : FieldOutline → Shape τ) {i : Nat} {f : FieldDeclaration} :
    (d.fields.map (·.name)).Nodup → d.mapped[i]? = some f → d.IsKey f →
      ∀ r, (o.recordType content).key r = r.scalar i
  /-- A map is told of the key exactly if it is not the generated one. -/
  keys {τ : Type} (cs : List String) : (Setting.keys cs : Setting τ) ∈ o.settings ↔
    cs = [o.key.column] ∧ o.key.column ≠ "Id"
  readOnly {τ : Type} (cs : List String) : (Setting.readOnly cs : Setting τ) ∈ o.settings ↔
    cs = [o.key.column] ∧ o.key.column ≠ "Id"

theorem Outline.mem_settings {τ : Type} {o : Outline} {s : Setting τ} (h : s ∉ o.tableSettings) :
    s ∈ o.settings ↔ (s = .keys [o.key.column] ∨ s = .readOnly [o.key.column]) ∧
      o.key.column ≠ generatedKeyColumn := by
  rw [Outline.settings, List.mem_append, or_iff_right h, Outline.keySettings]
  by_cases hkey : o.key.column = generatedKeyColumn
  · simp [hkey]
  · simp [hkey, Setting.id]

theorem Outline.mem_tableSettings {τ : Type} {o : Outline} {s : Setting τ}
    (h : s ∈ o.tableSettings) : ∀ cs, s ≠ .keys cs ∧ s ≠ .readOnly cs := by
  unfold Outline.tableSettings at h
  split at h
  case h_4 => cases h
  all_goals
    cases List.mem_singleton.1 h
    exact fun cs => ⟨nofun, nofun⟩

theorem FieldDeclaration.described_nestedBox {f : FieldDeclaration} :
    f.described.reach = .nestedBox ↔
      .nested ∈ f.said ∧ ∃ u, f.type = .named "Option" [some (.named "Box" [some u])] := by
  rw [← TypeExpr.inside_inside_isSome]
  change f.reach = .nestedBox ↔ _ ∧ f.type.isOptionalBox = true
  unfold FieldDeclaration.reach
  split <;> split <;> simp_all

namespace Declaration

theorem becomes {d : Declaration} {o : Outline} (h : d.outline = .ok o) : d.Becomes o := by
  obtain ⟨-, hname, hmarks, hfields, -⟩ := outline_eq_ok.1 h
  refine ⟨hname, hmarks, hfields, fun content => ?_,
    fun _ _ => FieldDeclaration.described_nestedBox, exists_key h,
    fun content i f hnames hi hf r => ?_, fun cs => ?_, fun cs => ?_⟩
  · refine congrArg FieldTable.ofList (List.ext_getElem ?_ fun i _ _ => ?_)
    · simp [Outline.columns, hfields]
    · simp [Outline.columns, hfields, List.getElem_mapIdx]
  · change r.scalar (o.slotOf o.key) = r.scalar i
    have hfield : o.fields[i]? = some f.described := by
      rw [hfields, List.getElem?_map, hi]
      rfl
    rw [hf.outline_key h hnames, Outline.slotOf_eq (nodup_names hfields hnames) hfield]
  · rw [Outline.mem_settings fun hs => (Outline.mem_tableSettings hs cs).1 rfl]
    simp [generatedKeyColumn]
  · rw [Outline.mem_settings fun hs => (Outline.mem_tableSettings hs cs).2 rfl]
    simp [generatedKeyColumn]

/-! ## Another order of marks -/

/-- The same declaration but for the order of the marks of its fields that set different
    things. -/
structure Rearranged (d d' : Declaration) : Prop where
  name : d'.name = d.name
  form : d'.form = d.form
  marks : d'.marks = d.marks
  fields : List.Forall₂ (fun f f' => f'.name = f.name ∧ f'.type = f.type ∧
    Reordered f.marks f'.marks) d.fields d'.fields

end Declaration

section

variable {f f' : FieldDeclaration} {fs fs' : List FieldDeclaration}

theorem FieldDeclaration.outline_of_read (hname : f'.name = f.name) (htype : f'.type = f.type) :
    (∀ x, (∀ m, FieldMarks.read f.marks = .ok m ↔ FieldMarks.read f'.marks = .ok m) →
      (f.outline = .ok x ↔ f'.outline = .ok x)) ∧
    (FieldMarks.read f.marks = FieldMarks.read f'.marks → f.outline = f'.outline) := by
  obtain ⟨name, type, marks⟩ := f
  obtain ⟨name', type', marks'⟩ := f'
  cases hname
  cases htype
  constructor
  · intro x h
    unfold FieldDeclaration.outline
    simp only [result_bind_ok, h]
    rfl
  · intro h
    unfold FieldDeclaration.outline
    simp only [h]
    rfl

theorem outlinesOf_ok_congr {seen : Bool} {os : List FieldOutline}
    (h : List.Forall₂ (fun f f' => ∀ x, f.outline = .ok x ↔ f'.outline = .ok x) fs fs') :
    outlinesOf seen fs = .ok os ↔ outlinesOf seen fs' = .ok os := by
  induction h generalizing seen os with
  | nil => rfl
  | cons hf hfs ih =>
    rw [outlinesOf, outlinesOf, result_bind_ok, result_bind_ok]
    refine exists_congr fun x => and_congr (hf x) ?_
    cases x with
    | none => exact ih
    | some g =>
      dsimp only
      split
      · rfl
      · simp only [result_bind_ok, ih]

theorem outlinesOf_congr {seen : Bool}
    (h : List.Forall₂ (fun f f' => f.outline = f'.outline) fs fs') :
    outlinesOf seen fs = outlinesOf seen fs' := by
  induction h generalizing seen with
  | nil => rfl
  | cons hf hfs ih => simp only [outlinesOf, hf, ih]

end

namespace Declaration

/-- The marks of the fields in another order give the same outline, and the same complaint if all
    marks are known. -/
theorem outline_rearranged {d d' : Declaration} (h : d.Rearranged d') :
    (∀ o, d.outline = .ok o ↔ d'.outline = .ok o) ∧
      ((∀ f ∈ d.fields, ∀ k ∈ f.marks, ∃ n, k.ofField? = some n) → d.outline = d'.outline) := by
  obtain ⟨name, form, marks, fields⟩ := d
  obtain ⟨name', form', marks', fields'⟩ := d'
  obtain ⟨rfl, rfl, rfl, hfields⟩ := h
  constructor
  · intro o
    have hok (os : List FieldOutline) : outlinesOf false fields = .ok os ↔
        outlinesOf false fields' = .ok os :=
      outlinesOf_ok_congr (hfields.imp fun f f' ⟨hname, htype, hmarks⟩ x =>
        (FieldDeclaration.outline_of_read hname htype).1 x (FieldMarks.read_reordered hmarks))
    unfold outline
    cases form'
    case namedFields => simp only [result_bind_ok, hok]
    all_goals rfl
  · intro hknown
    have heq : outlinesOf false fields = outlinesOf false fields' :=
      outlinesOf_congr (((List.forall₂_and_left _ _).2 ⟨hknown, hfields⟩).imp
        fun f f' ⟨hf, hname, htype, hmarks⟩ => (FieldDeclaration.outline_of_read hname htype).2
          (FieldMarks.read_reordered_known hmarks hf))
    unfold outline
    simp only [heq]

/-- A declaration is accepted exactly if it is one of a record type; what becomes of it is
    described, and the order of marks that set different things does not matter. -/
theorem outline_accepted (d : Declaration) :
    ((∃ o, d.outline = .ok o) ↔ d.IsRecord) ∧ (∀ o, d.outline = .ok o → d.Becomes o) ∧
      ∀ d', d.Rearranged d' → (∀ o, d.outline = .ok o ↔ d'.outline = .ok o) ∧
        ((∀ f ∈ d.fields, ∀ k ∈ f.marks, ∃ n, k.ofField? = some n) → d.outline = d'.outline) :=
  ⟨exists_outline, fun _ => becomes, fun _ => outline_rearranged⟩

/-- Orders with a number for a key, and with a customer in a box. -/
def orders (marks : List Mark) : Declaration :=
  ⟨"Order", .namedFields, [.word "schema" (.text "sales")],
    [⟨"order_no", .named "i64" [], marks⟩,
      ⟨"note", .named "String" [], [.word "skip" .nothing]⟩,
      ⟨"customer", .named "Option" [some (.named "Box" [some (.named "Customer" [])])],
        [.word "nested" .nothing]⟩]⟩

/-- Orders are records, whether the key or its column is marked first. -/
theorem outline_orders :
    let d := orders [.word "id" .nothing, .word "column" (.text "No")]
    let d' := orders [.word "column" (.text "No"), .word "id" .nothing]
    d.Rearranged d' ∧ d.IsRecord ∧
      ∃ o, d.outline = .ok o ∧ d.Becomes o ∧ o.key.column = "No" ∧ d'.outline = .ok o := by
  intro d d'
  obtain ⟨haccepted, hbecomes, hsame⟩ := outline_accepted d
  have hd : d.Rearranged d' :=
    ⟨rfl, rfl, rfl, .cons ⟨rfl, rfl, .swap .., fun p => by cases p <;> rfl⟩
      (.cons ⟨rfl, rfl, .refl _, fun _ => rfl⟩ (.cons ⟨rfl, rfl, .refl _, fun _ => rfl⟩ .nil))⟩
  obtain ⟨o, ho, hcolumn⟩ : ∃ o, d.outline = .ok o ∧ o.key.column = "No" := ⟨_, rfl, rfl⟩
  exact ⟨hd, haccepted.1 ⟨o, ho⟩, o, ho, hbecomes o ho, hcolumn, ((hsame d' hd).1 o).1 ho⟩

end Declaration

end RecordGraph
