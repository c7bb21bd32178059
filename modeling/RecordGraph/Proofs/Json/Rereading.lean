/-
  Documents that are written and read again.

  The text of a tidy document is read to its end, wherever it stands (`Tidy.reads`), and the
  document that is read is the same but for its fractions: each of these is what is read of its
  own text (`reread`).  So a document is read back just if each of its fractions is
  (`read_text_iff`).
-/
import RecordGraph.Proofs.Json.Tidy

namespace RecordGraph.Json

/-! ## Strings -/

theorem ofHex_toHex_control : ∀ n < 32, ofHex? (toHex 4 n) = some n := by decide

theorem readString_plain {c : Char} (hquote : c ≠ '"') (hsolidus : c ≠ '\\')
    (hcontrol : ¬ c.toNat < 32) (before rest : List Char) :
    readString before (c :: rest) = readString (c :: before) rest := by
  rw [readString.eq_def]
  split <;> simp_all

theorem readString_control {c : Char} (h : c.toNat < 32) (before rest : List Char) :
    readString before (['\\', 'u'] ++ toHex 4 c.toNat ++ rest) =
      readString (c :: before) rest := by
  obtain ⟨w, x, y, z, hdigits⟩ : ∃ w x y z, toHex 4 c.toNat = [w, x, y, z] := ⟨_, _, _, _, rfl⟩
  have hread := ofHex_toHex_control c.toNat h
  have hhigh : isHighSurrogate c.toNat = false := by
    simp [isHighSurrogate]
    omega
  have hlow : isLowSurrogate c.toNat = false := by
    simp [isLowSurrogate]
    omega
  rw [hdigits] at hread ⊢
  simp only [List.cons_append, List.nil_append, readString, hread, hhigh, hlow, Char.ofNat_toNat,
    Bool.false_eq_true, if_false]

/-- An escaped character is read as the character. -/
theorem readString_escaped (before : List Char) (c : Char) (rest : List Char) :
    readString before (escaped c ++ rest) = readString (c :: before) rest := by
  unfold escaped
  split_ifs with h₁ h₂ h₃ h₄ h₅ h₆ h₇ hcontrol
  · subst h₁; rfl
  · subst h₂; rfl
  · subst h₃; rfl
  · subst h₄; rfl
  · subst h₅; rfl
  · subst h₆; rfl
  · subst h₇; rfl
  · exact readString_control hcontrol before rest
  · exact readString_plain h₁ h₂ hcontrol before rest

theorem readString_flatMap (before cs rest : List Char) :
    readString before (cs.flatMap escaped ++ '"' :: rest) =
      some (String.ofList (before.reverse ++ cs), rest) := by
  induction cs generalizing before with
  | nil =>
    rw [List.append_nil]
    rfl
  | cons c cs ih =>
    rw [List.flatMap_cons, List.append_assoc, readString_escaped, ih, List.reverse_cons,
      List.append_assoc]
    rfl

theorem toList_quoted (s : String) :
    (quoted s).toList = '"' :: (s.toList.flatMap escaped ++ ['"']) :=
  String.toList_ofList

theorem readString_quoted (s : String) (rest : List Char) :
    readString [] (s.toList.flatMap escaped ++ '"' :: rest) = some (s, rest) := by
  rw [readString_flatMap, List.reverse_nil, List.nil_append, String.ofList_toList]

/-! ## What is read -/

mutual

/-- The document that is read of the text of a document, if one is. -/
def reread : Json → Option Json
  | .null => some .null
  | .bool b => some (.bool b)
  | .number (.whole i) => some (.number (.whole i))
  | .number (.fraction x) => read? (fractionText x)
  | .string s => some (.string s)
  | .array items => (rereadItems items).map .array
  | .object members => (rereadMembers members).map .object

/-- `reread` item by item. -/
def rereadItems : List Json → Option (List Json)
  | [] => some []
  | item :: rest => do return (← item.reread) :: (← rereadItems rest)

/-- `reread` member by member. -/
def rereadMembers : List (String × Json) → Option (List (String × Json))
  | [] => some []
  | (name, value) :: rest => do return (name, ← value.reread) :: (← rereadMembers rest)

end

/-- A text that is read to its end is one document. -/
theorem read?_of_reads {s : String} {result : Option Json}
    (h : Reads (readDocument (2 * s.toList.length + 1) deepest) s.toList result) :
    read? s = result := by
  have hread := h [] ends_nil
  rw [List.append_nil] at hread
  rw [read?, hread]
  cases result with
  | none => rfl
  | some j => rfl

theorem reads_fraction (x : Double) (n room : Nat) :
    Reads (readDocument (n + 1) room) (fractionText x).toList (read? (fractionText x)) := by
  obtain ⟨result, hresult⟩ := reads_fractionText x
  rw [read?_of_reads (hresult _ deepest)]
  exact hresult n room

/-! ## Texts -/

theorem toList_array (items : List Json) :
    (array items).text.toList = '[' :: ((itemsText items).toList ++ [']']) := by
  rw [text, String.toList_append, String.toList_append]
  rfl

theorem toList_object (members : List (String × Json)) :
    (object members).text.toList = '\x7b' :: ((membersText members).toList ++ ['\x7d']) := by
  rw [text, String.toList_append, String.toList_append]
  rfl

theorem toList_itemsText (item next : Json) (rest : List Json) :
    (itemsText (item :: next :: rest)).toList =
      item.text.toList ++ ',' :: (itemsText (next :: rest)).toList := by
  simp only [itemsText, String.toList_append, List.append_assoc]
  rfl

theorem toList_membersText_one (name : String) (value : Json) :
    (membersText [(name, value)]).toList =
      '"' :: (name.toList.flatMap escaped ++ '"' :: ':' :: value.text.toList) := by
  simp only [membersText, String.toList_append, toList_quoted, List.append_assoc, List.cons_append]
  rfl

theorem toList_membersText (name : String) (value : Json) (next : String × Json)
    (rest : List (String × Json)) :
    (membersText ((name, value) :: next :: rest)).toList =
      '"' :: (name.toList.flatMap escaped ++ '"' :: ':' :: (value.text.toList ++
        ',' :: (membersText (next :: rest)).toList)) := by
  simp only [membersText, String.toList_append, toList_quoted, List.append_assoc, List.cons_append]
  rfl

/-- How the text of every document begins. -/
theorem opens_text (j : Json) : Opens j.text.toList := by
  cases j with
  | null => exact ⟨'n', _, rfl, rfl, by decide⟩
  | bool b => cases b with
    | false => exact ⟨'f', _, rfl, rfl, by decide⟩
    | true => exact ⟨'t', _, rfl, rfl, by decide⟩
  | number n => cases n with
    | whole i => exact opens_whole i
    | fraction x => exact opens_fractionText x
  | string s => exact ⟨'"', _, toList_quoted s, rfl, by decide⟩
  | array items => exact ⟨'[', _, toList_array items, rfl, by decide⟩
  | object members => exact ⟨'\x7b', _, toList_object members, rfl, by decide⟩

/-! ## Reading texts -/

/-- The text of a document is read wherever it stands: every level and every item takes a
    character, so that twice the length of the text is fuel enough. -/
def ReadsIn (room : Nat) (j : Json) : Prop :=
  ∀ n, 2 * j.text.toList.length ≤ n → Reads (readDocument n room) j.text.toList j.reread

section

variable {n room : Nat} {item value : Json} {items : List Json} {name : String}
  {members : List (String × Json)} {cs rest : List Char}

/-- The last item of an array. -/
theorem readItems_one (h : Reads (readDocument n room) item.text.toList item.reread) :
    readItems (n + 1) room (item.text.toList ++ ']' :: rest) =
      (rereadItems [item]).map (·, rest) := by
  have hread := h (']' :: rest) (ends_cons rest (by decide))
  rw [readItems, hread, rereadItems, rereadItems]
  cases item.reread with
  | none => rfl
  | some j => rfl

/-- An item of an array with others behind it. -/
theorem readItems_more (h : Reads (readDocument n room) item.text.toList item.reread)
    (hitems : readItems n room cs = (rereadItems items).map (·, rest)) :
    readItems (n + 1) room (item.text.toList ++ ',' :: cs) =
      (rereadItems (item :: items)).map (·, rest) := by
  have hread := h (',' :: cs) (ends_cons cs (by decide))
  rw [readItems, hread, rereadItems]
  cases item.reread with
  | none => rfl
  | some j =>
    change (readItems n room cs).map _ = _
    rw [hitems]
    cases rereadItems items with
    | none => rfl
    | some js => rfl

/-- What is read of a member whose value is read, or is not. -/
theorem readMembers_named (n room : Nat) (name : String) (rest : List Char) :
    (readDocument n room rest = none →
      readMembers (n + 1) room ('"' :: (name.toList.flatMap escaped ++ '"' :: ':' :: rest)) =
        none) ∧
    (∀ j rest', readDocument n room rest = some (j, ',' :: rest') →
      readMembers (n + 1) room ('"' :: (name.toList.flatMap escaped ++ '"' :: ':' :: rest)) =
        (readMembers n room rest').map fun p => ((name, j) :: p.1, p.2)) ∧
    ∀ j rest', readDocument n room rest = some (j, '\x7d' :: rest') →
      readMembers (n + 1) room ('"' :: (name.toList.flatMap escaped ++ '"' :: ':' :: rest)) =
        some ([(name, j)], rest') := by
  have hname := readString_quoted name (':' :: rest)
  have hquote : skipBlanks ('"' :: (name.toList.flatMap escaped ++ '"' :: ':' :: rest)) =
      '"' :: (name.toList.flatMap escaped ++ '"' :: ':' :: rest) := rfl
  have hcolon : skipBlanks (':' :: rest) = ':' :: rest := rfl
  refine ⟨fun h => ?_, fun j rest' h => ?_, fun j rest' h => ?_⟩
  · simp only [readMembers, hquote, hname, hcolon, h]
  · have hcomma : skipBlanks (',' :: rest') = ',' :: rest' := rfl
    simp only [readMembers, hquote, hname, hcolon, h, hcomma]
  · have hbrace : skipBlanks ('\x7d' :: rest') = '\x7d' :: rest' := rfl
    simp only [readMembers, hquote, hname, hcolon, h, hbrace]

/-- The last member of an object. -/
theorem readMembers_one (h : Reads (readDocument n room) value.text.toList value.reread) :
    readMembers (n + 1) room ('"' :: (name.toList.flatMap escaped ++
        '"' :: ':' :: (value.text.toList ++ '\x7d' :: rest))) =
      (rereadMembers [(name, value)]).map (·, rest) := by
  have hread := h ('\x7d' :: rest) (ends_cons rest (by decide))
  obtain ⟨hnone, -, hlast⟩ := readMembers_named n room name (value.text.toList ++ '\x7d' :: rest)
  rw [rereadMembers, rereadMembers]
  cases hj : value.reread with
  | none =>
    rw [hj] at hread
    exact hnone hread
  | some j =>
    rw [hj] at hread
    exact hlast j rest hread

/-- A member of an object with others behind it. -/
theorem readMembers_more (h : Reads (readDocument n room) value.text.toList value.reread)
    (hmembers : readMembers n room cs = (rereadMembers members).map (·, rest)) :
    readMembers (n + 1) room ('"' :: (name.toList.flatMap escaped ++
        '"' :: ':' :: (value.text.toList ++ ',' :: cs))) =
      (rereadMembers ((name, value) :: members)).map (·, rest) := by
  have hread := h (',' :: cs) (ends_cons cs (by decide))
  obtain ⟨hnone, hmore, -⟩ := readMembers_named n room name (value.text.toList ++ ',' :: cs)
  rw [rereadMembers]
  cases hj : value.reread with
  | none =>
    rw [hj] at hread
    exact hnone hread
  | some j =>
    rw [hj] at hread
    rw [hmore j cs hread, hmembers]
    cases rereadMembers members with
    | none => rfl
    | some ms => rfl

end

theorem readItems_text {room : Nat} {items : List Json} (hne : items ≠ [])
    (h : ∀ item ∈ items, ReadsIn room item) (n : Nat)
    (hn : 2 * (itemsText items).toList.length + 1 ≤ n) (rest : List Char) :
    readItems n room ((itemsText items).toList ++ ']' :: rest) =
      (rereadItems items).map (·, rest) := by
  induction items generalizing n with
  | nil => exact absurd rfl hne
  | cons item items ih =>
    obtain ⟨n, rfl⟩ : ∃ m, n = m + 1 := ⟨n - 1, by omega⟩
    have hitem := h item List.mem_cons_self
    cases items with
    | nil => exact readItems_one (hitem n (Nat.le_of_succ_le_succ hn))
    | cons next items =>
      rw [toList_itemsText] at hn ⊢
      rw [List.length_append, List.length_cons] at hn
      have hrest := ih (by simp) (fun j hj => h j (List.mem_cons_of_mem _ hj)) n (by omega)
      rw [List.append_assoc, List.cons_append]
      exact readItems_more (hitem n (by omega)) hrest

theorem readMembers_text {room : Nat} {members : List (String × Json)} (hne : members ≠ [])
    (h : ∀ m ∈ members, ReadsIn room m.2) (n : Nat)
    (hn : 2 * (membersText members).toList.length + 1 ≤ n) (rest : List Char) :
    readMembers n room ((membersText members).toList ++ '\x7d' :: rest) =
      (rereadMembers members).map (·, rest) := by
  induction members generalizing n with
  | nil => exact absurd rfl hne
  | cons m members ih =>
    obtain ⟨name, value⟩ := m
    obtain ⟨n, rfl⟩ : ∃ m, n = m + 1 := ⟨n - 1, by omega⟩
    have hvalue : ReadsIn room value := h (name, value) List.mem_cons_self
    cases members with
    | nil =>
      rw [toList_membersText_one] at hn ⊢
      simp only [List.length_append, List.length_cons] at hn
      simp only [List.cons_append, List.append_assoc]
      exact readMembers_one (hvalue n (by omega))
    | cons next members =>
      rw [toList_membersText] at hn ⊢
      simp only [List.length_append, List.length_cons] at hn
      have hrest := ih (by simp) (fun m hm => h m (List.mem_cons_of_mem _ hm)) n (by omega)
      simp only [List.cons_append, List.append_assoc]
      exact readMembers_more (hvalue n (by omega)) hrest

/-- The names are read back. -/
theorem names_rereadMembers {members ms : List (String × Json)}
    (h : rereadMembers members = some ms) : ms.map Prod.fst = members.map Prod.fst := by
  induction members generalizing ms with
  | nil =>
    cases h
    rfl
  | cons m members ih =>
    obtain ⟨name, value⟩ := m
    rw [rereadMembers] at h
    obtain ⟨j, -, h⟩ := Option.bind_eq_some_iff.1 h
    obtain ⟨rest, hrest, ⟨⟩⟩ := Option.bind_eq_some_iff.1 h
    rw [List.map_cons, List.map_cons, ih hrest]

theorem sorted_iff (members : List (String × Json)) :
    Sorted members ↔ (members.map Prod.fst).Pairwise (· < ·) :=
  List.pairwise_map.symm

theorem names_sorted {members ms : List (String × Json)} (h : rereadMembers members = some ms)
    (hsorted : Sorted members) : Sorted ms :=
  (sorted_iff ms).2 (names_rereadMembers h ▸ (sorted_iff members).1 hsorted)

theorem readDocument_array (n room : Nat) {cs : List Char} (h : Opens cs) :
    readDocument (n + 1) (room + 1) ('[' :: cs) =
      (readItems n room cs).map fun p => (.array p.1, p.2) := by
  have hbracket : skipBlanks ('[' :: cs) = '[' :: cs := rfl
  have hcs := h.skipBlanks
  obtain ⟨c, cs, rfl, hblank, hne⟩ := h
  simp only [readDocument, hbracket, hcs, Nat.succ_ne_zero, if_false]
  split
  · rename_i h
    cases h
    exact absurd rfl hne
  · rfl

theorem opens_itemsText (item : Json) (items : List Json) (rest : List Char) :
    Opens ((itemsText (item :: items)).toList ++ rest) := by
  obtain ⟨c, cs, hcs, hopens⟩ := opens_text item
  cases items with
  | nil => exact ⟨c, cs ++ rest, congrArg (· ++ rest) hcs, hopens⟩
  | cons next items =>
    rw [toList_itemsText, hcs]
    exact ⟨c, _, rfl, hopens⟩

theorem reads_array {room : Nat} {items : List Json} (h : ∀ item ∈ items, ReadsIn room item) :
    ReadsIn (room + 1) (.array items) := by
  intro n hn rest hrest
  rw [toList_array] at hn ⊢
  simp only [List.length_append, List.length_cons] at hn
  obtain ⟨n, rfl⟩ : ∃ m, n = m + 1 := ⟨n - 1, by omega⟩
  cases items with
  | nil => rfl
  | cons item items =>
    have hread := readItems_text (List.cons_ne_nil _ _) h n (by omega) rest
    simp only [List.cons_append, List.append_assoc, List.nil_append]
    rw [readDocument_array n room (opens_itemsText item items _), hread, reread, Option.map_map,
      Option.map_map]
    rfl

theorem opens_membersText (m : String × Json) (members : List (String × Json)) :
    ∃ cs, (membersText (m :: members)).toList = '"' :: cs := by
  cases members with
  | nil => exact ⟨_, toList_membersText_one m.1 m.2⟩
  | cons next members => exact ⟨_, toList_membersText m.1 m.2 next members⟩

theorem readDocument_object (n room : Nat) {cs : List Char} (h : ∃ cs', cs = '"' :: cs') :
    readDocument (n + 1) (room + 1) ('\x7b' :: cs) =
      (readMembers n room cs).map fun p => (.ofMembers p.1, p.2) := by
  obtain ⟨cs, rfl⟩ := h
  rfl

theorem reads_object {room : Nat} {members : List (String × Json)} (hsorted : Sorted members)
    (h : ∀ m ∈ members, ReadsIn room m.2) : ReadsIn (room + 1) (.object members) := by
  intro n hn rest hrest
  rw [toList_object] at hn ⊢
  simp only [List.length_append, List.length_cons] at hn
  obtain ⟨n, rfl⟩ : ∃ m, n = m + 1 := ⟨n - 1, by omega⟩
  cases members with
  | nil => rfl
  | cons m members =>
    have hread := readMembers_text (List.cons_ne_nil _ _) h n (by omega) rest
    obtain ⟨cs, hcs⟩ := opens_membersText m members
    simp only [List.cons_append, List.append_assoc, List.nil_append]
    rw [readDocument_object n room ⟨_, congrArg (· ++ '\x7d' :: rest) hcs⟩, hread, reread]
    cases hms : rereadMembers (m :: members) with
    | none => rfl
    | some ms =>
      change some (ofMembers ms, rest) = some (.object ms, rest)
      rw [ofMembers_sorted (names_sorted hms hsorted)]

/-- The text of a tidy document is read to its end. -/
theorem Tidy.reads {room : Nat} {j : Json} (h : Tidy room j) : ReadsIn room j := by
  -- No text is empty, so that there is fuel for one document at least.
  have hfuel {n : Nat} {j : Json} (hn : 2 * j.text.toList.length ≤ n) : ∃ m, n = m + 1 := by
    obtain ⟨c, cs, hcs, -⟩ := opens_text j
    rw [hcs, List.length_cons] at hn
    exact ⟨n - 1, by omega⟩
  induction h with
  | null room =>
    intro n hn rest hrest
    obtain ⟨n, rfl⟩ := hfuel hn
    rfl
  | bool room b =>
    intro n hn rest hrest
    obtain ⟨n, rfl⟩ := hfuel hn
    cases b <;> rfl
  | number room hkept =>
    intro n hn
    obtain ⟨n, rfl⟩ := hfuel hn
    cases hkept with
    | whole hi => exact reads_whole hi n room
    | fraction x => exact reads_fraction x n room
  | string room s =>
    intro n hn rest hrest
    obtain ⟨n, rfl⟩ := hfuel hn
    have htext : (Json.string s).text.toList = '"' :: (s.toList.flatMap escaped ++ ['"']) :=
      toList_quoted s
    have hread := readString_quoted s rest
    rw [htext, List.cons_append, List.append_assoc]
    change (readString [] (s.toList.flatMap escaped ++ '"' :: rest)).map _ = _
    rw [hread]
    rfl
  | array _ ih => exact reads_array ih
  | object hsorted _ ih => exact reads_object hsorted ih

theorem Tidy.read_text {j : Json} (h : Tidy deepest j) : read? j.text = j.reread :=
  read?_of_reads (h.reads _ (Nat.le_succ _))

/-! ## Fractions -/

mutual

/-- The fractions of a document. -/
def fractions : Json → List Double
  | .number (.fraction x) => [x]
  | .array items => itemsFractions items
  | .object members => membersFractions members
  | _ => []

/-- The fractions of the items. -/
def itemsFractions : List Json → List Double
  | [] => []
  | item :: rest => item.fractions ++ itemsFractions rest

/-- The fractions of the members. -/
def membersFractions : List (String × Json) → List Double
  | [] => []
  | (_, value) :: rest => value.fractions ++ membersFractions rest

end

/-- A fraction that is read back from its text. -/
def ReadBack (x : Double) : Prop := read? (fractionText x) = some (.number (.fraction x))

mutual

/-- A document is read as itself just if each of its fractions is. -/
theorem reread_iff : (j : Json) → (j.reread = some j ↔ ∀ x ∈ j.fractions, ReadBack x)
  | .null | .bool _ | .string _ | .number (.whole _) => by simp [reread, fractions]
  | .number (.fraction x) => by simp [reread, fractions, ReadBack]
  | .array items => by simp [reread, fractions, ← rereadItems_iff items]
  | .object members => by simp [reread, fractions, ← rereadMembers_iff members]

/-- `reread_iff` item by item. -/
theorem rereadItems_iff : (items : List Json) →
    (rereadItems items = some items ↔ ∀ x ∈ itemsFractions items, ReadBack x)
  | [] => by simp [rereadItems, itemsFractions]
  | item :: rest => by
    rw [itemsFractions, List.forall_mem_append, ← reread_iff item, ← rereadItems_iff rest]
    simp [rereadItems, Option.bind_eq_some_iff]

/-- `reread_iff` member by member. -/
theorem rereadMembers_iff : (members : List (String × Json)) →
    (rereadMembers members = some members ↔ ∀ x ∈ membersFractions members, ReadBack x)
  | [] => by simp [rereadMembers, membersFractions]
  | (name, value) :: rest => by
    rw [membersFractions, List.forall_mem_append, ← reread_iff value, ← rereadMembers_iff rest]
    simp [rereadMembers, Option.bind_eq_some_iff]

end

/-- A document is read back from its text just if each of its fractions is. -/
theorem Tidy.read_text_iff {j : Json} (h : Tidy deepest j) :
    read? j.text = some j ↔ ∀ x ∈ j.fractions, ReadBack x :=
  h.read_text ▸ reread_iff j

end RecordGraph.Json
