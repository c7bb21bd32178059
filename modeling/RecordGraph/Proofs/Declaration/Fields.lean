/-
  The fields of declared record types by their names.

  * `Declaration.Keeps`: no later field takes the column of a field.  A field is reached by its
    column exactly if it keeps it (`Declaration.get_column`), since a later registration of a name
    stands in place of an earlier one.
  * `Reached`: the content of a slot is read and written by a name.
  * `Declaration.fields_kept`: the fields that keep their columns are read and written by name,
    and if the key is among them, the default map of the type finds it.
-/
import RecordGraph.Catalog
import RecordGraph.Proofs.Declaration.Acceptance
import RecordGraph.Proofs.Record.Key
import RecordGraph.Proofs.Text.CamelCase
import RecordGraph.Proofs.Samples

namespace RecordGraph

/-! ## Columns -/

namespace Declaration

variable {d : Declaration} {o : Outline} {f : FieldDeclaration} {i : Nat}

/-- The field in that place is not left out, and no later one has its column. -/
def Keeps (d : Declaration) (i : Nat) (f : FieldDeclaration) : Prop :=
  d.mapped[i]? = some f ∧
    ∀ j g, i < j → d.mapped[j]? = some g → g.described.column ≠ f.described.column

/-- Columns that are not given have no points. -/
theorem column_plain (h : ∀ s, .column s ∉ f.said) :
    FieldName.isDotted f.described.column = false := by
  have hnone : f.said.filterMap FieldMark.column? = [] := by
    refine List.filterMap_eq_nil_iff.2 fun n hn => ?_
    cases n <;> first | rfl | exact (h _ hn).elim
  have hcolumn : f.described.column = f.defaultColumn := by
    simp [FieldDeclaration.described, hnone]
  rw [hcolumn, FieldName.isDotted, FieldDeclaration.defaultColumn]
  simpa using camelCase_plain _

/-- Columns are different exactly if every field keeps its own. -/
theorem nodup_columns : (d.mapped.map (·.described.column)).Nodup ↔
    ∀ i f, d.mapped[i]? = some f → d.Keeps i f := by
  rw [List.Nodup, List.pairwise_iff_getElem]
  constructor
  · intro h i f hi
    refine ⟨hi, fun j g hij hj heq => ?_⟩
    obtain ⟨hilt, rfl⟩ := List.getElem?_eq_some_iff.1 hi
    obtain ⟨hjlt, rfl⟩ := List.getElem?_eq_some_iff.1 hj
    exact h i j (by simpa) (by simpa) hij (by simpa using heq.symm)
  · intro h i j hi hj hij heq
    simp only [List.length_map] at hi hj
    simp only [List.getElem_map] at heq
    exact (h i _ (List.getElem?_eq_getElem hi)).2 j _ hij (List.getElem?_eq_getElem hj) heq.symm

variable {τ : Type} {content : FieldOutline → Shape τ}

theorem access_inj {s s' : Shape τ} {i j : Nat} (h : s.access i = s'.access j) : i = j := by
  cases s <;> cases s' <;> cases h <;> rfl

/-- A field is reached by its column exactly if it keeps it. -/
theorem get_column (ho : d.outline = .ok o) (hi : d.mapped[i]? = some f) :
    (o.recordType content).fields.get? f.described.column =
      some ((content f.described).access i) ↔ d.Keeps i f := by
  rw [(becomes ho).registered, FieldTable.get_ofList]
  simp only [List.getElem?_mapIdx, Option.map_eq_some_iff, Prod.mk.injEq]
  constructor
  · rintro ⟨j, ⟨g, hg, hcolumn, haccess⟩, hlast⟩
    cases access_inj haccess
    refine ⟨hi, fun k g' hk hg' heq => hlast k hk ((content g'.described).access k) ?_⟩
    exact Option.map_eq_some_iff.2 ⟨g', hg', by rw [heq]⟩
  · rintro ⟨-, hlast⟩
    refine ⟨i, ⟨f, hi, rfl, rfl⟩, fun k hk b hb => ?_⟩
    obtain ⟨g, hg, heq⟩ := Option.map_eq_some_iff.1 hb
    exact hlast k g hk hg (Prod.mk.inj heq).1

end Declaration

/-- The fields of a declared type fit its members, each one of its own. -/
theorem Outline.sound {τ : Type} (o : Outline) (content : FieldOutline → Shape τ) :
    (o.recordType content).Sound := by
  have hslot (s : Shape τ) (n : Nat) : (s.access n).slot? = some n := by cases s <;> rfl
  refine RecordType.sound_of_registrations rfl (fun e he => ?_) ?_
  · obtain ⟨i, hi, rfl⟩ := List.mem_mapIdx.1 he
    have hshape : shapeAt (o.recordType content).members i = some (content o.fields[i]) := by
      simp [shapeAt, recordType, List.getElem?_eq_getElem hi]
    cases hc : content o.fields[i] <;> simp only [Shape.access, Access.Fits, hshape, hc]
  · refine List.pairwise_iff_getElem.2 fun i j hi hj hij k hk hk' => ?_
    simp only [columns, List.getElem_mapIdx, hslot, Option.some.injEq] at hk hk'
    omega

/-! ## Reading and writing -/

section

variable {τ : Type} [Model τ] [DecidableEq τ] {t : τ} {name : String} {slot : Nat}

/-- What is in a slot is read and written by a name: a value, the values below a nested record,
    a collection. -/
def Reached (t : τ) (name : String) (slot : Nat) : Shape τ → Prop
  | .scalar s => (∀ r, fieldValue t r name = some (r.scalar slot)) ∧
    ∀ r v, setPath t r name v = match s.normalize v with
      | .ok w => .ok (.set (r.setSlot slot (.scalar w)))
      | .error e => .error (.decode name e.message)
  | .nested target => (∀ r, nestedRecord t r name = (r.nested? slot).map fun n => (target, n)) ∧
    (∀ r path, fieldValue t r (name ++ "." ++ path) =
      (r.nested? slot).bind fun n => fieldValue target n path) ∧
    ∀ r path v, setPath t r (name ++ "." ++ path) v =
      (setPath target ((r.nested? slot).getD (freshRecord target)) path v).map fun
        | .set n => .set (r.setSlot slot (.nested (some n)))
        | .missing segment => .missing segment
  | .many child => collectionSlot t name child = .ok slot

theorem reached_of_get {shape : Shape τ} (h : FieldName.isDotted name = false)
    (hget : (fieldsOf t).get? name = some (shape.access slot)) : Reached t name slot shape := by
  cases shape with
  | scalar s =>
    have hget : (fieldsOf t).get? name = some (.stored slot s) := hget
    refine ⟨fun r => ?_, fun r v => ?_⟩
    · simp only [fieldValue, FieldName.segments_plain h, valueAt, flatValue, hget]
    · simp only [setPath, FieldName.segments_plain h, setAt, setField, hget]
      cases s.normalize v <;> rfl
  | nested target =>
    have hget : (fieldsOf t).get? name = some (.nested slot target) := hget
    refine ⟨fun r => ?_, fun r path => ?_, fun r path v => ?_⟩
    · simp only [nestedRecord, hget]
    · obtain ⟨p, ps, hpath⟩ := List.exists_cons_of_ne_nil (FieldName.segments_ne_nil path)
      simp only [fieldValue, FieldName.segments_below h, hpath, valueAt, nestedRecord, hget]
      cases r.nested? slot <;> rfl
    · obtain ⟨p, ps, hpath⟩ := List.exists_cons_of_ne_nil (FieldName.segments_ne_nil path)
      simp only [setPath, FieldName.segments_below h, hpath, setAt, nestedOrFresh, hget]
      rcases setAt target ((r.nested? slot).getD (freshRecord target)) v (p :: ps) with e | w
      · rfl
      · cases w <;> rfl
  | many child =>
    have hget : (fieldsOf t).get? name = some (.many slot child) := hget
    simp only [Reached, collectionSlot, hget, if_true]

/-! ## The default map -/

variable {d : Declaration} {o : Outline} {content : FieldOutline → Shape τ} {config : Config}

/-- The map of a declared type that is told nothing else. -/
def Outline.ownMap (o : Outline) (config : Config) (t : τ) : TableMap τ where
  owner := t
  schema := o.marks.schema.getD config.schema
  table := o.marks.table.getD (config.naming.tableName o.typeName)
  keys := [o.key.column]
  readOnly := [o.key.column]
  generatedKey := true
  shortView := none
  fullView := none
  order := .none
  references := []
  relations := []

/-- What a declared type says of its own map. -/
theorem ofType_declared (ht : Model.type t = o.recordType content) :
    MapDraft.ofType t = { MapDraft.blank t with
      schema := o.marks.schema
      table := o.marks.table
      keys := if o.key.column = generatedKeyColumn then none else some [o.key.column]
      readOnly := if o.key.column = generatedKeyColumn then [] else [o.key.column] } := by
  have hsettings : (Model.type t).settings = o.tableSettings ++ o.keySettings := by
    rw [ht]
    rfl
  have htable : o.tableSettings.foldl MapDraft.tell (MapDraft.blank t) =
      { MapDraft.blank t with schema := o.marks.schema, table := o.marks.table } := by
    unfold Outline.tableSettings
    generalize o.marks.schema = schema
    generalize o.marks.table = table
    cases schema <;> cases table <;> rfl
  rw [MapDraft.ofType, MapDraft.tellAll, hsettings, List.foldl_append, htable, Outline.keySettings]
  by_cases h : o.key.column = generatedKeyColumn
  · simp only [if_pos h]
    rfl
  · simp only [if_neg h]
    rfl

theorem settled_declared (ht : Model.type t = o.recordType content) (config : Config) :
    (MapDraft.ofType t).settled config = o.ownMap config t := by
  have hname : typeName t = o.typeName := congrArg RecordType.name ht
  rw [ofType_declared ht, Outline.ownMap, ← hname]
  by_cases h : o.key.column = generatedKeyColumn
  · simp only [h]
    rfl
  · simp only [if_neg h]
    rfl

/-- The default map of a declared type with a field for its key is there if its table has a
    name. -/
theorem ownMap_declared (ht : Model.type t = o.recordType content)
    (hkey : hasField t o.key.column = true) (config : Config) : Catalog.ownMap config t =
      (o.ownMap config t).tableIdent.map fun _ => o.ownMap config t := by
  have hfail : (MapDraft.ofType t).failure = none := by
    rw [ofType_declared ht]
    rfl
  have hfield : ((o.ownMap config t).keys.find? fun k =>
      !MapDraft.keyIsField (o.ownMap config t).owner k) = none := by
    simp [Outline.ownMap, MapDraft.keyIsField, hkey]
  have hcheck : MapDraft.check (o.ownMap config t) =
      (o.ownMap config t).tableIdent.map fun _ => () := by
    unfold MapDraft.check
    simp only [hfield]
    change ((o.ownMap config t).tableIdent >>= fun _ => (o.ownMap config t).tableIdent >>= fun _ =>
      (o.ownMap config t).tableIdent >>= fun _ => .ok ()) = _
    cases (o.ownMap config t).tableIdent <;> rfl
  rw [Catalog.ownMap, MapDraft.finish, hfail]
  dsimp only
  rw [settled_declared ht, hcheck]
  cases (o.ownMap config t).tableIdent <;> rfl

/-- If the key is read by name, it is the one key that the default map finds. -/
theorem keyValues_declared {s : FieldType} {i : Nat} {r : Record}
    (h : Reached t o.key.column i (.scalar s)) (hkey : keyOf t r = r.scalar i) :
    (o.ownMap config t).keyValues r = [keyOf t r] := by
  have hresolve : resolveValue t r o.key.column = some (r.scalar i) := by
    rw [resolveValue, h.1 r]
  change [(resolveValue t r o.key.column).getD .null] = _
  rw [hresolve, hkey, Option.getD_some]

/-- Every field that keeps its column is read and written by name, and if the key does, the default
    map of the type finds it in every record.  Columns that are not given have no points. -/
theorem Declaration.fields_kept (ho : d.outline = .ok o) (hnames : (d.fields.map (·.name)).Nodup)
    (ht : Model.type t = o.recordType content) :
    (∀ f : FieldDeclaration, (∀ s, .column s ∉ f.said) →
      FieldName.isDotted f.described.column = false) ∧
    ((d.mapped.map (·.described.column)).Nodup ↔ ∀ i f, d.mapped[i]? = some f → d.Keeps i f) ∧
    (∀ i f, d.mapped[i]? = some f →
      ((fieldsOf t).get? f.described.column = some ((content f.described).access i) ↔
        d.Keeps i f)) ∧
    (∀ i f, d.Keeps i f → FieldName.isDotted f.described.column = false →
      Reached t f.described.column i (content f.described)) ∧
    ∀ i f s, d.IsKey f → d.Keeps i f → FieldName.isDotted f.described.column = false →
      content f.described = .scalar s → ∀ config,
        ((∃ m, Catalog.ownMap config t = .ok m) ↔ (o.ownMap config t).tableIdent.isOk = true) ∧
        ∀ m, Catalog.ownMap config t = .ok m → ∀ r, m.keyValues r = [keyOf t r] := by
  have hfields : fieldsOf t = (o.recordType content).fields := congrArg RecordType.fields ht
  have hget {i : Nat} {f : FieldDeclaration} (hi : d.mapped[i]? = some f) :
      (fieldsOf t).get? f.described.column = some ((content f.described).access i) ↔
        d.Keeps i f := by
    rw [hfields]
    exact get_column ho hi
  refine ⟨fun f => column_plain, nodup_columns, fun i f => hget,
    fun i f hkeeps hplain => reached_of_get hplain ((hget hkeeps.1).2 hkeeps), ?_⟩
  intro i f s hf hkeeps hplain hscalar config
  have hkey := hf.outline_key ho hnames
  have hslot : (fieldsOf t).get? o.key.column = some ((Shape.scalar s).access i) := by
    rw [hkey, (hget hkeeps.1).2 hkeeps, hscalar]
  have hhas : hasField t o.key.column = true := by
    have hconsistent : (fieldsOf t).Consistent := by
      rw [hfields, (becomes ho).registered]
      exact (FieldTable.ofList_spec _).1
    rw [hasField, FieldTable.contains_eq hconsistent, hslot]
    rfl
  have hkeyOf (r : Record) : keyOf t r = r.scalar i := by
    rw [keyOf, ht]
    exact (becomes ho).keyRead content hnames hkeeps.1 hf r
  rw [ownMap_declared ht hhas config]
  cases (o.ownMap config t).tableIdent with
  | error e => exact ⟨⟨nofun, nofun⟩, nofun⟩
  | ok ident =>
    refine ⟨⟨fun _ => rfl, fun _ => ⟨_, rfl⟩⟩, fun m hm r => ?_⟩
    cases hm
    exact keyValues_declared (reached_of_get (hkey ▸ hplain) hslot) (hkeyOf r)

end

/-! ## Texts -/

/-- A declared type of records that hold nothing but texts. -/
structure TextRecord where
  outline : Outline
  deriving DecidableEq

instance : Model TextRecord := ⟨fun t => t.outline.recordType fun _ => .scalar (.plain .text)⟩

theorem TextRecord.sound : Model.Sound TextRecord := fun t => t.outline.sound _

namespace Declaration

/-- Lines with two fields of one default column. -/
def lines : Declaration :=
  ⟨"Line", .namedFields, [], [⟨"id", .named "String" [], []⟩, ⟨"line1", .named "String" [], []⟩,
    ⟨"line_1", .named "String" [], []⟩]⟩

/-- The key of lines and the later one of two fields of one column are found. -/
theorem fields_kept_lines : ∃ o m, lines.outline = .ok o ∧
    Reached (⟨o⟩ : TextRecord) "Line1" 2 (.scalar (.plain .text)) ∧
    Catalog.ownMap Sample.config (⟨o⟩ : TextRecord) = .ok m ∧
    ∀ r, m.keyValues r = [keyOf (⟨o⟩ : TextRecord) r] := by
  obtain ⟨o, ho, hident⟩ : ∃ o, lines.outline = .ok o ∧
      (o.ownMap Sample.config (⟨o⟩ : TextRecord)).tableIdent.isOk = true := ⟨_, rfl, rfl⟩
  obtain ⟨-, -, -, hreached, hkey⟩ := fields_kept ho (by decide)
    (rfl : Model.type (⟨o⟩ : TextRecord) = o.recordType fun _ => .scalar (.plain .text))
  have hlast : lines.Keeps 2 ⟨"line_1", .named "String" [], []⟩ := by
    refine ⟨rfl, fun j g hj hg => ?_⟩
    have hlt : j < 3 := (List.getElem?_eq_some_iff.1 hg).1
    omega
  have hid : lines.Keeps 0 ⟨"id", .named "String" [], []⟩ := by
    refine ⟨rfl, fun j g hj hg => ?_⟩
    match j with
    | 1 => cases hg; decide
    | 2 => cases hg; decide
    | _ + 3 => cases hg
  obtain ⟨hmap, hvalues⟩ :=
    hkey 0 _ _ ⟨List.mem_of_getElem? hid.1, .inr ⟨by decide, rfl⟩⟩ hid rfl rfl Sample.config
  obtain ⟨m, hm⟩ := hmap.2 hident
  exact ⟨o, m, ho, hreached 2 _ hlast rfl, hm, hvalues m hm⟩

/-- A line under a column with a point. -/
def numbered : Declaration :=
  ⟨"Line", .namedFields, [], [⟨"id", .named "String" [], [.word "column" (.text "No.")]⟩]⟩

/-- The first of two fields of one column is lost, and a column with a point is no name by which
    a map finds the key. -/
theorem lines_lost :
    (∃ o, lines.outline = .ok o ∧ (lines.fields.map (·.name)).Nodup ∧
      lines.mapped.map (·.described.column) = ["Id", "Line1", "Line1"] ∧
      ∀ r, fieldValue (⟨o⟩ : TextRecord) r "Line1" = some (r.scalar 2)) ∧
    ∃ o m, numbered.outline = .ok o ∧ Catalog.ownMap Sample.config (⟨o⟩ : TextRecord) = .ok m ∧
      ∀ r, m.keyValues r = [.null] ∧ keyOf (⟨o⟩ : TextRecord) r = r.scalar 0 :=
  ⟨⟨_, rfl, by decide, rfl, fun _ => rfl⟩, _, _, rfl, rfl, fun _ => ⟨rfl, rfl⟩⟩

end Declaration

end RecordGraph
