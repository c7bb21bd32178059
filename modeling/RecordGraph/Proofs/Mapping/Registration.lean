/-
  What the check of a draft makes sure of, and what it does not.

  * `TableMap.Usable`: the keys of a map lead to values, a key that the database makes can be put
    into the record, and no statement that is made of the map fails because of the map.
  * `TableMap.Wired`: every key is a value, or the key of a nested record, and every name that
    the map and its relations use is a name.
  * `MapDraft.finish_usable_iff`: a map that has passed the check is usable exactly if it is
    wired.  The check takes any field for a key, and of the names of a relation it looks at that
    of the table only, so a map may pass that is not wired.
-/
import RecordGraph.Proofs.Mapping.Calls
import RecordGraph.Proofs.Mapping.Columns

namespace RecordGraph

/-! ## Complaints about maps -/

/-- The error is a complaint about the map, not about a record, a condition or the database. -/
def Error.blamesMap : Error → Bool
  | .schema _ => true
  | .validation _ => true
  | .relationIntegrity .. => true
  | _ => false

/-- The result is no complaint about the map. -/
def Blameless {α : Type} (x : Result α) : Prop := ∀ e, x = .error e → e.blamesMap = false

section

variable {α β : Type} {x : Result α}

theorem Blameless.ok (a : α) : Blameless (.ok a) := nofun

theorem Blameless.bind {f : α → Result β} (hx : Blameless x)
    (hf : ∀ a, x = .ok a → Blameless (f a)) : Blameless (x >>= f) := by
  cases x with
  | error e =>
    rintro _ ⟨⟩
    exact hx e rfl
  | ok a => exact hf a rfl

theorem Blameless.left {f : α → Result β} (h : Blameless (x >>= f)) : Blameless x := by
  cases x with
  | error e =>
    rintro _ ⟨⟩
    exact h e rfl
  | ok a => exact .ok a

theorem Blameless.right {f : α → Result β} {a : α} (h : Blameless (x >>= f)) (hx : x = .ok a) :
    Blameless (f a) := by
  rw [hx] at h
  exact h

theorem blameless_map {f : α → β} : Blameless (x.map f) ↔ Blameless x := by
  cases x with
  | error e =>
    constructor
    · rintro h _ ⟨⟩
      exact h e rfl
    · rintro h _ ⟨⟩
      exact h e rfl
  | ok a => exact ⟨fun _ => .ok a, fun _ => .ok (f a)⟩

theorem blameless_of_isOk (h : x.isOk = true) : Blameless x := by
  cases x with
  | error e => cases h
  | ok a => exact .ok a

/-- A name that is none is the fault of the map. -/
theorem blameless_mapError {x : Except Ident.Fault α} :
    Blameless (x.mapError Ident.Fault.toError) ↔ x.isOk = true := by
  cases x with
  | error f =>
    constructor
    · intro h
      cases h f.toError rfl
    · nofun
  | ok a => exact ⟨fun _ => rfl, fun _ => .ok a⟩

theorem isOk_map {ε : Type} {x : Except ε α} {f : α → β} : (x.map f).isOk = x.isOk := by
  cases x <;> rfl

end

variable {τ : Type} [Model τ] {t : τ} {r : Record}

/-! ## Keys -/

/-- Every nested record of the record is set. -/
def NestedSet (t : τ) (r : Record) : Prop :=
  ∀ name slot target, (fieldsOf t).get? name = some (.nested slot target) →
    (r.nested? slot).isSome = true

/-- The path leads to a value of a record or of one of its nested records. -/
def reachesValue (t : τ) : List String → Bool
  | [name] => isScalar t name
  | [name, field] =>
    match (fieldsOf t).get? name with
    | some (.nested _ target) => isScalar target field
    | _ => false
  | _ => false

/-- The key is a value, or the name `XId` of the value `Id` of a nested record `X`. -/
def keyReaches (t : τ) (key : String) : Bool :=
  reachesValue t (FieldName.segments key) ||
    (FieldName.stem? key).any fun x => reachesValue t (FieldName.segments (FieldName.keyPath x))

/-- What a slot holds in a record whose nested records are set and new. -/
def Shape.filled : Shape τ → Slot
  | .nested target => .nested (some (freshRecord target))
  | shape => shape.fresh

/-- A record whose nested records are set and new. -/
def filledRecord (t : τ) : Record := .mk ((Model.type t).members.map fun m => m.shape.filled)

theorem typed_filledRecord (t : τ) : Typed t (filledRecord t) := by
  refine .mk (List.forall₂_map_right_iff.2 (List.forall₂_same.2 fun m _ => ?_))
  cases m.shape with
  | scalar t => exact .scalar t.fresh
  | nested target => exact .nested (typed_freshRecord target)
  | many => exact .absent

theorem nested_filledRecord {slot : Nat} {target : τ}
    (h : shapeAt (Model.type t).members slot = some (.nested target)) :
    (filledRecord t).nested? slot = some (freshRecord target) := by
  obtain ⟨m, hm, hshape⟩ := Option.map_eq_some_iff.1 h
  simp [Record.nested?, filledRecord, Record.slots, hm, hshape, Shape.filled]

theorem nestedSet_filledRecord (hτ : Model.Sound τ) (t : τ) : NestedSet t (filledRecord t) := by
  intro name slot target hg
  rw [nested_filledRecord ((hτ t).fits_get hg)]
  rfl

theorem valueAt_of_reaches {path : List String} (hr : NestedSet t r)
    (h : reachesValue t path = true) : (valueAt t r path).isSome = true := by
  unfold reachesValue at h
  split at h
  · rename_i name
    rw [valueAt, flatValue_isSome, h]
  · rename_i name field
    split at h
    · rename_i slot target hg
      obtain ⟨n, hn⟩ := Option.isSome_iff_exists.1 (hr name slot target hg)
      simp only [valueAt, nestedRecord, hg, hn, Option.map_some]
      rw [flatValue_isSome, h]
    · cases h
  · cases h

/-- In a record whose nested records are new there are no other values. -/
theorem reaches_of_valueAt (hτ : Model.Sound τ) {path : List String}
    (h : (valueAt t (filledRecord t) path).isSome = true) : reachesValue t path = true := by
  have hnested {name : String} {target : τ} {n : Record}
      (hn : nestedRecord t (filledRecord t) name = some (target, n)) :
      (∃ slot, (fieldsOf t).get? name = some (.nested slot target)) ∧ n = freshRecord target := by
    unfold nestedRecord at hn
    split at hn
    · rename_i slot target' hg
      rw [nested_filledRecord ((hτ t).fits_get hg)] at hn
      cases hn
      exact ⟨⟨slot, hg⟩, rfl⟩
    · cases hn
  match path with
  | [] => cases h
  | [name] => rwa [valueAt, flatValue_isSome] at h
  | name :: field :: rest =>
    cases hn : nestedRecord t (filledRecord t) name with
    | none => simp [valueAt, hn] at h
    | some found =>
      obtain ⟨target, n⟩ := found
      obtain ⟨⟨slot, hg⟩, rfl⟩ := hnested hn
      simp only [valueAt, hn] at h
      cases rest with
      | nil =>
        simp only [reachesValue, hg]
        rwa [valueAt, flatValue_isSome] at h
      | cons last rest =>
        have hnone : nestedRecord target (freshRecord target) field = none := by
          unfold nestedRecord
          split
          · rw [nested_freshRecord]
            rfl
          · rfl
        simp [valueAt, hnone] at h

theorem resolveValue_isSome (t : τ) (r : Record) (key : String) :
    (resolveValue t r key).isSome = ((fieldValue t r key).isSome ||
      (FieldName.stem? key).any fun x => (fieldValue t r (FieldName.keyPath x)).isSome) := by
  unfold resolveValue
  cases fieldValue t r key with
  | some v => rfl
  | none => cases FieldName.stem? key <;> rfl

/-- The keys that lead to a value wherever the nested records are set. -/
theorem keyReaches_iff (hτ : Model.Sound τ) {key : String} : keyReaches t key = true ↔
    ∀ r, Typed t r → NestedSet t r → (resolveValue t r key).isSome = true := by
  rw [keyReaches, Bool.or_eq_true]
  constructor
  · intro h r _ hr
    rw [resolveValue_isSome, Bool.or_eq_true]
    rcases h with h | h
    · exact .inl (valueAt_of_reaches hr h)
    · obtain ⟨x, hx, h⟩ := (Option.any_eq_true _ _).1 h
      exact .inr ((Option.any_eq_true _ _).2 ⟨x, hx, valueAt_of_reaches hr h⟩)
  · intro h
    have hfilled := h _ (typed_filledRecord t) (nestedSet_filledRecord hτ t)
    rw [resolveValue_isSome, Bool.or_eq_true] at hfilled
    rcases hfilled with h | h
    · exact .inl (reaches_of_valueAt hτ h)
    · obtain ⟨x, hx, h⟩ := (Option.any_eq_true _ _).1 h
      exact .inr ((Option.any_eq_true _ _).2 ⟨x, hx, reaches_of_valueAt hτ h⟩)

/-! ## Keys that the database makes -/

/-! ## What is checked -/

/-- What the check of a draft makes sure of. -/
structure TableMap.Checked (m : TableMap τ) : Prop where
  keys : m.keys ≠ []
  table : m.tableIdent.isOk = true
  source : ∀ variant, (m.source variant).isOk = true
  writeTable : ∀ rel ∈ m.relations, (m.writeTable rel.spec).isOk = true

theorem isOk_of_eq {ε α : Type} {x : Except ε α} {a : α} (h : x = .ok a) : x.isOk = true := by
  rw [h]
  rfl

theorem eq_of_isOk {ε α : Type} {x : Except ε α} (h : x.isOk = true) : ∃ a, x = .ok a := by
  cases x with
  | error e => cases h
  | ok a => exact ⟨a, rfl⟩

theorem forM_ok {ε α : Type} {f : α → Except ε Unit} {as : List α} (h : as.forM f = .ok ()) :
    ∀ a ∈ as, f a = .ok () := by
  induction as with
  | nil => exact fun a ha => (List.not_mem_nil ha).elim
  | cons b bs ih =>
    obtain ⟨⟨⟩, hb, hbs⟩ := result_bind_ok.1 h
    exact List.forall_mem_cons.2 ⟨hb, ih hbs⟩

namespace MapDraft

theorem check_ok {m : TableMap τ} (h : check m = .ok ()) : m.Checked := by
  unfold check at h
  dsimp only at h
  split at h
  · cases h
  split at h
  · cases h
  rename_i hkeys
  split at h
  · cases h
  obtain ⟨table, htable, h⟩ := result_bind_ok.1 h
  obtain ⟨short, hshort, h⟩ := result_bind_ok.1 h
  obtain ⟨full, hfull, h⟩ := result_bind_ok.1 h
  refine ⟨?_, isOk_of_eq htable, fun variant => ?_, fun rel hr => ?_⟩
  · rintro hnil
    exact hkeys (by rw [hnil]; rfl)
  · cases variant with
    | short => exact isOk_of_eq hshort
    | count => exact isOk_of_eq hshort
    | full => exact isOk_of_eq hfull
  · obtain ⟨ident, hw, -⟩ := result_bind_ok.1 (forM_ok h rel hr)
    exact isOk_of_eq hw

theorem finish_ok {draft : MapDraft τ} {config : Config} {m : TableMap τ}
    (h : draft.finish config = .ok m) : m.Checked := by
  unfold finish at h
  split at h
  · cases h
  · obtain ⟨⟨⟩, hcheck, h⟩ := result_bind_ok.1 h
    cases h
    exact check_ok hcheck

end MapDraft

/-! ## Usable maps -/

/-- What a map is asked for: of the statements on relations those on a relation of its own, and
    no write to one that is read only. -/
def Call.Offered (m : TableMap τ) : Call → Prop
  | relationRead spec _ => ∃ rel ∈ m.relations, rel.spec = spec
  | linkInsert spec childType _ _ | linkDelete spec childType _ _ =>
    spec.readOnly = false ∧ ∃ rel ∈ m.relations, rel.spec = spec ∧ typeName rel.child = childType
  | deleteWhere filter => filter ≠ []
  | _ => True

/-- Nothing that is done with the map fails because of the map. -/
structure TableMap.Usable (m : TableMap τ) : Prop where
  keys : ∀ key ∈ m.keys, ∀ r, Typed m.owner r → NestedSet m.owner r →
    (resolveValue m.owner r key).isSome = true
  generated : m.generatedKey = true → ∀ key ∈ m.keys.head?, ∀ r v segment,
    setPath m.owner r key v ≠ .ok (.missing segment)
  calls : ∀ (d : Dialect) (call : Call), call.Offered m → Blameless (call.statement m d)

/-- What is read from or called. -/
def ReadCommand.target : ReadCommand → String
  | source name | procedure name | function name => name

def ReadCommand.isSource : ReadCommand → Bool
  | source _ => true
  | _ => false

/-- The names in the statements on a relation are names. -/
structure Relation.Named (m : TableMap τ) (rel : Relation τ) : Prop where
  read : (objectIdent m.schema (rel.spec.readCommand (typeName m.owner)).target).isOk = true
  master : rel.spec.readOnly = false ∨ (rel.spec.readCommand (typeName m.owner)).isSource = true →
    (Ident.column (rel.spec.masterColumn (typeName m.owner))).isOk = true
  child : rel.spec.readOnly = false →
    (Ident.column (rel.spec.childColumn (typeName rel.child))).isOk = true

/-- The keys of the map are values, one that the database makes is stored, and every name in a
    statement is a name. -/
structure TableMap.Wired (m : TableMap τ) : Prop where
  keys : ∀ key ∈ m.keys, keyReaches m.owner key = true
  stored : m.generatedKey = true → ∀ key ∈ m.keys.head?,
    (typeAt m.owner (FieldName.segments key)).isSome = true
  returned : m.generatedKey = true → ∀ key ∈ m.keys.head?, (Ident.column key).isOk = true
  relations : ∀ rel ∈ m.relations, rel.Named m

theorem blameless_whereFragment {d : Dialect} (cs : List Condition) :
    Blameless (whereFragment d cs) := by
  unfold whereFragment
  split
  · exact .ok _
  · cases Condition.allFragment d cs with
    | error fault =>
      rintro _ ⟨⟩
      rfl
    | ok f => exact .ok _

namespace TableMap

variable {m : TableMap τ} {d : Dialect}

theorem blameless_keyFragment (keys : List Value) : Blameless (m.keyFragment keys) := by
  unfold keyFragment
  split
  · exact .ok _
  · rintro _ ⟨⟩
    rfl

/-! ## Wired maps are usable -/

theorem blameless_select (hc : m.Checked) (query : QuerySpec) (variant : Variant) :
    Blameless (m.select d query variant) := by
  refine .bind ?_ fun base _ => .bind (blameless_whereFragment query.conditions) fun f _ => ?_
  · unfold selectBase
    split
    · exact .ok _
    · exact .ok _
    · exact .bind (blameless_of_isOk (hc.source variant)) fun _ _ => .ok _
  · split <;> exact .ok _

theorem blameless_keyed {kind : StatementKind} {command : String} {table : Result Ident}
    (htable : table.isOk = true) (keys : List Value) :
    Blameless (m.keyed d kind command table keys) :=
  .bind (blameless_of_isOk htable) fun _ _ => .bind (blameless_keyFragment keys) fun _ _ => .ok _

theorem blameless_describe (hc : m.Checked) : Blameless (m.describe d) :=
  .bind (blameless_of_isOk hc.table) fun _ _ => .ok _

theorem blameless_deleteWhere (hc : m.Checked) {filter : List (String × Value)}
    (hf : filter ≠ []) : Blameless (m.deleteWhere d filter) := by
  unfold deleteWhere
  rw [if_neg (by simpa using hf)]
  exact .bind (blameless_whereFragment _) fun _ _ =>
    .bind (blameless_of_isOk hc.table) fun _ _ => .ok _

theorem blameless_insert (hc : m.Checked) (hw : m.Wired) (r : Record) (columns : List String) :
    Blameless (m.insert d r columns) := by
  refine .bind (blameless_of_isOk hc.table) fun _ _ => .bind ?_ fun _ _ => .ok _
  unfold returningFragment
  split
  · rename_i hg
    split
    · rename_i hkeys
      exact absurd hkeys hc.keys
    · rename_i key keys hkeys
      have hname := hw.returned hg key (by rw [hkeys]; rfl)
      exact .bind (blameless_mapError.2 hname) fun _ _ => .ok _
    · exact .ok _
  · exact .ok _

theorem blameless_update (hc : m.Checked) (r : Record) (columns : List String) :
    Blameless (m.update d r columns) := by
  unfold update
  dsimp only
  split
  · exact .ok _
  · exact .bind (blameless_of_isOk hc.table) fun _ _ =>
      .bind (blameless_keyFragment _) fun _ _ => .ok _

theorem blameless_relationRead {rel : Relation τ} (hn : rel.Named m) (master : Value) :
    Blameless (m.relationRead d rel.spec master) := by
  have hread := hn.read
  have hmaster := hn.master
  have hcalled {name : String} (h : (objectIdent m.schema name).isOk = true) : Blameless
      (((objectIdent m.schema name).map Ident.fragment).mapError Ident.Fault.toError) :=
    blameless_mapError.2 (isOk_map.trans h)
  unfold relationRead
  dsimp only
  split <;> rename_i heq <;> rw [heq] at hread hmaster
  · exact .bind (hcalled hread) fun _ _ =>
      .bind (blameless_mapError.2 (hmaster (.inr rfl))) fun _ _ => .ok _
  · exact .bind (hcalled hread) fun _ _ => .ok _
  · exact .bind (hcalled hread) fun _ _ => .ok _

theorem writeTable_ok (hc : m.Checked) {rel : Relation τ} (hr : rel ∈ m.relations)
    (hro : rel.spec.readOnly = false) : ∃ table, m.writeTable rel.spec = .ok (some table) := by
  have hok := hc.writeTable rel hr
  unfold writeTable RelationSpec.writeTable at hok ⊢
  rw [hro, if_neg (by decide)] at hok ⊢
  cases ho : objectIdent m.schema (rel.spec.table.getD (rel.spec.defaultObject (typeName m.owner)))
  · rw [ho] at hok
    cases hok
  · exact ⟨_, rfl⟩

theorem blameless_linkFragments (hc : m.Checked) {rel : Relation τ} (hr : rel ∈ m.relations)
    (hro : rel.spec.readOnly = false) (hn : rel.Named m) :
    Blameless (m.linkFragments rel.spec (typeName rel.child)) := by
  obtain ⟨table, htable⟩ := writeTable_ok hc hr hro
  refine .bind (blameless_of_isOk (isOk_of_eq htable)) fun found hfound => ?_
  rw [htable] at hfound
  cases hfound
  exact .bind (blameless_mapError.2 (hn.master (.inl hro))) fun _ _ =>
    .bind (blameless_mapError.2 (hn.child hro)) fun _ _ => .ok _

theorem Wired.calls (hw : m.Wired) (hc : m.Checked) {call : Call} (ho : call.Offered m) :
    Blameless (call.statement m d) := by
  cases call with
  | select query variant => exact blameless_map.2 (blameless_select hc query variant)
  | selectByKeys variant keys =>
    rw [Call.statement, selectByKeys_eq, blameless_map]
    exact blameless_keyed (hc.source variant) keys
  | probe keys =>
    rw [Call.statement, probe_eq, blameless_map]
    exact blameless_keyed hc.table keys
  | describe => exact blameless_map.2 (blameless_describe hc)
  | insert r columns => exact blameless_map.2 (blameless_insert hc hw r columns)
  | update r columns => exact blameless_update hc r columns
  | deleteByKeys keys =>
    rw [Call.statement, deleteByKeys_eq, blameless_map]
    exact blameless_keyed hc.table keys
  | deleteWhere filter => exact blameless_map.2 (blameless_deleteWhere hc ho)
  | relationRead spec master =>
    obtain ⟨rel, hr, rfl⟩ := ho
    exact blameless_map.2 (blameless_relationRead (hw.relations rel hr) master)
  | linkInsert spec childType master child =>
    obtain ⟨hro, rel, hr, rfl, rfl⟩ := ho
    exact blameless_map.2
      (.bind (blameless_linkFragments hc hr hro (hw.relations rel hr)) fun _ _ => .ok _)
  | linkDelete spec childType master child =>
    obtain ⟨hro, rel, hr, rfl, rfl⟩ := ho
    exact blameless_map.2
      (.bind (blameless_linkFragments hc hr hro (hw.relations rel hr)) fun _ _ => .ok _)

theorem stored_iff {path : String} : (typeAt t (FieldName.segments path)).isSome = true ↔
    ∀ r v segment, setPath t r path v ≠ .ok (.missing segment) := by
  constructor
  · intro h r v segment hs
    rw [setAt_missing.1 ⟨segment, hs⟩] at h
    cases h
  · intro h
    cases htype : typeAt t (FieldName.segments path) with
    | some ft => rfl
    | none =>
      obtain ⟨segment, hs⟩ := (setAt_missing (r := freshRecord t) (v := .null)).2 htype
      exact absurd hs (h _ _ segment)

/-- A wired map is usable. -/
theorem Wired.usable (hτ : Model.Sound τ) (hc : m.Checked) (hw : m.Wired) : m.Usable where
  keys key hk := (keyReaches_iff hτ).1 (hw.keys key hk)
  generated hg key hk := stored_iff.1 (hw.stored hg key hk)
  calls _ _ ho := hw.calls hc ho

/-! ## Usable maps are wired -/

theorem Usable.returned (hu : m.Usable) (hc : m.Checked) (hg : m.generatedKey = true)
    {key : String} (hk : key ∈ m.keys.head?) : (Ident.column key).isOk = true := by
  have hinsert := blameless_map.1 (hu.calls .postgres (.insert (.mk []) []) trivial)
  obtain ⟨table, htable⟩ := eq_of_isOk hc.table
  obtain ⟨keys, hkeys⟩ := List.head?_eq_some_iff.1 hk
  have hreturning := (hinsert.right htable).left
  unfold returningFragment at hreturning
  rw [if_pos hg, hkeys] at hreturning
  exact blameless_mapError.1 hreturning.left

theorem Usable.named (hu : m.Usable) (hc : m.Checked) {rel : Relation τ}
    (hr : rel ∈ m.relations) : rel.Named m := by
  have hread := blameless_map.1 (hu.calls .postgres (.relationRead rel.spec .null) ⟨rel, hr, rfl⟩)
  have hlinked (hro : rel.spec.readOnly = false) :
      (Ident.column (rel.spec.masterColumn (typeName m.owner))).isOk = true ∧
      (Ident.column (rel.spec.childColumn (typeName rel.child))).isOk = true := by
    obtain ⟨table, htable⟩ := writeTable_ok hc hr hro
    have hlink := (blameless_map.1 (hu.calls .postgres
      (.linkInsert rel.spec (typeName rel.child) .null .null) ⟨hro, rel, hr, rfl, rfl⟩)).left
    have hcolumns := Blameless.right hlink htable
    have hmaster := blameless_mapError.1 hcolumns.left
    obtain ⟨column, hcolumn⟩ := eq_of_isOk hmaster
    have hchild := hcolumns.right (by rw [hcolumn]; rfl)
    exact ⟨hmaster, blameless_mapError.1 hchild.left⟩
  unfold relationRead at hread
  dsimp only at hread
  refine ⟨?_, ?_, fun hro => (hlinked hro).2⟩
  · split at hread <;> rename_i heq <;> rw [heq] <;>
      exact isOk_map.symm.trans (blameless_mapError.1 hread.left)
  · rintro (hro | hsource)
    · exact (hlinked hro).1
    · split at hread <;> rename_i heq <;> rw [heq] at hsource
      · obtain ⟨source, hs⟩ := eq_of_isOk (blameless_mapError.1 hread.left)
        have hcolumn := hread.right (by rw [hs]; rfl)
        exact blameless_mapError.1 hcolumn.left
      · cases hsource
      · cases hsource

/-- A usable map that has passed the check is wired. -/
theorem Usable.wired (hτ : Model.Sound τ) (hc : m.Checked) (hu : m.Usable) : m.Wired where
  keys key hk := (keyReaches_iff hτ).2 (hu.keys key hk)
  stored hg key hk := stored_iff.2 (hu.generated hg key hk)
  returned hg _ hk := hu.returned hc hg hk
  relations _ hr := hu.named hc hr

end TableMap

/-- A map that is registered is usable exactly if it is wired. -/
theorem MapDraft.finish_usable_iff (hτ : Model.Sound τ) {draft : MapDraft τ} {config : Config}
    {m : TableMap τ} (h : draft.finish config = .ok m) : m.Usable ↔ m.Wired :=
  ⟨fun hu => hu.wired hτ (finish_ok h), fun hw => hw.usable hτ (finish_ok h)⟩

namespace MapDraft

/-- The map of orders with their lines passes the check, and nothing fails because of it. -/
theorem finish_usable_orders :
    ((ofType Sample.order).tellAll
      [.relation .oneToMany .orderLine (.ofProperty "Lines")]).finish Sample.config =
        .ok Sample.orderMap ∧
    Sample.orderMap.Usable := by
  have hfinish : ((ofType Sample.order).tellAll
      [.relation .oneToMany .orderLine (.ofProperty "Lines")]).finish Sample.config =
        .ok Sample.orderMap := rfl
  refine ⟨hfinish, (finish_usable_iff Sample.sound hfinish).2 ⟨?_, ?_, ?_, ?_⟩⟩
  · rintro key hkey
    cases List.mem_singleton.1 hkey
    rfl
  · rintro - key ⟨⟩
    rfl
  · rintro - key ⟨⟩
    rfl
  · rintro rel hrel
    cases List.mem_singleton.1 hrel
    exact ⟨rfl, fun _ => rfl, fun _ => rfl⟩

/-- Orders that are told to have the customer for a key, and whose lines are read from a view
    without a name. -/
def brokenOrders : MapDraft Sample :=
  (ofType Sample.order).tellAll [.id "Customer",
    .relation .oneToMany .orderLine { RelationSpec.ofProperty "Lines" with
      table := some "OrderLines", read := some (.source "") }]

/-- A map passes the check although its key leads to no value in any order, the key that the
    database makes cannot be put into an order, and the lines cannot be read. -/
theorem finish_broken : ∃ m rel, brokenOrders.finish Sample.config = .ok m ∧
    m.keys = ["Customer"] ∧ m.generatedKey = true ∧ m.relations = [rel] ∧
    (∀ r, resolveValue Sample.order r "Customer" = none) ∧
    (∀ r v, setPath Sample.order r "Customer" v = .ok (.missing "Customer")) ∧
    m.relationRead .postgres rel.spec (.int 1) = .error (.validation "Empty identifier") :=
  ⟨_, _, rfl, rfl, rfl, rfl, fun _ => rfl, fun _ _ => rfl, rfl⟩

end MapDraft

end RecordGraph
