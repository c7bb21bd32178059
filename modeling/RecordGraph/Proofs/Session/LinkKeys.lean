/-
  The link keys of a collection that is loaded.

  The children are mapped from the rows of the read, whatever columns these have, and then each
  gets the key that its own row has for the link.

  * `LinkedFrom`: the child is what its row is mapped to, and the key is written to it where the
    link has it.  Nothing else of the child is changed, so that this is one `PathSet`.
  * `loadRelation_linkKeys`: all children of a load that succeeds are linked so, row by row,
    whether the mapper has put something else in the place of the key before or nothing.
-/
import RecordGraph.Proofs.Record.InPlace
import RecordGraph.Proofs.Session.Unchanged

namespace RecordGraph

namespace Session

variable {τ δ : Type} [Model τ] {t : τ} {env : Env δ} {w w' : World τ δ} {m : TableMap τ}
  {rel : Relation τ} {r r' : Record} {master : Value} {config : Config} {property : String}
  {row : Row} {child : Record}

/-- The child is what the row is mapped to, with the key that the row has for the link. -/
def LinkedFrom (config : Config) (rel : Relation τ) (property : String) (row : Row)
    (child : Record) : Prop :=
  ∃ mapped, RowMapper.MapsTo config rel.child row mapped ∧
    match linkKey? rel row with
    | none => child = mapped
    | some key => PathSet rel.child mapped property key child

theorem LoadedFrom.linkedFrom (hτ : Model.Sound τ)
    (hp : (typeAt rel.child (FieldName.segments property)).isSome)
    (h : LoadedFrom config rel property row child) : LinkedFrom config rel property row child := by
  obtain ⟨mapped, hmaps, hkeyed⟩ := h
  obtain ⟨ft, hft⟩ := Option.isSome_iff_exists.1 hp
  refine ⟨mapped, hmaps, ?_⟩
  cases hkey : linkKey? rel row with
  | none =>
    rw [linkKeyed_none mapped hkey] at hkeyed
    exact (Except.ok.inj hkeyed).symm
  | some key => exact pathSet_of_setPath hτ (hmaps.typed hτ) ((linkKeyed_some hkey hft).1 hkeyed)

variable [DecidableEq τ]

/-- A load that succeeds leaves one child for each row of the read, in their order.  A child has
    the key that its row has for the link, as its field stores it, and is what the row is mapped to
    otherwise. -/
theorem loadRelation_linkKeys (hτ : Model.Sound τ) (hc : w.catalog.Sound env.config) (hm : m.Of t)
    (hrel : rel ∈ m.relations) (hk : rel.kind = .manyToMany) (hr : Typed t r)
    (hmaster : masterKey m rel.spec r = some master)
    (h : loadRelation m rel env w r = ⟨.ok (), w', r'⟩) :
    ∃ rows cm children, relationRows m rel env w r = some rows ∧
      w'.catalog.map? rel.child = some cm ∧ r'.many? rel.slot = some children ∧
      List.Forall₂ (CarriesKey rel (linkProperty rel.spec cm)) rows children ∧
      ((typeAt rel.child (FieldName.segments (linkProperty rel.spec cm))).isSome →
        List.Forall₂ (LinkedFrom env.config rel (linkProperty rel.spec cm)) rows children) := by
  obtain ⟨s, rows, cm, children, hs, hquery, -, hcm, hloaded, rfl⟩ :=
    loadRelation_ok hc hk hmaster h
  refine ⟨rows, cm, children, relationRows_eq_some.2 ⟨master, s, hmaster, hs, hquery⟩, hcm,
    Record.many_of_slot (Record.slot_setSlot (hr.lt (hm.shape hτ rel hrel))), ?_, fun hp => ?_⟩
  · exact hloaded.imp fun _ _ hl => hl.carriesKey hτ
  · exact hloaded.imp fun _ _ hl => hl.linkedFrom hτ hp

/-- A tag has the key that its row has for the link, though another key comes after it in the row,
    or a name before it. -/
theorem tags_carry_keys :
    let rows : List Row := [⟨[("TagId", .int 4), ("Id", .int 9)]⟩,
      ⟨[("Name", .text "late"), ("Nickname", .text "l"), ("TagId", .int 5)]⟩]
    let loaded := loadRelation Sample.taggedMap Sample.tagsRelation Sample.scripted
      (Sample.answering [.rows rows]) (Sample.taggedOrder 7 [])
    loaded.result.isOk = true ∧ ∃ children,
      loaded.focus.many? Sample.tagsRelation.slot = some children ∧
      children.map (fun c => fieldValue Sample.tag c "Id") = [some (.int 4), some (.int 5)] := by
  intro rows loaded
  have hok : loaded.result.isOk = true := by decide +kernel
  have hload : loadRelation Sample.taggedMap Sample.tagsRelation Sample.scripted
      (Sample.answering [.rows rows]) (Sample.taggedOrder 7 []) =
        ⟨.ok (), loaded.world, loaded.focus⟩ := run_of_isOk hok
  have hcatalog : (loaded.world.catalog.map? Sample.tag).map
      (linkProperty Sample.tagsRelation.spec) = some "Id" := by decide +kernel
  obtain ⟨rows', cm, children, hrows, hcm, hmany, hkeys, -⟩ := loadRelation_linkKeys Sample.sound
    Catalog.sound_empty Sample.taggedMap_of (List.mem_singleton.2 rfl) rfl
    (Sample.typed_taggedOrder 7) rfl hload
  have hread : relationRows Sample.taggedMap Sample.tagsRelation Sample.scripted
      (Sample.answering [.rows rows]) (Sample.taggedOrder 7 []) = some rows := by decide +kernel
  rw [hread] at hrows
  cases hrows
  have hproperty : linkProperty Sample.tagsRelation.spec cm = "Id" :=
    Option.some.inj ((congrArg (Option.map _) hcm).symm.trans hcatalog)
  rw [hproperty] at hkeys
  have hid {row : Row} {c : Record} (i : Int64)
      (hkey : linkKey? Sample.tagsRelation row = some (.int i))
      (hc : CarriesKey Sample.tagsRelation "Id" row c) :
      fieldValue Sample.tag c "Id" = some (.int i) := by
    obtain ⟨v, hv, hvalue⟩ := hc (.int i) (.plain (.int .i64)) hkey rfl
    cases hv.symm.trans (Sample.normalize_number i)
    exact hvalue
  obtain ⟨c, cs, hc, hcs, rfl⟩ := List.forall₂_cons_left_iff.1 hkeys
  obtain ⟨c', cs', hc', hcs', rfl⟩ := List.forall₂_cons_left_iff.1 hcs
  obtain rfl := List.forall₂_nil_left_iff.1 hcs'
  refine ⟨hok, [c, c'], hmany, ?_⟩
  rw [List.map_cons, List.map_cons, List.map_nil, hid 4 rfl hc, hid 5 rfl hc']

end Session

end RecordGraph
