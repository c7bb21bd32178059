/-
  A catalog that many calls share.

  The maps and the mappers of a catalog are shelves, each behind a lock of its own
  (`SharedCatalog`).  Calls of `register`, of `tableMap` and for a row mapper look, build and
  store in turns, in any order (`SharedCatalog.run`); a map is built outside the locks.

  * `register_alone`, `tableMap_alone`, `mapper_alone`: the turns of a call that nobody disturbs
    are what `Catalog` does at once.
  * `SharedCatalog.writeOnce`: whatever the order, a type has one map and one mapper, which stay;
    everybody gets those; only the first registration of a type succeeds, and none that follows a
    stored map; and a call that fails has changed nothing.
-/
import RecordGraph.Proofs.Catalog
import RecordGraph.Proofs.Catalog.Shelf
import RecordGraph.Proofs.Samples

namespace RecordGraph

variable {τ : Type} [Model τ] [DecidableEq τ] {config : Config} {t : τ}
  {settings : List (Setting τ)} {i : Nat}

/-! ## Calls on a catalog -/

/-- A call on a catalog. -/
inductive CatalogCall (τ : Type) where
  | register (t : τ) (settings : List (Setting τ))
  | tableMap (t : τ)
  | mapper (t : τ)

namespace CatalogCall

/-- A registration builds the map that it is told, and must be the first. -/
def registration (config : Config) (t : τ) (settings : List (Setting τ)) :
    Errand τ (TableMap τ) where
  key := t
  refusal := some (MapFault.alreadyRegistered (typeName t)).toError
  build := ((MapDraft.ofType t).tellAll settings).finish config

/-- The first use of a map builds what the type says itself. -/
def firstUse (config : Config) (t : τ) : Errand τ (TableMap τ) where
  key := t
  refusal := none
  build := Catalog.ownMap config t

/-- The first use of a mapper makes one that knows no columns yet. -/
def firstMapper (config : Config) (t : τ) : Errand τ (RowMapper τ) where
  key := t
  refusal := none
  build := .ok (.ofConfig config t)

/-- What a call wants of the maps. -/
def mapErrand? (config : Config) : CatalogCall τ → Option (Errand τ (TableMap τ))
  | register t settings => some (registration config t settings)
  | tableMap t => some (firstUse config t)
  | mapper _ => none

/-- What a call wants of the mappers. -/
def mapperErrand? (config : Config) : CatalogCall τ → Option (Errand τ (RowMapper τ))
  | mapper t => some (firstMapper config t)
  | _ => none

end CatalogCall

/-- The maps and the mappers, and how far each call has come with them. -/
structure SharedCatalog (τ : Type) where
  maps : Shared τ (TableMap τ)
  mappers : Shared τ (RowMapper τ)

namespace SharedCatalog

/-- An empty catalog, and no call begun. -/
def start : SharedCatalog τ := ⟨.start, .start⟩

/-- What numbered calls want of the maps. -/
def mapErrands (config : Config) (calls : Nat → CatalogCall τ) (i : Nat) :
    Option (Errand τ (TableMap τ)) :=
  (calls i).mapErrand? config

/-- What numbered calls want of the mappers. -/
def mapperErrands (config : Config) (calls : Nat → CatalogCall τ) (i : Nat) :
    Option (Errand τ (RowMapper τ)) :=
  (calls i).mapperErrand? config

/-- One turn of a call. -/
def turn (config : Config) (calls : Nat → CatalogCall τ) (s : SharedCatalog τ) (i : Nat) :
    SharedCatalog τ :=
  ⟨s.maps.turn (mapErrands config calls) i, s.mappers.turn (mapperErrands config calls) i⟩

/-- The turns of a schedule, which says whose turn it is. -/
def run (config : Config) (calls : Nat → CatalogCall τ) (s : SharedCatalog τ)
    (schedule : List Nat) : SharedCatalog τ :=
  schedule.foldl (turn config calls) s

/-- The catalog as it is stored. -/
def catalog (s : SharedCatalog τ) : Catalog τ := ⟨s.maps.shelf.values, s.mappers.shelf.values⟩

variable {calls : Nat → CatalogCall τ} {s : SharedCatalog τ} {schedule : List Nat}

theorem mapErrands_register (hc : calls i = .register t settings) :
    mapErrands config calls i = some (CatalogCall.registration config t settings) := by
  rw [mapErrands, hc]
  rfl

theorem mapErrands_tableMap (hc : calls i = .tableMap t) :
    mapErrands config calls i = some (CatalogCall.firstUse config t) := by
  rw [mapErrands, hc]
  rfl

omit [Model τ] [DecidableEq τ] in
theorem mapperErrands_mapper (hc : calls i = .mapper t) :
    mapperErrands config calls i = some (CatalogCall.firstMapper config t) := by
  rw [mapperErrands, hc]
  rfl

omit [Model τ] [DecidableEq τ] in
/-- Only calls for a mapper touch the mappers. -/
theorem mapperErrands_none (h : ∀ t, calls i ≠ .mapper t) : mapperErrands config calls i = none := by
  unfold mapperErrands
  cases hc : calls i with
  | register t settings => rfl
  | tableMap t => rfl
  | mapper t => exact absurd hc (h t)

theorem maps_run : (s.run config calls schedule).maps =
    s.maps.run (mapErrands config calls) schedule := by
  induction schedule generalizing s with
  | nil => rfl
  | cons i schedule ih => exact ih

theorem mappers_run : (s.run config calls schedule).mappers =
    s.mappers.run (mapperErrands config calls) schedule := by
  induction schedule generalizing s with
  | nil => rfl
  | cons i schedule ih => exact ih

theorem run_append (before after : List Nat) : s.run config calls (before ++ after) =
    (s.run config calls before).run config calls after :=
  List.foldl_append

/-! ## Calls that nobody disturbs -/

omit [Model τ] in
theorem map_catalog (s : SharedCatalog τ) (t : τ) :
    s.catalog.map? t = (s.maps.shelf.find? t).map Built.value :=
  Shelf.lookup_values _ t

omit [Model τ] [DecidableEq τ] in
theorem values_append (s : Shelf τ (TableMap τ)) (b : Built (TableMap τ)) :
    Shelf.values (s ++ [(t, b)]) = s.values ++ [(t, b.value)] :=
  List.map_append

theorem mappers_turn (h : ∀ t, calls i ≠ .mapper t) (s : SharedCatalog τ) :
    (s.turn config calls i).mappers = s.mappers :=
  Shared.turn_idle (mapperErrands_none h)

/-- A registration without others in between is that of the catalog. -/
theorem register_alone (hc : calls i = .register t settings) (hs : s.maps.stage i = .waiting) :
    ∃ result, (s.run config calls [i, i]).maps.stage i = .ended result ∧
      s.catalog.register config t settings =
        result.map fun _ => (s.run config calls [i, i]).catalog := by
  have hidle : ∀ u, calls i ≠ .mapper u := fun u => by rw [hc]; nofun
  have hmappers : (s.run config calls [i, i]).mappers = s.mappers := by
    change (turn config calls (turn config calls s i) i).mappers = s.mappers
    rw [mappers_turn hidle, mappers_turn hidle]
  obtain ⟨result, hstage, hresult⟩ := Shared.enter_alone (mapErrands_register hc) rfl hs
  rw [← maps_run] at hstage hresult
  refine ⟨result, hstage, ?_⟩
  have hmap := s.map_catalog t
  unfold Catalog.register
  dsimp only [CatalogCall.registration] at hresult
  cases hb : ((MapDraft.ofType t).tellAll settings).finish config with
  | error err =>
    rw [hb] at hresult
    rw [hresult.1]
    rfl
  | ok m =>
    rw [hb] at hresult
    change s.catalog.enter t m = _
    unfold Catalog.enter
    cases hf : s.maps.shelf.find? t with
    | some b =>
      simp only [hf] at hresult
      rw [hmap, hf, hresult.1]
      rfl
    | none =>
      simp only [hf] at hresult
      rw [hmap, hf, hresult.1]
      simp only [Option.map_none, Except.map, catalog, hmappers, hresult.2, values_append]

/-- A call for a map without others in between is that of the catalog. -/
theorem tableMap_alone (hc : calls i = .tableMap t) (hs : s.maps.stage i = .waiting) :
    ∃ result, (s.run config calls [i, i, i]).maps.stage i = .ended result ∧
      s.catalog.tableMap config t =
        result.map fun b => (b.value, (s.run config calls [i, i, i]).catalog) := by
  have hidle : ∀ u, calls i ≠ .mapper u := fun u => by rw [hc]; nofun
  have hmappers : (s.run config calls [i, i, i]).mappers = s.mappers := by
    change (turn config calls (turn config calls (turn config calls s i) i) i).mappers = s.mappers
    rw [mappers_turn hidle, mappers_turn hidle, mappers_turn hidle]
  obtain ⟨result, hstage, hresult⟩ := Shared.take_alone (mapErrands_tableMap hc) rfl hs
  rw [← maps_run] at hstage hresult
  refine ⟨result, hstage, ?_⟩
  have hmap := s.map_catalog t
  unfold Catalog.tableMap
  dsimp only [CatalogCall.firstUse] at hresult
  cases hf : s.maps.shelf.find? t with
  | some b =>
    simp only [hf] at hresult
    rw [hmap, hf, hresult.1]
    simp only [Option.map_some, Except.map, catalog, hmappers, hresult.2]
  | none =>
    simp only [hf] at hresult
    rw [hf] at hmap
    rw [hmap, hresult.1]
    cases hb : Catalog.ownMap config t with
    | error err => rfl
    | ok m =>
      rw [hb] at hresult
      change Except.ok (s.catalog.offer t m) = _
      rw [Catalog.offer_of_none hmap]
      simp only [Except.map, catalog, hmappers, hresult.2, values_append]

/-- A call for a mapper without others in between is that of the catalog, and keeps the mapper. -/
theorem mapper_alone (hc : calls i = .mapper t) (hs : s.mappers.stage i = .waiting) :
    ∃ b, (s.run config calls [i, i, i]).mappers.stage i = .ended (.ok b) ∧
      s.catalog.mapper config t = b.value ∧
      (s.run config calls [i, i, i]).catalog.mappers.lookup t = some b.value := by
  obtain ⟨result, hstage, hresult⟩ := Shared.take_alone (mapperErrands_mapper hc) rfl hs
  rw [← mappers_run] at hstage hresult
  have hlookup (s : SharedCatalog τ) : s.catalog.mappers.lookup t =
      (s.mappers.shelf.find? t).map Built.value := Shelf.lookup_values _ t
  unfold Catalog.mapper
  dsimp only [CatalogCall.firstMapper] at hresult
  cases hf : s.mappers.shelf.find? t with
  | some b =>
    simp only [hf] at hresult
    obtain ⟨rfl, hshelf⟩ := hresult
    refine ⟨b, hstage, ?_, ?_⟩
    · rw [hlookup, hf]
      rfl
    · rw [hlookup, hshelf, hf]
      rfl
  | none =>
    simp only [hf] at hresult
    obtain ⟨rfl, hshelf⟩ := hresult
    refine ⟨_, hstage, ?_, ?_⟩
    · rw [hlookup, hf]
      rfl
    · rw [hlookup, hshelf, Shelf.find_append_self hf]
      rfl

/-! ## Any order -/

/-- The catalog after a schedule, empty at first. -/
def reached (config : Config) (calls : Nat → CatalogCall τ) (schedule : List Nat) :
    SharedCatalog τ :=
  start.run config calls schedule

/-- What holds of a catalog that has been reached, and after more turns. -/
structure WriteOnce (config : Config) (calls : Nat → CatalogCall τ) (s : SharedCatalog τ)
    (after : List Nat) : Prop where
  /-- A type has one map. -/
  one_map : (s.maps.shelf.map Prod.fst).Nodup
  /-- A type has one mapper. -/
  one_mapper : (s.mappers.shelf.map Prod.fst).Nodup
  /-- A stored map is never replaced. -/
  map_stays : ∀ t b, s.maps.shelf.find? t = some b →
    (s.run config calls after).maps.shelf.find? t = some b
  /-- A stored mapper is never replaced. -/
  mapper_stays : ∀ t b, s.mappers.shelf.find? t = some b →
    (s.run config calls after).mappers.shelf.find? t = some b
  /-- Every successful call for a map is given the stored one. -/
  map_given : ∀ i t b, calls i = .tableMap t → s.maps.stage i = .ended (.ok b) →
    s.maps.shelf.find? t = some b
  /-- Every call for a mapper is given the stored one. -/
  mapper_given : ∀ i t result, calls i = .mapper t → s.mappers.stage i = .ended result →
    ∃ b, result = .ok b ∧ s.mappers.shelf.find? t = some b
  /-- A registration that succeeds has stored the map that it built itself. -/
  registered : ∀ i t settings b, calls i = .register t settings →
    s.maps.stage i = .ended (.ok b) → s.maps.shelf.find? t = some b ∧ b.call = i ∧
      ((MapDraft.ofType t).tellAll settings).finish config = .ok b.value
  /-- One registration of a type succeeds at most. -/
  registered_once : ∀ i j t settings settings' b b', calls i = .register t settings →
    calls j = .register t settings' → s.maps.stage i = .ended (.ok b) →
    s.maps.stage j = .ended (.ok b') → i = j
  /-- A registration that has not succeeded when a map is stored never does, and fails with its
      third turn. -/
  late : ∀ i t settings b, calls i = .register t settings → s.maps.shelf.find? t = some b →
    (∀ b', s.maps.stage i ≠ .ended (.ok b')) →
    (∀ b', (s.run config calls after).maps.stage i ≠ .ended (.ok b')) ∧
    (3 ≤ after.count i → ∃ err, (s.run config calls after).maps.stage i = .ended (.error err))
  /-- No turn of a call that fails in the end changes anything that is stored; a call for a
      mapper never fails. -/
  failed : ∀ i err, (∀ t, calls i ≠ .mapper t) →
    (s.run config calls (i :: after)).maps.stage i = .ended (.error err) →
    (s.turn config calls i).maps.shelf = s.maps.shelf ∧
    (s.turn config calls i).mappers.shelf = s.mappers.shelf

/-- A registration that comes after a stored map never succeeds, and ends. -/
theorem late_registration {b : Built (TableMap τ)} (hc : calls i = .register t settings)
    (hb : s.maps.shelf.find? t = some b) (hopen : ∀ b', s.maps.stage i ≠ .ended (.ok b'))
    (after : List Nat) :
    (∀ b', (s.run config calls after).maps.stage i ≠ .ended (.ok b')) ∧
      (3 ≤ after.count i →
        ∃ err, (s.run config calls after).maps.stage i = .ended (.error err)) := by
  have he : mapErrands config calls i = some (CatalogCall.registration config t settings) :=
    mapErrands_register hc
  have hbarred : Shared.Barred (CatalogCall.registration config t settings) i
      (s.run config calls after).maps := by
    rw [maps_run]
    exact Shared.barred_run he rfl ⟨⟨b, hb⟩, hopen⟩ after
  refine ⟨hbarred.unserved, fun hcount => ?_⟩
  obtain ⟨result, hresult⟩ := Shared.ended_run he s.maps hcount
  rw [← maps_run] at hresult
  cases result with
  | error err => exact ⟨err, hresult⟩
  | ok b' => exact absurd hresult (hbarred.unserved b')

/-- The catalog is written once for each type, whatever the order of the turns of any calls. -/
theorem writeOnce (config : Config) (calls : Nat → CatalogCall τ) (before after : List Nat) :
    WriteOnce config calls (reached config calls before) after := by
  have hmaps : (reached config calls before).maps.Sound (mapErrands config calls) := by
    rw [reached, maps_run]
    exact Shared.sound_start.run before
  have hmappers : (reached config calls before).mappers.Sound (mapperErrands config calls) := by
    rw [reached, mappers_run]
    exact Shared.sound_start.run before
  generalize reached config calls before = s at hmaps hmappers
  have hregistered : ∀ i t settings b, calls i = .register t settings →
      s.maps.stage i = .ended (.ok b) → s.maps.shelf.find? t = some b ∧ b.call = i ∧
        ((MapDraft.ofType t).tellAll settings).finish config = .ok b.value := by
    intro i t settings b hc hstage
    obtain ⟨hfind, hown⟩ := hmaps.given i _ b (mapErrands_register hc) hstage
    exact ⟨hfind, hown rfl⟩
  exact
    { one_map := hmaps.keys
      one_mapper := hmappers.keys
      map_stays := fun t b hb => by
        rw [maps_run]
        exact Shared.find_run hb after
      mapper_stays := fun t b hb => by
        rw [mappers_run]
        exact Shared.find_run hb after
      map_given := fun i t b hc hstage =>
        (hmaps.given i _ b (mapErrands_tableMap hc) hstage).1
      mapper_given := fun i t result hc hstage => by
        have he : mapperErrands config calls i = some (CatalogCall.firstMapper config t) :=
          mapperErrands_mapper hc
        cases result with
        | ok b => exact ⟨b, rfl, (hmappers.given i _ b he hstage).1⟩
        | error err =>
          rcases hmappers.failed i _ err he hstage with hb | hr
          · cases hb
          · cases hr
      registered := hregistered
      registered_once := fun i j t settings settings' b b' hi hj hbi hbj => by
        obtain ⟨hfind, hcall, -⟩ := hregistered i t settings b hi hbi
        obtain ⟨hfind', hcall', -⟩ := hregistered j t settings' b' hj hbj
        rw [hfind, Option.some.injEq] at hfind'
        rw [← hcall, hfind', hcall']
      late := fun i t settings b hc hb hopen => late_registration hc hb hopen after
      failed := fun i err hc hstage => by
        rw [maps_run] at hstage
        exact ⟨Shared.shelf_of_failed after hstage, congrArg Shared.shelf (mappers_turn hc s)⟩ }

/-- The map of order lines is asked for, is registered meanwhile, and is registered again. -/
def lineCalls : Nat → CatalogCall Sample
  | 0 => .tableMap .orderLine
  | 1 => .register .orderLine [.named "Lines"]
  | _ => .register .orderLine []

/-- Call 0 finds no map and builds one, but call 1 is the first to store its own: both have that
    map then, and call 2, which comes too late, fails. -/
theorem registered_meanwhile :
    let m := { Sample.lineMap with table := "Lines" }
    let s := reached Sample.config lineCalls [0, 0, 1, 1, 0]
    s.maps.stage 0 = .ended (.ok ⟨1, m⟩) ∧ s.maps.stage 1 = .ended (.ok ⟨1, m⟩) ∧
      s.maps.shelf.find? .orderLine = some ⟨1, m⟩ ∧
      ∃ err, (s.run Sample.config lineCalls [2, 2, 2]).maps.stage 2 = .ended (.error err) := by
  intro m s
  have h := writeOnce Sample.config lineCalls [0, 0, 1, 1, 0] [2, 2, 2]
  have hgiven : s.maps.stage 0 = .ended (.ok ⟨1, m⟩) := rfl
  have hstored := h.map_given 0 .orderLine _ rfl hgiven
  have hlate := h.late 2 .orderLine [] _ rfl hstored nofun
  exact ⟨hgiven, rfl, hstored, hlate.2 (by decide)⟩

end SharedCatalog

end RecordGraph
