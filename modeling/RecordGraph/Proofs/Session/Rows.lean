/-
  The steps of a save on the row of its record, when they succeed.

  Every step but the last two leaves the record alone; `acceptKey` and `reloadOf` write
  values to it.
-/
import RecordGraph.Proofs.Session.Progress

namespace RecordGraph

namespace Session

variable {τ δ σ : Type} [Model τ] {env : Env δ} {w w' : World τ δ} {x x' : σ}
  {r r' : Record} {m : TableMap τ} {row : Row}

/-! ## Before the record is written -/

theorem storedRow_ok {stored : Option Row} :
    storedRow m env w r = ⟨.ok stored, w', r'⟩ ↔ r = r' ∧
      ((isNew m.owner r ∧ stored = none ∧ w = w') ∨
        (isNew m.owner r = false ∧ ∃ s rows, m.probe env.config.dialect (m.keyValues r) = .ok s ∧
          (env.executor.query s w.database).1 = .ok rows ∧ stored = rows.head? ∧
          w.queried env s = w')) := by
  unfold storedRow
  rw [focus_bind]
  cases hn : isNew m.owner r with
  | true =>
    simp only [if_true, pure_ok]
    tauto
  | false =>
    simp only [Bool.false_eq_true, if_false, config_bind, bind_ok, lift_ok, query_ok, pure_ok,
      false_and, false_or, true_and]
    constructor
    · rintro ⟨s, _, _, ⟨hs, rfl, rfl⟩, rows, _, _, ⟨hq, rfl, rfl⟩, rfl, rfl, rfl⟩
      exact ⟨rfl, s, rows, hs, hq, rfl, rfl⟩
    · rintro ⟨rfl, s, rows, hs, hq, rfl, rfl⟩
      exact ⟨s, _, _, ⟨hs, rfl, rfl⟩, rows, _, _, ⟨hq, rfl, rfl⟩, rfl, rfl, rfl⟩

theorem writeColumns_ok {columns : List String}
    (h : (writeColumns m r columns : Session τ δ σ _) env w x = ⟨.ok (), w', x'⟩) : x = x' ∧
    ∃ update, m.update env.config.dialect r columns = .ok update ∧
      ((update = none ∧ w = w') ∨ ∃ s n, update = some s ∧
        (env.executor.execute s w.database).1 = .ok n ∧ w.executed env s = w') := by
  unfold writeColumns at h
  simp only [config_bind, bind_ok, lift_ok] at h
  obtain ⟨update, _, _, ⟨hu, rfl, rfl⟩, h⟩ := h
  cases update with
  | none =>
    obtain ⟨-, rfl, rfl⟩ := pure_ok.1 h
    exact ⟨rfl, none, hu, .inl ⟨rfl, rfl⟩⟩
  | some s =>
    simp only [bind_ok, execute_ok, pure_ok] at h
    obtain ⟨n, _, _, ⟨he, rfl, rfl⟩, -, rfl, rfl⟩ := h
    exact ⟨rfl, some s, hu, .inr ⟨s, n, rfl, he, rfl⟩⟩

theorem updateRow_ok (h : updateRow m row env w r = ⟨.ok (), w', r'⟩) : r = r' ∧
    ∃ update, m.update env.config.dialect r row.columns = .ok update ∧
      ((update = none ∧ w = w') ∨ ∃ s n, update = some s ∧
        (env.executor.execute s w.database).1 = .ok n ∧ w.executed env s = w') := by
  unfold updateRow at h
  rw [focus_bind, config_bind] at h
  cases hs : env.config.staleColumn with
  | none =>
    simp only [hs] at h
    exact writeColumns_ok h
  | some column =>
    simp only [hs] at h
    obtain ⟨_, _, _, hc, h⟩ := bind_ok.1 h
    obtain ⟨-, rfl, rfl⟩ := lift_ok.1 hc
    exact writeColumns_ok h

/-! ## Inserts -/

theorem acceptKey_ok {key : Value} : acceptKey m key env w r = ⟨.ok (), w', r'⟩ ↔
    w = w' ∧ ∃ field keys, m.keys = field :: keys ∧
      setPath m.owner r field key = .ok (.set r') := by
  unfold acceptKey
  cases hk : m.keys with
  | nil =>
    constructor
    · intro h; exact absurd h fail_ok
    · rintro ⟨-, _, _, ⟨⟩, -⟩
  | cons field keys =>
    simp only [focus_bind, bind_ok, lift_ok]
    constructor
    · rintro ⟨write, _, _, ⟨hw, rfl, rfl⟩, h⟩
      cases write with
      | missing segment => exact absurd h fail_ok
      | set r₁ => cases h; exact ⟨rfl, field, keys, rfl, hw⟩
    · rintro ⟨rfl, _, _, heq, hw⟩
      cases heq
      exact ⟨_, _, _, ⟨hw, rfl, rfl⟩, rfl⟩

/-- An insert of the record that succeeds, the key of the new row made by the database or
    given by the record. -/
inductive Inserted (env : Env δ) (m : TableMap τ) (w : World τ δ) (r : Record) :
    World τ δ → Record → Prop
  | generated {d s : Statement} {columns : List String} {rows : List Row} {key : Value}
      {field : String} {keys : List String} {r' : Record} :
      m.describe env.config.dialect = .ok d →
      (env.executor.describe d w.database).1 = .ok columns →
      m.insert env.config.dialect r columns = .ok s → m.generatedKey = true →
      (env.executor.query s (w.described env d).database).1 = .ok rows →
      (rows.head?.bind fun row => row.value? 0) = some key →
      m.keys = field :: keys → setPath m.owner r field key = .ok (.set r') →
      Inserted env m w r ((w.described env d).queried env s) r'
  | given {d s : Statement} {columns : List String} {n : Nat} :
      m.describe env.config.dialect = .ok d →
      (env.executor.describe d w.database).1 = .ok columns →
      m.insert env.config.dialect r columns = .ok s → m.generatedKey = false →
      (env.executor.execute s (w.described env d).database).1 = .ok n →
      Inserted env m w r ((w.described env d).executed env s) r

theorem insertRow_ok (h : insertRow m env w r = ⟨.ok (), w', r'⟩) : Inserted env m w r w' r' := by
  unfold insertRow at h
  simp only [config_bind, bind_ok, lift_ok, describe_ok, focus_bind] at h
  obtain ⟨d, _, _, ⟨hd, rfl, rfl⟩, columns, _, _, ⟨hcols, rfl, rfl⟩, s, _, _, ⟨hs, rfl, rfl⟩,
    h⟩ := h
  cases hg : m.generatedKey with
  | false =>
    simp only [hg, Bool.false_eq_true, if_false, bind_ok, execute_ok, pure_ok] at h
    obtain ⟨n, _, _, ⟨he, rfl, rfl⟩, -, rfl, rfl⟩ := h
    exact .given hd hcols hs hg he
  | true =>
    simp only [hg, if_true, scalar, bind_ok, query_ok, pure_ok] at h
    obtain ⟨key, _, _, ⟨rows, _, _, ⟨hq, rfl, rfl⟩, hkey, rfl, rfl⟩, h⟩ := h
    cases key with
    | none => exact absurd h fail_ok
    | some key =>
      obtain ⟨rfl, field, keys, hkeys, hset⟩ := acceptKey_ok.1 h
      exact .generated hd hcols hs hg hq hkey hkeys hset

variable [DecidableEq τ]

/-! ## After the record is written -/

theorem mapInto_ok {t : τ} (hc : w.catalog.Sound env.config)
    (h : mapInto t row env w r = ⟨.ok (), w', r'⟩) : w'.database = w.database ∧
    ∃ mapper : RowMapper τ, mapper.Of env.config t ∧
      (mapper.fill r (RowMapper.plannedCells env.config t row)).record = r' ∧
      (mapper.fill r (RowMapper.plannedCells env.config t row)).failure = none := by
  rw [mapInto_run, Ran.mk.injEq, (hc.mapper t).mapInto_eq] at h
  obtain ⟨hres, rfl, hrec⟩ := h
  refine ⟨World.toldAll_database .., _, (hc.mapper t).mapInto r row, hrec, ?_⟩
  split at hres
  · cases hres
  · assumption

theorem mapRow_ok {t : τ} : (mapRow t row : Session τ δ σ _) env w x = ⟨.ok r, w', x'⟩ ↔
    mapInto t row env w (freshRecord t) = ⟨.ok (), w', r⟩ ∧ x = x' := by
  simp only [mapRow, bind_ok]
  constructor
  · rintro ⟨⟨_, r₁⟩, _, _, ho, h⟩
    obtain ⟨hm, rfl⟩ := onOther_ok.1 ho
    obtain ⟨rfl, rfl, rfl⟩ := pure_ok.1 h
    exact ⟨hm, rfl⟩
  · rintro ⟨hm, rfl⟩
    exact ⟨((), r), _, _, onOther_ok.2 ⟨hm, rfl⟩, rfl⟩

theorem storedRecord_ok {old : Option Record}
    (h : (storedRecord m row : Session τ δ σ _) env w x = ⟨.ok old, w', x'⟩) :
    x = x' ∧ (m.relations = [] → old = none ∧ w = w') := by
  unfold storedRecord at h
  cases hrel : m.relations with
  | nil =>
    simp only [hrel, List.isEmpty_nil, if_true, pure_ok] at h
    exact ⟨h.2.2, fun _ => ⟨h.1.symm, h.2.1⟩⟩
  | cons rel rels =>
    simp only [hrel, List.isEmpty_cons, Bool.false_eq_true, if_false] at h
    obtain ⟨r₀, w₁, x₁, hmap, h⟩ := bind_ok.1 h
    obtain ⟨-, rfl⟩ := mapRow_ok.1 hmap
    obtain ⟨⟨_, r₁⟩, w₂, x₂, hload, h⟩ := bind_ok.1 h
    obtain ⟨-, rfl⟩ := onOther_ok.1 hload
    exact ⟨(pure_ok.1 h).2.2, nofun⟩

theorem reloadOf_ok (h : reloadOf m env w r = ⟨.ok (), w', r'⟩) :
    ∃ s row rows, m.selectByKeys env.config.dialect .short (m.keyValues r) = .ok s ∧
      (env.executor.query s w.database).1 = .ok (row :: rows) ∧
      mapInto m.owner row env (w.queried env s) r = ⟨.ok (), w', r'⟩ := by
  unfold reloadOf at h
  simp only [focus_bind, config_bind, bind_ok, lift_ok, query_ok] at h
  obtain ⟨s, _, _, ⟨hs, rfl, rfl⟩, rows, _, _, ⟨hq, rfl, rfl⟩, h⟩ := h
  cases rows with
  | nil =>
    obtain ⟨_, _, _, -, h⟩ := bind_ok.1 h
    exact absurd h fail_ok
  | cons row rows => exact ⟨s, row, rows, hs, hq, h⟩

/-! ## What becomes of the record -/

theorem writeRow_ok {old : Option Record} (h : writeRow m env w r = ⟨.ok old, w', r'⟩) :
    ∃ stored w₁, storedRow m env w r = ⟨.ok stored, w₁, r⟩ ∧
      ((∃ row w₂, stored = some row ∧ updateRow m row env w₁ r = ⟨.ok (), w₂, r⟩ ∧
          storedRecord m row env w₂ r = ⟨.ok old, w', r⟩ ∧ r = r') ∨
        (stored = none ∧ old = none ∧ Inserted env m w₁ r w' r')) := by
  obtain ⟨stored, w₁, r₁, hs, h⟩ := bind_ok.1 h
  obtain ⟨rfl, -⟩ := storedRow_ok.1 hs
  refine ⟨stored, w₁, hs, ?_⟩
  cases stored with
  | none =>
    obtain ⟨_, w₂, r₂, hi, h⟩ := bind_ok.1 h
    obtain ⟨rfl, rfl, rfl⟩ := pure_ok.1 h
    exact .inr ⟨rfl, rfl, insertRow_ok hi⟩
  | some row =>
    obtain ⟨_, w₂, r₂, hu, h⟩ := bind_ok.1 h
    obtain ⟨rfl, -⟩ := updateRow_ok hu
    obtain ⟨rfl, -⟩ := storedRecord_ok h
    exact .inl ⟨row, w₂, rfl, hu, h, rfl⟩

omit [DecidableEq τ] in
theorem Inserted.written (hτ : Model.Sound τ) (h : Inserted env m w r w' r') :
    Written m.owner r r' := by
  cases h with
  | generated _ _ _ _ _ _ _ hset => exact setPath_written hτ hset
  | given => exact .refl

theorem writeRow_written (hτ : Model.Sound τ) {old : Option Record}
    (h : writeRow m env w r = ⟨.ok old, w', r'⟩) : Written m.owner r r' := by
  obtain ⟨_, _, -, ⟨_, _, -, -, -, rfl⟩ | ⟨-, -, hi⟩⟩ := writeRow_ok h
  · exact .refl
  · exact hi.written hτ

theorem reloadOf_written (hτ : Model.Sound τ) (hc : w.catalog.Sound env.config)
    (h : reloadOf m env w r = ⟨.ok (), w', r'⟩) : Written m.owner r r' := by
  obtain ⟨s, row, _, -, -, hm⟩ := reloadOf_ok h
  obtain ⟨-, mapper, hmap, rfl, -⟩ := mapInto_ok (w := w.queried env s) hc hm
  have hw := RowMapper.fill_written hτ mapper r (RowMapper.plannedCells env.config m.owner row)
  rwa [hmap.owner] at hw

end Session

end RecordGraph
