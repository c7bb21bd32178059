/-
  A shelf that several calls share.

  A shelf holds one value for a key, behind a lock.  A call looks, builds and stores in turns of
  its own, and the turns of other calls come in between: only what it does under one lock is done
  at once.

  * `Errand.turn` is one turn of a call, `Shared.run` a schedule of turns; `Errand.Turns` says
    all that a turn can do.
  * `Shared.Sound`: a key has one value, built by the call that stored it, and a call that has
    ended well was given the value on the shelf.
  * `Shared.find_run`, `Shared.barred_run`, `Shared.shelf_of_failed`, `Shared.ended_run`: a stored
    value stays, a call that must be the first comes too late, a call that fails has stored
    nothing, and three turns are enough.
-/
import Mathlib.Data.List.Basic
import Mathlib.Logic.Function.Basic
import RecordGraph.Error

namespace RecordGraph

variable {τ α : Type} [DecidableEq τ]

/-! ## Shelves -/

/-- A value, and the number of the call that built it: two instances are the same only if one
    call built them. -/
structure Built (α : Type) where
  call : Nat
  value : α

/-- The values of some keys, in the order in which they were stored. -/
abbrev Shelf (τ α : Type) := List (τ × Built α)

namespace Shelf

/-- The value of a key: what is done under the lock for readers. -/
def find? (s : Shelf τ α) (t : τ) : Option (Built α) := s.lookup t

/-- Stores a value for a key without one.  The value on the shelf is the answer. -/
def offer (s : Shelf τ α) (t : τ) (b : Built α) : Built α × Shelf τ α :=
  match s.find? t with
  | some stored => (stored, s)
  | none => (b, s ++ [(t, b)])

/-- Stores a value for a key that must not have one. -/
def enter (s : Shelf τ α) (t : τ) (b : Built α) (refusal : Error) : Result (Shelf τ α) :=
  match s.find? t with
  | some _ => .error refusal
  | none => .ok (s ++ [(t, b)])

/-- The values without their origin. -/
def values (s : Shelf τ α) : List (τ × α) := s.map fun e => (e.1, e.2.value)

variable {s : Shelf τ α} {t u : τ} {b c : Built α}

theorem find_append : find? (s ++ [(u, c)]) t = (s.find? t).or (if t = u then some c else none) := by
  simp only [find?, List.lookup_append, List.lookup_cons, List.lookup_nil]
  by_cases htu : t = u
  · rw [if_pos htu, htu, beq_self_eq_true]
  · rw [if_neg htu, beq_false_of_ne htu]

theorem find_append_of_some (h : s.find? t = some b) : find? (s ++ [(u, c)]) t = some b := by
  rw [find_append, h, Option.some_or]

theorem find_append_self (h : s.find? t = none) : find? (s ++ [(t, c)]) t = some c := by
  rw [find_append, h, if_pos rfl, Option.none_or]

theorem not_mem_keys (h : s.find? t = none) : t ∉ s.map Prod.fst := by
  intro hmem
  obtain ⟨e, he, rfl⟩ := List.mem_map.1 hmem
  have hne := List.lookup_eq_none_iff.1 h e he
  simp at hne

theorem lookup_values (s : Shelf τ α) (t : τ) :
    s.values.lookup t = (s.find? t).map Built.value := by
  induction s with
  | nil => rfl
  | cons e s ih =>
    obtain ⟨u, c⟩ := e
    simp only [values, find?, List.map_cons, List.lookup_cons] at ih ⊢
    by_cases htu : t = u
    · rw [htu, beq_self_eq_true]
      rfl
    · rw [beq_false_of_ne htu]
      exact ih

end Shelf

/-! ## Calls -/

/-- What a call wants of a shelf. -/
structure Errand (τ α : Type) where
  key : τ
  /-- The complaint of a call that must be the first for its key; a call without one looks first
      and takes what is there. -/
  refusal : Option Error
  /-- What the call builds, outside the lock. -/
  build : Result α

/-- How far a call has come. -/
inductive Stage (α : Type) where
  /-- Not begun. -/
  | waiting
  /-- There was no value when the call looked. -/
  | missing
  /-- The call has built a value and not stored it yet. -/
  | holding (a : α)
  | ended (result : Result (Built α))

namespace Errand

/-- What comes of building. -/
def built (e : Errand τ α) : Stage α :=
  match e.build with
  | .ok a => .holding a
  | .error err => .ended (.error err)

/-- One turn of call number `i`: it takes the lock once, or builds without it. -/
def turn (i : Nat) (e : Errand τ α) : Stage α → Shelf τ α → Stage α × Shelf τ α
  | .waiting, s =>
    match e.refusal with
    | some _ => (e.built, s)
    | none =>
      match s.find? e.key with
      | some b => (.ended (.ok b), s)
      | none => (.missing, s)
  | .missing, s => (e.built, s)
  | .holding a, s =>
    match e.refusal with
    | none =>
      let (b, s') := s.offer e.key ⟨i, a⟩
      (.ended (.ok b), s')
    | some refusal =>
      match s.enter e.key ⟨i, a⟩ refusal with
      | .ok s' => (.ended (.ok ⟨i, a⟩), s')
      | .error err => (.ended (.error err), s)
  | .ended result, s => (.ended result, s)

/-- All that a turn can do. -/
inductive Turns (i : Nat) (e : Errand τ α) (s : Shelf τ α) :
    Stage α → Stage α × Shelf τ α → Prop
  | built {stage : Stage α} : stage = .missing ∨ (stage = .waiting ∧ e.refusal.isSome) →
      Turns i e s stage (e.built, s)
  | missed : e.refusal = none → Turns i e s .waiting (.missing, s)
  /-- The value of the key is there, and the call takes it. -/
  | taken {stage : Stage α} {b : Built α} : e.refusal = none → s.find? e.key = some b →
      Turns i e s stage (.ended (.ok b), s)
  | refused {a : α} {refusal : Error} : e.refusal = some refusal →
      Turns i e s (.holding a) (.ended (.error refusal), s)
  /-- The only turn that changes the shelf. -/
  | stored {a : α} : s.find? e.key = none →
      Turns i e s (.holding a) (.ended (.ok ⟨i, a⟩), s ++ [(e.key, ⟨i, a⟩)])
  | idle {result : Result (Built α)} : Turns i e s (.ended result) (.ended result, s)

theorem turns (i : Nat) (e : Errand τ α) (stage : Stage α) (s : Shelf τ α) :
    Turns i e s stage (e.turn i stage s) := by
  cases stage with
  | waiting =>
    simp only [turn]
    cases hr : e.refusal with
    | some refusal => exact .built (.inr ⟨rfl, by rw [hr]; rfl⟩)
    | none =>
      cases hf : s.find? e.key with
      | some b => exact .taken hr hf
      | none => exact .missed hr
  | missing => exact .built (.inl rfl)
  | holding a =>
    simp only [turn]
    cases hr : e.refusal with
    | none =>
      simp only [Shelf.offer]
      cases hf : s.find? e.key with
      | some b => exact .taken hr hf
      | none => exact .stored hf
    | some refusal =>
      simp only [Shelf.enter]
      cases hf : s.find? e.key with
      | some b => exact .refused hr
      | none => exact .stored hf
  | ended result => exact .idle

/-- How many turns a call has left at most. -/
def left : Stage α → Nat
  | .waiting => 3
  | .missing => 2
  | .holding _ => 1
  | .ended _ => 0

omit [DecidableEq τ] in
theorem left_built (e : Errand τ α) : left e.built ≤ 1 := by
  unfold built
  split
  · exact Nat.le_refl 1
  · exact Nat.zero_le 1

theorem left_turn (i : Nat) (e : Errand τ α) (stage : Stage α) (s : Shelf τ α) :
    left (e.turn i stage s).1 ≤ left stage - 1 := by
  have hturn := e.turns i stage s
  generalize e.turn i stage s = after at hturn
  cases hturn with
  | built hstage =>
    have hbuilt := e.left_built
    rcases hstage with rfl | ⟨rfl, -⟩
    · exact hbuilt
    · exact Nat.le_succ_of_le hbuilt
  | missed hr => exact Nat.le_refl 2
  | taken hr hf => exact Nat.zero_le _
  | refused hr => exact Nat.zero_le _
  | stored hf => exact Nat.zero_le _
  | idle => exact Nat.le_refl 0

omit [DecidableEq τ] in
theorem left_le (stage : Stage α) : left stage ≤ 3 := by
  cases stage with
  | waiting => exact Nat.le_refl 3
  | missing => exact Nat.le_succ 2
  | holding a => exact Nat.le_add_left 1 2
  | ended result => exact Nat.zero_le 3

theorem ended_of_left {stage : Stage α} (h : left stage = 0) :
    ∃ result, stage = .ended result := by
  cases stage with
  | waiting => cases h
  | missing => cases h
  | holding a => cases h
  | ended result => exact ⟨result, rfl⟩

end Errand

/-! ## Schedules -/

/-- A shelf, and how far each call has come. -/
structure Shared (τ α : Type) where
  shelf : Shelf τ α
  stage : Nat → Stage α

namespace Shared

/-- Nothing stored, and no call begun. -/
def start : Shared τ α := ⟨[], fun _ => .waiting⟩

/-- One turn of a call; a call without an errand does nothing here. -/
def turn (errands : Nat → Option (Errand τ α)) (s : Shared τ α) (i : Nat) : Shared τ α :=
  match errands i with
  | some e =>
    let (stage, shelf) := e.turn i (s.stage i) s.shelf
    ⟨shelf, Function.update s.stage i stage⟩
  | none => s

/-- The turns of a schedule, which says whose turn it is. -/
def run (errands : Nat → Option (Errand τ α)) (s : Shared τ α) (schedule : List Nat) :
    Shared τ α :=
  schedule.foldl (turn errands) s

variable {errands : Nat → Option (Errand τ α)} {s : Shared τ α} {e : Errand τ α} {i j : Nat}
  {t : τ} {b : Built α} {err : Error} {result : Result (Built α)} {schedule : List Nat}

@[simp] theorem run_nil : s.run errands [] = s := rfl

@[simp] theorem run_cons :
    s.run errands (i :: schedule) = (s.turn errands i).run errands schedule := rfl

theorem run_append (before after : List Nat) :
    s.run errands (before ++ after) = (s.run errands before).run errands after :=
  List.foldl_append

theorem turn_idle (h : errands i = none) : s.turn errands i = s := by
  simp only [turn, h]

theorem turn_eq (h : errands i = some e) : s.turn errands i =
    ⟨(e.turn i (s.stage i) s.shelf).2,
      Function.update s.stage i (e.turn i (s.stage i) s.shelf).1⟩ := by
  simp only [turn, h]

theorem stage_turn_self (h : errands i = some e) :
    (s.turn errands i).stage i = (e.turn i (s.stage i) s.shelf).1 := by
  rw [turn_eq h]
  exact Function.update_self ..

/-- All that a turn can do to the shelf and to the call whose turn it is. -/
theorem turns_turn (h : errands i = some e) (s : Shared τ α) : e.Turns i s.shelf (s.stage i)
    ((s.turn errands i).stage i, (s.turn errands i).shelf) := by
  rw [stage_turn_self h, turn_eq h]
  exact e.turns i (s.stage i) s.shelf

theorem stage_turn_ne (h : j ≠ i) : (s.turn errands i).stage j = s.stage j := by
  cases he : errands i with
  | none => rw [turn_idle he]
  | some e =>
    rw [turn_eq he]
    exact Function.update_of_ne h ..

/-- A property that every turn preserves holds after a schedule. -/
theorem run_induction {P : Shared τ α → Prop} (hturn : ∀ s i, P s → P (s.turn errands i))
    (h : P s) (schedule : List Nat) : P (s.run errands schedule) := by
  induction schedule generalizing s with
  | nil => exact h
  | cons i schedule ih => exact ih (hturn s i h)

/-! ### Calls that nobody disturbs -/

/-- The turn of a call at a stage. -/
theorem turn_at (he : errands i = some e) {before after : Stage α} {shelf : Shelf τ α}
    (hs : s.stage i = before) (hturn : e.turn i before s.shelf = (after, shelf)) :
    (s.turn errands i).stage i = after ∧ (s.turn errands i).shelf = shelf := by
  rw [stage_turn_self he, turn_eq he, hs, hturn]
  exact ⟨rfl, rfl⟩

/-- A call that takes what is there, or else stores what it builds. -/
theorem take_alone (he : errands i = some e) (hr : e.refusal = none)
    (hs : s.stage i = .waiting) : ∃ result, (s.run errands [i, i, i]).stage i = .ended result ∧
      match s.shelf.find? e.key with
      | some b => result = .ok b ∧ (s.run errands [i, i, i]).shelf = s.shelf
      | none => result = e.build.map (Built.mk i) ∧ (s.run errands [i, i, i]).shelf =
          match e.build with
          | .ok a => s.shelf ++ [(e.key, ⟨i, a⟩)]
          | .error _ => s.shelf := by
  simp only [run_cons, run_nil]
  cases hf : s.shelf.find? e.key with
  | some b =>
    have hlook : e.turn i .waiting s.shelf = (.ended (.ok b), s.shelf) := by
      simp only [Errand.turn, hr, hf]
    obtain ⟨h₁, hs₁⟩ := turn_at he hs hlook
    obtain ⟨h₂, hs₂⟩ := turn_at he h₁ rfl
    obtain ⟨h₃, hs₃⟩ := turn_at he h₂ rfl
    exact ⟨_, h₃, rfl, hs₃.trans (hs₂.trans hs₁)⟩
  | none =>
    have hlook : e.turn i .waiting s.shelf = (.missing, s.shelf) := by
      simp only [Errand.turn, hr, hf]
    obtain ⟨h₁, hs₁⟩ := turn_at he hs hlook
    obtain ⟨h₂, hs₂⟩ := turn_at he h₁ rfl
    have hshelf := hs₂.trans hs₁
    unfold Errand.built at h₂
    cases hb : e.build with
    | error err =>
      simp only [hb] at h₂
      obtain ⟨h₃, hs₃⟩ := turn_at he h₂ rfl
      exact ⟨_, h₃, rfl, hs₃.trans hshelf⟩
    | ok a =>
      simp only [hb] at h₂
      have hstore : e.turn i (.holding a) ((s.turn errands i).turn errands i).shelf =
          (.ended (.ok ⟨i, a⟩), s.shelf ++ [(e.key, ⟨i, a⟩)]) := by
        simp only [Errand.turn, hr, Shelf.offer, hshelf, hf]
      obtain ⟨h₃, hs₃⟩ := turn_at he h₂ hstore
      exact ⟨_, h₃, rfl, hs₃⟩

/-- A call that must be the first. -/
theorem enter_alone (he : errands i = some e) {refusal : Error} (hr : e.refusal = some refusal)
    (hs : s.stage i = .waiting) : ∃ result, (s.run errands [i, i]).stage i = .ended result ∧
      match e.build with
      | .error err => result = .error err ∧ (s.run errands [i, i]).shelf = s.shelf
      | .ok a =>
        match s.shelf.find? e.key with
        | some _ => result = .error refusal ∧ (s.run errands [i, i]).shelf = s.shelf
        | none => result = .ok ⟨i, a⟩ ∧
            (s.run errands [i, i]).shelf = s.shelf ++ [(e.key, ⟨i, a⟩)] := by
  simp only [run_cons, run_nil]
  have hbuild : e.turn i .waiting s.shelf = (e.built, s.shelf) := by simp only [Errand.turn, hr]
  obtain ⟨h₁, hs₁⟩ := turn_at he hs hbuild
  unfold Errand.built at h₁
  cases hb : e.build with
  | error err =>
    simp only [hb] at h₁
    obtain ⟨h₂, hs₂⟩ := turn_at he h₁ rfl
    exact ⟨_, h₂, rfl, hs₂.trans hs₁⟩
  | ok a =>
    simp only [hb] at h₁
    cases hf : s.shelf.find? e.key with
    | some b =>
      have hrefuse : e.turn i (.holding a) (s.turn errands i).shelf =
          (.ended (.error refusal), (s.turn errands i).shelf) := by
        simp only [Errand.turn, hr, Shelf.enter, hs₁, hf]
      obtain ⟨h₂, hs₂⟩ := turn_at he h₁ hrefuse
      exact ⟨_, h₂, rfl, hs₂.trans hs₁⟩
    | none =>
      have hstore : e.turn i (.holding a) (s.turn errands i).shelf =
          (.ended (.ok ⟨i, a⟩), s.shelf ++ [(e.key, ⟨i, a⟩)]) := by
        simp only [Errand.turn, hr, Shelf.enter, hs₁, hf]
      obtain ⟨h₂, hs₂⟩ := turn_at he h₁ hstore
      exact ⟨_, h₂, rfl, hs₂⟩

/-! ### What stays -/

theorem find_turn (h : s.shelf.find? t = some b) (i : Nat) :
    (s.turn errands i).shelf.find? t = some b := by
  cases he : errands i with
  | none => rwa [turn_idle he]
  | some e =>
    have hturn := turns_turn he s
    generalize (s.turn errands i).stage i = stage at hturn
    generalize (s.turn errands i).shelf = shelf at hturn ⊢
    generalize s.stage i = before at hturn
    cases hturn with
    | stored hf => exact Shelf.find_append_of_some h
    | built | missed | taken | refused | idle => exact h

/-- A stored value is never replaced. -/
theorem find_run (h : s.shelf.find? t = some b) (schedule : List Nat) :
    (s.run errands schedule).shelf.find? t = some b :=
  run_induction (P := fun s => s.shelf.find? t = some b) (fun _ i h => find_turn h i) h schedule

theorem ended_turn (h : s.stage j = .ended result) (i : Nat) :
    (s.turn errands i).stage j = .ended result := by
  by_cases hij : j = i
  · subst hij
    cases he : errands j with
    | none => rwa [turn_idle he]
    | some e =>
      rw [stage_turn_self he, h]
      rfl
  · rwa [stage_turn_ne hij]

/-- A call that has ended stays as it ended. -/
theorem ended_of_ended (h : s.stage j = .ended result) (schedule : List Nat) :
    (s.run errands schedule).stage j = .ended result :=
  run_induction (P := fun s => s.stage j = .ended result) (fun _ i h => ended_turn h i) h schedule

/-! ### One value for a key -/

/-- Every key has one value.  Whoever has ended well was given that value, and a call that must
    be the first has built it; a call fails only as its builder does, or with its complaint. -/
structure Sound (errands : Nat → Option (Errand τ α)) (s : Shared τ α) : Prop where
  keys : (s.shelf.map Prod.fst).Nodup
  held : ∀ i e a, errands i = some e → s.stage i = .holding a → e.build = .ok a
  given : ∀ i e b, errands i = some e → s.stage i = .ended (.ok b) →
    s.shelf.find? e.key = some b ∧ (e.refusal.isSome → b.call = i ∧ e.build = .ok b.value)
  failed : ∀ i e err, errands i = some e → s.stage i = .ended (.error err) →
    e.build = .error err ∨ e.refusal = some err

theorem sound_start : Sound errands (start : Shared τ α) where
  keys := List.nodup_nil
  held _ _ _ _ h := by cases h
  given _ _ _ _ h := by cases h
  failed _ _ _ _ h := by cases h

/-- What a call holds, has been given or complains of after its own turn. -/
theorem Sound.own (h : s.Sound errands) (he : errands i = some e) {stage : Stage α}
    {shelf : Shelf τ α} (hturn : e.Turns i s.shelf (s.stage i) (stage, shelf)) :
    (∀ a, stage = .holding a → e.build = .ok a) ∧
      (∀ b, stage = .ended (.ok b) → shelf.find? e.key = some b ∧
        (e.refusal.isSome → b.call = i ∧ e.build = .ok b.value)) ∧
      ∀ err, stage = .ended (.error err) → e.build = .error err ∨ e.refusal = some err := by
  generalize hs : s.stage i = before at hturn
  cases hturn with
  | built hstage =>
    unfold Errand.built
    cases hb : e.build with
    | error err => exact ⟨nofun, nofun, fun err' herr => by cases herr; exact .inl rfl⟩
    | ok a => exact ⟨fun a' ha => by cases ha; rfl, nofun, nofun⟩
  | missed hr => exact ⟨nofun, nofun, nofun⟩
  | taken hr hf =>
    refine ⟨nofun, fun b hb => ?_, nofun⟩
    cases hb
    refine ⟨hf, fun hfirst => ?_⟩
    rw [hr] at hfirst
    cases hfirst
  | refused hr => exact ⟨nofun, nofun, fun err herr => by cases herr; exact .inr hr⟩
  | stored hf =>
    refine ⟨nofun, fun b hb => ?_, nofun⟩
    cases hb
    exact ⟨Shelf.find_append_self hf, fun _ => ⟨rfl, h.held i e _ he hs⟩⟩
  | idle =>
    refine ⟨nofun, fun b hb => ?_, fun err herr => ?_⟩
    · cases hb
      exact h.given i e b he hs
    · cases herr
      exact h.failed i e err he hs

theorem Sound.keys_turn (h : s.Sound errands) {stage : Stage α} {shelf : Shelf τ α}
    (hturn : e.Turns i s.shelf (s.stage i) (stage, shelf)) :
    (shelf.map Prod.fst).Nodup := by
  generalize s.stage i = before at hturn
  cases hturn with
  | stored hf =>
    rw [List.map_append]
    refine List.nodup_append.2 ⟨h.keys, List.nodup_cons.2 ⟨List.not_mem_nil, List.nodup_nil⟩, ?_⟩
    intro x hx y hy hxy
    rw [List.map_cons, List.map_nil, List.mem_singleton] at hy
    subst hxy hy
    exact Shelf.not_mem_keys hf hx
  | built | missed | taken | refused | idle => exact h.keys

theorem Sound.turn (h : s.Sound errands) (i : Nat) : (s.turn errands i).Sound errands := by
  cases he : errands i with
  | none => rwa [turn_idle he]
  | some e =>
    have hturn := turns_turn he s
    obtain ⟨hheld, hgiven, hfailed⟩ := h.own he hturn
    -- A turn concerns only the call whose turn it is.
    refine ⟨h.keys_turn hturn, fun j e' a he' hj => ?_, fun j e' b he' hj => ?_,
      fun j e' err he' hj => ?_⟩
    · by_cases hij : j = i
      · subst hij
        rw [he] at he'
        cases he'
        exact hheld a hj
      · rw [stage_turn_ne hij] at hj
        exact h.held j e' a he' hj
    · by_cases hij : j = i
      · subst hij
        rw [he] at he'
        cases he'
        exact hgiven b hj
      · rw [stage_turn_ne hij] at hj
        obtain ⟨hfind, hfirst⟩ := h.given j e' b he' hj
        exact ⟨find_turn hfind i, hfirst⟩
    · by_cases hij : j = i
      · subst hij
        rw [he] at he'
        cases he'
        exact hfailed err hj
      · rw [stage_turn_ne hij] at hj
        exact h.failed j e' err he' hj

theorem Sound.run (h : s.Sound errands) (schedule : List Nat) :
    (s.run errands schedule).Sound errands :=
  run_induction (fun _ i h => h.turn i) h schedule

/-! ### Calls that come too late -/

/-- The call must be the first for its key, and is not. -/
structure Barred (e : Errand τ α) (i : Nat) (s : Shared τ α) : Prop where
  there : ∃ b, s.shelf.find? e.key = some b
  unserved : ∀ b, s.stage i ≠ .ended (.ok b)

theorem Barred.turn (he : errands i = some e) (hfirst : e.refusal.isSome) (h : Barred e i s)
    (j : Nat) : Barred e i (s.turn errands j) := by
  obtain ⟨b, hb⟩ := h.there
  refine ⟨⟨b, find_turn hb j⟩, fun b' hb' => ?_⟩
  by_cases hij : i = j
  · subst hij
    have hturn := turns_turn he s
    generalize (s.turn errands i).stage i = stage at hturn hb'
    generalize (s.turn errands i).shelf = shelf at hturn
    generalize hs : s.stage i = before at hturn
    cases hturn with
    | built hstage =>
      unfold Errand.built at hb'
      split at hb' <;> cases hb'
    | missed hr => cases hb'
    | taken hr hf =>
      rw [hr] at hfirst
      cases hfirst
    | refused hr => cases hb'
    | stored hf =>
      rw [hb] at hf
      cases hf
    | idle => exact h.unserved b' (hs.trans hb')
  · rw [stage_turn_ne hij] at hb'
    exact h.unserved b' hb'

theorem barred_run (he : errands i = some e) (hfirst : e.refusal.isSome) (h : Barred e i s)
    (schedule : List Nat) : Barred e i (s.run errands schedule) :=
  run_induction (P := Barred e i) (fun _ j h => h.turn he hfirst j) h schedule

/-! ### Calls that fail -/

/-- A turn that stores something ends the call well. -/
theorem shelf_turn (errands : Nat → Option (Errand τ α)) (s : Shared τ α) (i : Nat) :
    (s.turn errands i).shelf = s.shelf ∨ ∃ b, (s.turn errands i).stage i = .ended (.ok b) := by
  cases he : errands i with
  | none => rw [turn_idle he]; exact .inl rfl
  | some e =>
    have hturn := turns_turn he s
    generalize (s.turn errands i).stage i = stage at hturn ⊢
    generalize (s.turn errands i).shelf = shelf at hturn ⊢
    generalize s.stage i = before at hturn
    cases hturn with
    | stored hf => exact .inr ⟨_, rfl⟩
    | built | missed | taken | refused | idle => exact .inl rfl

/-- No turn of a call that fails in the end changes the shelf. -/
theorem shelf_of_failed (after : List Nat)
    (h : (s.run errands (i :: after)).stage i = .ended (.error err)) :
    (s.turn errands i).shelf = s.shelf := by
  rcases shelf_turn errands s i with hshelf | ⟨b, hb⟩
  · exact hshelf
  · rw [run_cons, ended_of_ended hb] at h
    cases h

/-! ### Calls end -/

theorem left_run (he : errands i = some e) (s : Shared τ α) (schedule : List Nat) :
    Errand.left ((s.run errands schedule).stage i) ≤ Errand.left (s.stage i) - schedule.count i := by
  induction schedule generalizing s with
  | nil => exact Nat.le_refl _
  | cons j schedule ih =>
    have hrest := ih (s.turn errands j)
    rw [run_cons]
    by_cases hij : i = j
    · subst hij
      have hown := e.left_turn i (s.stage i) s.shelf
      rw [stage_turn_self he] at hrest
      rw [List.count_cons_self]
      omega
    · rw [stage_turn_ne hij] at hrest
      rwa [List.count_cons_of_ne (Ne.symm hij)]

/-- A call ends with its third turn, whatever the others do in between. -/
theorem ended_run (he : errands i = some e) (s : Shared τ α) (h : 3 ≤ schedule.count i) :
    ∃ result, (s.run errands schedule).stage i = .ended result := by
  have hbefore := Errand.left_le (s.stage i)
  have hafter := left_run he s schedule
  exact Errand.ended_of_left (by omega)

end Shared

end RecordGraph
