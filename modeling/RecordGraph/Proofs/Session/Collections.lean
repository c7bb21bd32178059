/-
  Work on the records of a collection.

  `Visits` is a run that goes through some places of a list and works on the record
  of each; `forM_onChild_ok` says that a loop over the children of the record in
  focus is such a run on its collection, and leaves the rest of the record alone.
-/
import RecordGraph.Proofs.Record.Slots
import RecordGraph.Proofs.Session.Runs

namespace RecordGraph

namespace Session

variable {τ δ : Type} {env : Env δ} {s : Session τ δ Record Unit} {w w' : World τ δ}
  {r r' : Record} {slot i : Nat} {cs cs' : List Record}

/-! ## One child -/

theorem onChild_run (h : r.many? slot = some cs) {c : Record} (hc : cs[i]? = some c) :
    onChild slot i s env w r = ⟨(s env w c).result, (s env w c).world,
      r.setSlot slot (.many (some (cs.set i (s env w c).focus)))⟩ := by
  simp only [onChild, Record.child_of_many h, hc, Record.setChild_of_many h]

theorem onChild_ok (h : r.many? slot = some cs) {c : Record} (hc : cs[i]? = some c) :
    onChild slot i s env w r = ⟨.ok (), w', r'⟩ ↔
      ∃ c', s env w c = ⟨.ok (), w', c'⟩ ∧ r' = r.setSlot slot (.many (some (cs.set i c'))) := by
  rw [onChild_run h hc]
  rcases s env w c with ⟨a, w₁, c₁⟩
  constructor
  · intro h'; cases h'; exact ⟨c₁, rfl, rfl⟩
  · rintro ⟨_, h', rfl⟩; cases h'; rfl

/-! ## Several children -/

/-- The session runs on the records in the given places, one after the other. -/
inductive Visits (env : Env δ) (s : Session τ δ Record Unit) :
    List Nat → World τ δ → List Record → World τ δ → List Record → Prop
  | nil {w : World τ δ} {cs : List Record} : Visits env s [] w cs w cs
  | cons {i : Nat} {is : List Nat} {w w₁ w' : World τ δ} {cs cs' : List Record} {c c' : Record} :
      cs[i]? = some c → s env w c = ⟨.ok (), w₁, c'⟩ →
      Visits env s is w₁ (cs.set i c') w' cs' → Visits env s (i :: is) w cs w' cs'

theorem forM_onChild_ok {places : List Nat} (h : r.many? slot = some cs)
    (hp : ∀ i ∈ places, i < cs.length)
    (hr : (places.forM fun i => onChild slot i s) env w r = ⟨.ok (), w', r'⟩) :
    ∃ cs', Visits env s places w cs w' cs' ∧ r' = r.setSlot slot (.many (some cs')) := by
  induction places generalizing w r cs with
  | nil =>
    obtain ⟨rfl, rfl⟩ := forM_nil_ok.1 hr
    exact ⟨cs, .nil, (Record.setSlot_many h).symm⟩
  | cons i places ih =>
    obtain ⟨w₁, r₁, hi, hr⟩ := forM_cons_ok.1 hr
    have hc := List.getElem?_eq_getElem (hp i (by simp))
    obtain ⟨c', hs, rfl⟩ := (onChild_ok h hc).1 hi
    obtain ⟨cs', hv, rfl⟩ := ih (Record.many_setSlot h)
      (fun j hj => by simpa using hp j (by simp [hj])) hr
    exact ⟨cs', .cons hc hs hv, Record.setSlot_setSlot⟩

theorem Visits.append {places places' : List Nat} {w₁ : World τ δ} {cs₁ : List Record}
    (h : Visits env s places w cs w₁ cs₁) (h' : Visits env s places' w₁ cs₁ w' cs') :
    Visits env s (places ++ places') w cs w' cs' := by
  induction h with
  | nil => exact h'
  | cons hc hs _ ih => exact .cons hc hs (ih h')

theorem Visits.length_eq {places : List Nat} (h : Visits env s places w cs w' cs') :
    cs'.length = cs.length := by
  induction h with
  | nil => rfl
  | cons _ _ _ ih => simpa using ih

/-- Records in other places stay. -/
theorem Visits.getElem_other {places : List Nat} (h : Visits env s places w cs w' cs')
    (hi : i ∉ places) : cs'[i]? = cs[i]? := by
  induction h with
  | nil => rfl
  | cons _ _ _ ih =>
    rw [List.mem_cons, not_or] at hi
    rw [ih hi.2, List.getElem?_set_ne (Ne.symm hi.1)]

end Session

end RecordGraph
