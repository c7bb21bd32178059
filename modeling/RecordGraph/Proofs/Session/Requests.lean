/-
  What a run sends, whether it succeeds or not.

  `SendsOnly P` says that every request that a run adds has the property `P`; it goes
  through sequences and loops.
-/
import RecordGraph.Proofs.Session.Runs

namespace RecordGraph

namespace Session

variable {τ δ σ ρ α β ι : Type} {P Q : Request → Prop} {env : Env δ} {w : World τ δ} {x : σ}

/-- Every request that the run adds has the property. -/
def SendsOnly (P : Request → Prop) (env : Env δ) (s : Session τ δ σ α) (w : World τ δ) (x : σ) :
    Prop :=
  ∃ sent, (s env w x).world.requests = w.requests ++ sent ∧ ∀ q ∈ sent, P q

theorem SendsOnly.nothing {s : Session τ δ σ α} (h : (s env w x).world.requests = w.requests) :
    SendsOnly P env s w x :=
  ⟨[], by simp [h], by simp⟩

theorem SendsOnly.bind {s : Session τ δ σ α} {f : α → Session τ δ σ β}
    (hs : SendsOnly P env s w x)
    (hf : ∀ a w' x', s env w x = ⟨.ok a, w', x'⟩ → SendsOnly P env (f a) w' x') :
    SendsOnly P env (s >>= f) w x := by
  obtain ⟨sent, hsent, hP⟩ := hs
  change ∃ sent, (andThen s f env w x).world.requests = _ ∧ _
  unfold andThen
  rcases hr : s env w x with ⟨e | a, w', x'⟩
  · rw [hr] at hsent; exact ⟨sent, hsent, hP⟩
  · rw [hr] at hsent
    obtain ⟨more, hmore, hP'⟩ := hf a w' x' hr
    refine ⟨sent ++ more, ?_, ?_⟩
    · rw [hmore, show w'.requests = _ from hsent, List.append_assoc]
    · intro q hq
      rcases List.mem_append.1 hq with hq | hq
      · exact hP q hq
      · exact hP' q hq

theorem SendsOnly.forM {is : List ι} {f : ι → Session τ δ σ Unit} {I : World τ δ → σ → Prop}
    (hI : I w x) (hs : ∀ i ∈ is, ∀ w x, I w x → SendsOnly P env (f i) w x)
    (hk : ∀ i ∈ is, ∀ w x w' x', I w x → f i env w x = ⟨.ok (), w', x'⟩ → I w' x') :
    SendsOnly P env (is.forM f) w x := by
  induction is generalizing w x with
  | nil => exact .nothing rfl
  | cons i is ih =>
    refine SendsOnly.bind (hs i (by simp) w x hI) fun a w' x' hr => ?_
    exact ih (hk i (by simp) w x w' x' hI hr) (fun j hj => hs j (by simp [hj]))
      (fun j hj => hk j (by simp [hj]))

theorem SendsOnly.onChild {s : Session τ δ Record Unit} {r : Record} {slot i : Nat}
    (h : ∀ w c, SendsOnly P env s w c) : SendsOnly P env (onChild slot i s) w r := by
  unfold SendsOnly Session.onChild
  cases r.child? slot i with
  | none => exact ⟨[], by simp, by simp⟩
  | some c => exact h w c

end Session

end RecordGraph
