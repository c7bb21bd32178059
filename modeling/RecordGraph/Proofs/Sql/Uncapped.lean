/-
  Fragments without caps.

  Two letters of each cap stand next to each other nowhere else in the fixed texts of a select:
  the `m` and `i` of `limit`, the `o` and `p` of `top`.  A text is `Calm` if its letters are
  `Apart` in this way, also from whatever follows it.  A fragment is `Steady` if it leaves the
  groups open that were open and its outer text is calm; the lemmas go along with the ways in which
  fragments are put together, and a steady statement has no cap (`Steady.hasRowLimit`).
-/
import Mathlib.Data.List.Chain
import RecordGraph.Proofs.Sql.Rendering
import RecordGraph.Proofs.Sql.RowLimit

namespace RecordGraph

variable {d : Dialect} {i j k n : Nat} {cs xs ys : List Char}

/-! ## Calm texts -/

/-- The letters do not belong to a cap. -/
def Apart (a b : Char) : Prop := ¬ (a = 'm' ∧ b = 'i') ∧ ¬ (a = 'o' ∧ b = 'p')

instance : DecidableRel Apart := fun _ _ => inferInstanceAs (Decidable (_ ∧ _))

/-- Neither the text nor what may follow it makes up a cap. -/
structure Calm (cs : List Char) : Prop where
  chain : cs.IsChain Apart
  last : ∀ c ∈ cs.getLast?, c ≠ 'm' ∧ c ≠ 'o'

theorem calm_iff : Calm cs ↔
    cs.IsChain Apart ∧ cs.getLast?.all (fun c => c != 'm' && c != 'o') = true := by
  simp only [Option.all_eq_true, Bool.and_eq_true, bne_iff_ne]
  exact ⟨fun h => ⟨h.chain, h.last⟩, fun h => ⟨h.1, h.2⟩⟩

instance (cs : List Char) : Decidable (Calm cs) := decidable_of_iff _ calm_iff.symm

theorem Calm.append (h : Calm xs) (h' : Calm ys) : Calm (xs ++ ys) where
  chain := List.isChain_append.2 ⟨h.chain, h'.chain, fun x hx y _ =>
    ⟨fun hmi => (h.last x hx).1 hmi.1, fun hop => (h.last x hx).2 hop.1⟩⟩
  last := by
    intro c hc
    rw [List.getLast?_append] at hc
    cases hlast : ys.getLast? with
    | none =>
      rw [hlast] at hc
      exact h.last c hc
    | some y =>
      rw [hlast] at hc
      exact h'.last c (by rw [hlast]; exact hc)

/-- Letters that begin no cap are calm. -/
theorem calm_of_forall (h : ∀ c ∈ cs, c ≠ 'm' ∧ c ≠ 'o') : Calm cs where
  chain := by
    induction cs with
    | nil => exact .nil
    | cons c cs ih =>
      rw [List.forall_mem_cons] at h
      cases cs with
      | nil => exact .singleton c
      | cons c' cs =>
        exact .cons_cons ⟨fun hmi => h.1.1 hmi.1, fun hop => h.1.2 hop.1⟩ (ih h.2)
  last c hc := h c (List.mem_of_getLast? hc)

theorem calm_spaces (n : Nat) : Calm (List.replicate n ' ') :=
  calm_of_forall fun c hc => by rw [List.eq_of_mem_replicate hc]; decide

theorem Calm.not_infix {a b : Char} (h : Calm cs) (hab : ¬ Apart a b) : ¬ [a, b] <:+: cs :=
  fun hwithin =>
    have hpair : [a, b].IsChain Apart := List.IsChain.infix h.chain hwithin
    hab (List.isChain_cons_cons.1 hpair).1

theorem Calm.hasRowLimit (h : Calm (outerText cs)) (d : Dialect) : d.hasRowLimit cs = false := by
  rw [← Bool.not_eq_true]
  cases d with
  | postgres =>
    rw [Dialect.hasRowLimit_postgres]
    intro hmem
    have hmi : ['m', 'i'] <:+: "limit".toList := by decide
    exact h.not_infix (by decide) (hmi.trans (isInfix_of_mem_words hmem))
  | sqlServer =>
    rw [Dialect.hasRowLimit_sqlServer]
    rintro (hselect | hdistinct)
    · have hop : ['o', 'p'] <:+: "select top ".toList := by decide
      exact h.not_infix (by decide) (hop.trans hselect)
    · have hop : ['o', 'p'] <:+: "distinct top ".toList := by decide
      exact h.not_infix (by decide) (hop.trans hdistinct)

/-- Text without marks that is calm. -/
structure Quiet (cs : List Char) : Prop where
  unmarked : Unmarked cs
  calm : Calm (cs.map Char.toLower)

instance (cs : List Char) : Decidable (Quiet cs) :=
  decidable_of_iff (Unmarked cs ∧ Calm (cs.map Char.toLower))
    ⟨fun ⟨hu, hc⟩ => ⟨hu, hc⟩, fun ⟨hu, hc⟩ => ⟨hu, hc⟩⟩

theorem Quiet.append (h : Quiet xs) (h' : Quiet ys) : Quiet (xs ++ ys) where
  unmarked := unmarked_append.2 ⟨h.unmarked, h'.unmarked⟩
  calm := by
    rw [List.map_append]
    exact h.calm.append h'.calm

theorem toLower_of_isDigit {c : Char} (h : c.isDigit = true) : c.toLower = c := by
  refine dif_neg fun hupper => ?_
  simp only [Char.isDigit, Bool.and_eq_true, decide_eq_true_eq] at h
  have hle := UInt32.le_trans hupper.1 h.2
  revert hle
  decide

theorem quiet_toString (n : Nat) : Quiet (toString n).toList where
  unmarked := unmarked_toString n
  calm := by
    refine calm_of_forall fun c hc => ?_
    obtain ⟨digit, hmem, rfl⟩ := List.mem_map.1 hc
    have hdigit := isDigit_toString hmem
    rw [toLower_of_isDigit hdigit]
    constructor <;> rintro rfl <;> cases hdigit

theorem quiet_nil : Quiet [] := by decide

theorem quiet_placeholder (n : Nat) : Quiet (d.placeholder n).toList := by
  cases d with
  | postgres =>
    rw [Dialect.placeholder, String.toList_append]
    exact .append (by decide) (quiet_toString n)
  | sqlServer =>
    rw [Dialect.placeholder, String.toList_append]
    exact .append (by decide) (quiet_toString _)

/-! ## Groups -/

/-- The text leads out of some groups and into others, and is calm. -/
structure Leads (i j : Nat) (cs : List Char) : Prop where
  after : ∀ k, (Level.inGroups (k + i)).after cs = Level.inGroups (k + j)
  calm : ∀ k, Calm ((Level.inGroups (k + i)).outer cs)

namespace Leads

theorem nil : Leads i i [] := ⟨fun _ => rfl, fun k => by rw [Level.outer_nil]; exact calm_spaces 0⟩

theorem append (h : Leads i j xs) (h' : Leads j k ys) : Leads i k (xs ++ ys) where
  after n := by rw [Level.after_append, h.after, h'.after]
  calm n := by
    rw [Level.outer_append, h.after]
    exact (h.calm n).append (h'.calm n)

/-- What happens to some groups happens in others as well. -/
theorem inside (h : Leads i j cs) (m : Nat) : Leads (m + i) (m + j) cs where
  after k := by rw [← Nat.add_assoc, ← Nat.add_assoc, h.after]
  calm k := by rw [← Nat.add_assoc]; exact h.calm _

theorem of_hides (h : ∀ k, (Level.inGroups (k + i)).Hides cs (Level.inGroups (k + j))) :
    Leads i j cs :=
  ⟨fun k => (h k).after, fun k => by rw [(h k).outer]; exact calm_spaces _⟩

theorem quiet (h : Quiet cs) : Leads i i cs where
  after k := Level.after_unmarked (Level.valid_inGroups _) h.unmarked
  calm k := by
    by_cases htop : Level.inGroups (k + i) = Level.top
    · rw [htop, Level.outer_unmarked h.unmarked]
      exact h.calm
    · rw [(Level.hides_unmarked (Level.valid_inGroups _) htop h.unmarked).outer]
      exact calm_spaces _

theorem opening (h : Quiet cs) : Leads 0 1 (cs ++ ['(']) :=
  (quiet h).append (of_hides fun _ => .cons (Level.shown_mark rfl (by decide) _) .nil)

theorem closing (h : Quiet xs) (h' : Quiet ys) : Leads 1 0 (xs ++ ')' :: ys) :=
  have hclose : Leads 1 0 [')'] :=
    of_hides fun _ => .cons (Level.shown_mark rfl (by decide) _) .nil
  (quiet h).append (hclose.append (quiet h'))

theorem group : Leads 0 1 "(".toList := opening quiet_nil

theorem groupEnd : Leads 1 0 ")".toList := closing quiet_nil quiet_nil

end Leads

/-! ## Fragments -/

/-- The text of the fragment leads back into the groups where it begins, and is calm. -/
def Steady (d : Dialect) (f : Fragment) : Prop := ∀ n, Leads 0 0 (f.sqlFrom d n).toList

namespace Steady

variable {f g : Fragment} {s t : String}

theorem nil : Steady d [] := fun _ => .nil

theorem append (hf : Steady d f) (hg : Steady d g) : Steady d (f ++ g) := fun n => by
  rw [Fragment.toList_sqlFrom_append]
  exact (hf n).append (hg _)

theorem lead (hs : Leads 0 i s.toList) (hf : ∀ n, Leads i 0 (f.sqlFrom d n).toList) :
    Steady d (.text s :: f) := fun n => by
  rw [toList_sqlFrom_text]
  exact hs.append (hf n)

theorem text (h : Quiet s.toList) (hf : Steady d f) : Steady d (.text s :: f) := lead (.quiet h) hf

/-- What is steady is so in a group. -/
theorem grouped (hs : Leads 0 1 s.toList) (hf : Steady d f) (ht : Leads 1 0 t.toList) :
    Steady d (.text s :: (f ++ [.text t])) := lead hs fun n => by
  rw [Fragment.toList_sqlFrom_append, toList_sqlFrom_text]
  exact ((hf n).inside 1).append (ht.append .nil)

theorem name (h : d.Shut s) : Steady d [.name s] := fun n => by
  rw [toList_sqlFrom_name]
  exact (Leads.of_hides (i := 0) (j := 0) (Level.hides_quote h)).append .nil

theorem bind (v : Value) : Steady d [.bind v] := fun n => by
  rw [toList_sqlFrom_bind]
  exact (Leads.quiet (quiet_placeholder n)).append .nil

theorem joined {α : Type} {part : α → Fragment} (h : Quiet s.toList) (as : List α)
    (hf : ∀ a ∈ as, Steady d (part a)) : Steady d (Fragment.joined s (as.map part)) := by
  induction as with
  | nil => exact .nil
  | cons a as ih =>
    rw [List.forall_mem_cons] at hf
    cases as with
    | nil => exact hf.1
    | cons b as => exact hf.1.append ((ih hf.2).text h)

theorem closed (hf : Steady d f) : Closed (f.sql d).toList := (hf 1).after 0

/-- A steady statement has no cap. -/
theorem hasRowLimit (hf : Steady d f) : d.hasRowLimit (f.sql d).toList = false :=
  ((hf 1).calm 0).hasRowLimit d

end Steady

end RecordGraph
