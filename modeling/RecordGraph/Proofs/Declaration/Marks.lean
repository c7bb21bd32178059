/-
  What marks say, whatever their order.

  * `Mark.ofField?` and `Mark.OfStruct` are the marks that are known, in the right form.
  * `FieldMarks.read_eq_ok`: the marks of a field are read exactly if all of them are known and
    no two give it different roles, and then they say `FieldMarks.said`.
  * `StructMarks.read_eq_ok` is the same for the marks of a struct.
-/
import Mathlib.Data.List.Basic
import Mathlib.Data.List.Induction
import RecordGraph.Declaration
import RecordGraph.Proofs.Mapping.Statements

namespace RecordGraph

/-! ## What follows a word -/

namespace MarkTail

theorem asEnd_eq_ok {t : MarkTail} (h : t.asEnd = .ok ()) : t = .nothing := by
  cases t <;> cases h
  rfl

theorem asText_eq_ok {t : MarkTail} {s : String} (h : t.asText = .ok s) : t = .text s := by
  cases t <;> cases h
  rfl

end MarkTail

/-! ## Marks of a field -/

/-- What one mark says of a field. -/
inductive FieldMark where
  | key
  | column (s : String)
  | nested
  | collection
  | skip
  | deleted
  | ghost
  | lastChange
  deriving DecidableEq

/-- The marks of a field, in the right form. -/
def Mark.ofField? : Mark → Option FieldMark
  | .word "id" .nothing => some .key
  | .word "column" (.text s) => some (.column s)
  | .word "nested" .nothing => some .nested
  | .word "collection" .nothing => some .collection
  | .word "skip" .nothing => some .skip
  | .word "deleted" .nothing => some .deleted
  | .word "ghost" .nothing => some .ghost
  | .word "last_change" .nothing => some .lastChange
  | _ => none

/-- The things that marks of a field set. -/
inductive FieldPart where
  | key
  | column
  | role
  | deleted
  | ghost
  | lastChange
  deriving DecidableEq

namespace FieldMark

/-- What the mark sets. -/
def part : FieldMark → FieldPart
  | key => .key
  | column _ => .column
  | nested => .role
  | collection => .role
  | skip => .role
  | deleted => .deleted
  | ghost => .ghost
  | lastChange => .lastChange

/-- The column that the mark gives. -/
def column? : FieldMark → Option String
  | column s => some s
  | _ => none

/-- The role that the mark gives. -/
def role? : FieldMark → Option FieldRole
  | nested => some .nested
  | collection => some .collection
  | skip => some .skip
  | _ => none

/-- No two marks give different roles. -/
def OneRole (ns : List FieldMark) : Prop :=
  ∀ n ∈ ns, ∀ n' ∈ ns, n.part = .role → n'.part = .role → n = n'

end FieldMark

/-- What marks of a field say together: the last column counts. -/
def FieldMarks.said (ns : List FieldMark) : FieldMarks where
  isKey := .key ∈ ns
  column := (ns.filterMap FieldMark.column?).getLast?
  role := (ns.filterMap FieldMark.role?).getLast?.getD .scalar
  isDeleted := .deleted ∈ ns
  isGhost := .ghost ∈ ns
  isLastChange := .lastChange ∈ ns

namespace FieldMark

theorem role_eq_some {n : FieldMark} {r : FieldRole} (h : n.role? = some r) :
    n.part = .role ∧ r ≠ .scalar := by
  cases n <;> cases h <;> exact ⟨rfl, by decide⟩

theorem eq_of_role {n n' : FieldMark} {r : FieldRole} (h : n.role? = some r)
    (h' : n'.role? = some r) : n = n' := by
  cases n <;> cases h <;> cases n' <;> cases h' <;> rfl

theorem exists_role {n : FieldMark} (h : n.part = .role) : ∃ r, n.role? = some r := by
  cases n <;> cases h <;> exact ⟨_, rfl⟩

/-- The mark added to what others say. -/
def addTo (m : FieldMarks) (n : FieldMark) : FieldMarks where
  isKey := n = .key || m.isKey
  column := n.column?.or m.column
  role := n.role?.getD m.role
  isDeleted := n = .deleted || m.isDeleted
  isGhost := n = .ghost || m.isGhost
  isLastChange := n = .lastChange || m.isLastChange

end FieldMark

namespace FieldMarks

theorem said_concat (ns : List FieldMark) (n : FieldMark) :
    said (ns ++ [n]) = n.addTo (said ns) := by
  have hlast {α : Type} (o : Option α) (as : List α) :
      (as ++ o.toList).getLast? = o.or as.getLast? := by
    cases o <;> simp
  have hlist {α : Type} (f : FieldMark → Option α) :
      (ns ++ [n]).filterMap f = ns.filterMap f ++ (f n).toList := by
    rw [List.filterMap_append]
    cases h : f n <;> simp [h]
  have hrole (r : Option FieldRole) (rs : List FieldRole) :
      (r.or rs.getLast?).getD .scalar = r.getD (rs.getLast?.getD .scalar) := by
    cases r <;> rfl
  simp only [said, FieldMark.addTo, hlist, hlast, hrole, List.mem_append, List.mem_singleton,
    Bool.decide_or, Bool.or_comm, eq_comm (a := n)]

/-- The mark gives no role other than the one there is. -/
def Admits (m : FieldMarks) (n : FieldMark) : Prop :=
  ∀ r, n.role? = some r → m.role = .scalar ∨ m.role = r

theorem add_role {m : FieldMarks} {k : Mark} {n : FieldMark} {r : FieldRole}
    (h : n.role? = some r) (hadd : m.add k = (m.setRole r >>= pure))
    (hto : n.addTo m = { m with role := r }) :
    (m.Admits n → m.add k = .ok (n.addTo m)) ∧
      (¬ m.Admits n → m.add k = .error .conflictingRoles) := by
  rw [hadd, bind_pure, hto]
  refine ⟨fun hm => if_pos (hm r h), fun hm => if_neg fun hr => hm fun r' h' => ?_⟩
  rw [h] at h'
  cases h'
  exact hr

/-- A known mark is taken, unless it gives another role. -/
theorem add_known {m : FieldMarks} {k : Mark} {n : FieldMark} (hk : k.ofField? = some n) :
    (m.Admits n → m.add k = .ok (n.addTo m)) ∧
      (¬ m.Admits n → m.add k = .error .conflictingRoles) := by
  have hfree (h : n.role? = none) (hadd : m.add k = .ok (n.addTo m)) :
      (m.Admits n → m.add k = .ok (n.addTo m)) ∧
        (¬ m.Admits n → m.add k = .error .conflictingRoles) :=
    ⟨fun _ => hadd, fun hm => (hm fun r hr => by rw [h] at hr; cases hr).elim⟩
  -- The known marks in the order of `Mark.ofField?`: only the third to fifth give a role.
  unfold Mark.ofField? at hk
  split at hk <;> cases hk
  case h_1 => exact hfree rfl rfl
  case h_2 => exact hfree rfl rfl
  case h_3 => exact add_role rfl rfl rfl
  case h_4 => exact add_role rfl rfl rfl
  case h_5 => exact add_role rfl rfl rfl
  case h_6 => exact hfree rfl rfl
  case h_7 => exact hfree rfl rfl
  case h_8 => exact hfree rfl rfl

/-- Only known marks are taken. -/
theorem known_of_add {m m' : FieldMarks} {k : Mark} (h : m.add k = .ok m') :
    ∃ n, k.ofField? = some n := by
  unfold add at h
  split at h
  · obtain ⟨s, hs, -⟩ := result_bind_ok.1 h
    rw [MarkTail.asText_eq_ok hs]
    exact ⟨_, rfl⟩
  · obtain ⟨m₁, hword, h⟩ := result_bind_ok.1 h
    obtain ⟨⟨⟩, hend, -⟩ := result_bind_ok.1 h
    rw [MarkTail.asEnd_eq_ok hend]
    unfold addWord at hword
    split at hword
    case h_8 => cases hword
    all_goals exact ⟨_, rfl⟩
  · cases h

/-! ## All marks of a field -/

theorem read_concat (ms : List Mark) (k : Mark) : read (ms ++ [k]) = (read ms >>= (·.add k)) := by
  simp [read, List.foldlM_append]

/-- There is no role, or it is that of one of the marks. -/
theorem role_said (ns : List FieldMark) :
    (said ns).role = .scalar ∧ (∀ n ∈ ns, n.part ≠ .role) ∨
      ∃ n ∈ ns, n.role? = some (said ns).role := by
  have hsaid : (said ns).role = (ns.filterMap FieldMark.role?).getLast?.getD .scalar := rfl
  cases hlast : (ns.filterMap FieldMark.role?).getLast? with
  | none =>
    refine .inl ⟨by rw [hsaid, hlast]; rfl, fun n hn hpart => ?_⟩
    obtain ⟨r, hr⟩ := FieldMark.exists_role hpart
    have hmem : r ∈ ns.filterMap FieldMark.role? := List.mem_filterMap.2 ⟨n, hn, hr⟩
    rw [List.getLast?_eq_none_iff.1 hlast] at hmem
    cases hmem
  | some r =>
    obtain ⟨n, hn, hr⟩ := List.mem_filterMap.1 (List.mem_of_getLast? hlast)
    exact .inr ⟨n, hn, by rw [hsaid, hlast]; exact hr⟩

theorem oneRole_concat {ns : List FieldMark} {n : FieldMark} :
    FieldMark.OneRole (ns ++ [n]) ↔ FieldMark.OneRole ns ∧ (said ns).Admits n := by
  constructor
  · intro h
    refine ⟨fun a ha b hb => h a (by simp [ha]) b (by simp [hb]), fun r hr => ?_⟩
    rcases role_said ns with ⟨hscalar, -⟩ | ⟨n', hn', hr'⟩
    · exact .inl hscalar
    · have hsame : n = n' := h n (by simp) n' (by simp [hn']) (FieldMark.role_eq_some hr).1
        (FieldMark.role_eq_some hr').1
      rw [← hsame, hr] at hr'
      cases hr'
      exact .inr rfl
  · rintro ⟨hone, hadmits⟩
    -- All marks of `ns` that give a role are the one whose role there is, and so is `n`.
    have hnew : ∀ a ∈ ns, a.part = .role → n.part = .role → a = n := by
      intro a ha hpa hpn
      obtain ⟨r, hr⟩ := FieldMark.exists_role hpn
      rcases role_said ns with ⟨-, hnone⟩ | ⟨n', hn', hr'⟩
      · exact (hnone a ha hpa).elim
      · rcases hadmits r hr with h | h
        · exact ((FieldMark.role_eq_some hr').2 h).elim
        · rw [hone a ha n' hn' hpa (FieldMark.role_eq_some hr').1]
          exact FieldMark.eq_of_role (hr'.trans (congrArg some h)) hr
    intro a ha b hb hpa hpb
    rcases List.mem_append.1 ha with ha | ha <;> rcases List.mem_append.1 hb with hb | hb
    · exact hone a ha b hb hpa hpb
    · rw [List.mem_singleton.1 hb] at hpb ⊢
      exact hnew a ha hpa hpb
    · rw [List.mem_singleton.1 ha] at hpa ⊢
      exact (hnew b hb hpb hpa).symm
    · rw [List.mem_singleton.1 ha, List.mem_singleton.1 hb]

/-- Only known marks are read. -/
theorem known_of_read {ms : List Mark} {m : FieldMarks} (h : read ms = .ok m) :
    ∀ k ∈ ms, ∃ n, k.ofField? = some n := by
  induction ms using List.reverseRecOn generalizing m with
  | nil => nofun
  | append_singleton ms k ih =>
    rw [read_concat] at h
    obtain ⟨m', hread, hadd⟩ := result_bind_ok.1 h
    intro k' hk'
    rcases List.mem_append.1 hk' with hk' | hk'
    · exact ih hread k' hk'
    · rw [List.mem_singleton.1 hk']
      exact known_of_add hadd

/-- Known marks are read, unless they give different roles. -/
theorem read_known {ms : List Mark} (h : ∀ k ∈ ms, ∃ n, k.ofField? = some n) :
    (FieldMark.OneRole (ms.filterMap Mark.ofField?) →
      read ms = .ok (said (ms.filterMap Mark.ofField?))) ∧
    (¬ FieldMark.OneRole (ms.filterMap Mark.ofField?) → read ms = .error .conflictingRoles) := by
  induction ms using List.reverseRecOn with
  | nil => exact ⟨fun _ => rfl, fun hone => (hone nofun).elim⟩
  | append_singleton ms k ih =>
    obtain ⟨ihone, ihnot⟩ := ih fun k' hk' => h k' (by simp [hk'])
    obtain ⟨n, hn⟩ := h k (by simp)
    have hns : (ms ++ [k]).filterMap Mark.ofField? = ms.filterMap Mark.ofField? ++ [n] := by
      simp [hn]
    rw [hns, oneRole_concat, read_concat, said_concat]
    constructor
    · rintro ⟨hone, hadmits⟩
      rw [ihone hone]
      exact (add_known hn).1 hadmits
    · intro hnot
      by_cases hone : FieldMark.OneRole (ms.filterMap Mark.ofField?)
      · rw [ihone hone]
        exact (add_known hn).2 fun hadmits => hnot ⟨hone, hadmits⟩
      · rw [ihnot hone]
        rfl

/-- The marks of a field are read exactly if all of them are known and no two give different
    roles. -/
theorem read_eq_ok {ms : List Mark} {m : FieldMarks} : read ms = .ok m ↔
    (∀ k ∈ ms, ∃ n, k.ofField? = some n) ∧
      FieldMark.OneRole (ms.filterMap Mark.ofField?) ∧
      m = said (ms.filterMap Mark.ofField?) := by
  constructor
  · intro h
    have hknown := known_of_read h
    by_cases hone : FieldMark.OneRole (ms.filterMap Mark.ofField?)
    · rw [(read_known hknown).1 hone] at h
      cases h
      exact ⟨hknown, hone, rfl⟩
    · rw [(read_known hknown).2 hone] at h
      cases h
  · rintro ⟨hknown, hone, rfl⟩
    exact (read_known hknown).1 hone

end FieldMarks

/-! ## Another order -/

/-- The marks in another order, in which those that set the same thing keep theirs. -/
def Reordered (ms ms' : List Mark) : Prop :=
  ms.Perm ms' ∧ ∀ p : FieldPart,
    (ms.filterMap Mark.ofField?).filter (fun n => n.part = p) =
      (ms'.filterMap Mark.ofField?).filter (fun n => n.part = p)

section

variable {ns ns' : List FieldMark}
  (h : ∀ p : FieldPart, ns.filter (fun n => n.part = p) = ns'.filter (fun n => n.part = p))

include h

theorem mem_of_parts (n : FieldMark) : n ∈ ns ↔ n ∈ ns' := by
  have hmem (as : List FieldMark) : n ∈ as ↔ n ∈ as.filter (fun a => a.part = n.part) := by
    simp
  rw [hmem ns, h, ← hmem ns']

theorem filterMap_of_parts {α : Type} {f : FieldMark → Option α} {p : FieldPart}
    (hf : ∀ n a, f n = some a → n.part = p) : ns.filterMap f = ns'.filterMap f := by
  have hpart (as : List FieldMark) :
      as.filterMap f = (as.filter fun n => n.part = p).filterMap f := by
    rw [List.filterMap_filter]
    refine List.filterMap_congr fun n _ => ?_
    cases hn : f n with
    | none => simp
    | some a => simp [hf n a hn]
  rw [hpart ns, h, ← hpart ns']

theorem said_of_parts : FieldMarks.said ns = FieldMarks.said ns' := by
  have hcolumn : ns.filterMap FieldMark.column? = ns'.filterMap FieldMark.column? :=
    filterMap_of_parts h fun n s hs => by cases n <;> cases hs; rfl
  have hrole : ns.filterMap FieldMark.role? = ns'.filterMap FieldMark.role? :=
    filterMap_of_parts h fun n r hr => (FieldMark.role_eq_some hr).1
  simp only [FieldMarks.said, mem_of_parts h, hcolumn, hrole]

theorem oneRole_of_parts : FieldMark.OneRole ns ↔ FieldMark.OneRole ns' := by
  simp only [FieldMark.OneRole, mem_of_parts h]

end

namespace FieldMarks

variable {ms ms' : List Mark}

theorem known_of_reordered (h : Reordered ms ms') :
    (∀ k ∈ ms, ∃ n, k.ofField? = some n) ↔ ∀ k ∈ ms', ∃ n, k.ofField? = some n := by
  simp only [h.1.mem_iff]

/-- What marks say does not depend on the order of those that set different things. -/
theorem read_reordered (h : Reordered ms ms') (m : FieldMarks) :
    read ms = .ok m ↔ read ms' = .ok m := by
  rw [read_eq_ok, read_eq_ok, known_of_reordered h, oneRole_of_parts h.2, said_of_parts h.2]

/-- Nor does the complaint about known marks. -/
theorem read_reordered_known (h : Reordered ms ms') (hknown : ∀ k ∈ ms, ∃ n, k.ofField? = some n) :
    read ms = read ms' := by
  have hknown' := (known_of_reordered h).1 hknown
  by_cases hone : FieldMark.OneRole (ms.filterMap Mark.ofField?)
  · rw [(read_known hknown).1 hone, (read_known hknown').1 ((oneRole_of_parts h.2).1 hone),
      said_of_parts h.2]
  · rw [(read_known hknown).2 hone,
      (read_known hknown').2 fun hone' => hone ((oneRole_of_parts h.2).2 hone')]

end FieldMarks

/-! ## Marks of a struct -/

/-- What one mark says of a struct. -/
inductive StructMark where
  | name (s : String)
  | schema (s : String)
  | table (s : String)

/-- The marks of a struct, in the right form. -/
def Mark.ofStruct? : Mark → Option StructMark
  | .word "name" (.text s) => some (.name s)
  | .word "schema" (.text s) => some (.schema s)
  | .word "table" (.text s) => some (.table s)
  | _ => none

namespace StructMark

def name? : StructMark → Option String
  | name s => some s
  | _ => none

def schema? : StructMark → Option String
  | schema s => some s
  | _ => none

def table? : StructMark → Option String
  | table s => some s
  | _ => none

end StructMark

namespace StructMarks

/-- What marks of a struct say together: the last of each kind counts. -/
def said (ns : List StructMark) : StructMarks where
  name := (ns.filterMap StructMark.name?).getLast?
  schema := (ns.filterMap StructMark.schema?).getLast?
  table := (ns.filterMap StructMark.table?).getLast?

theorem add_eq_ok {ns : List StructMark} {k : Mark} {m : StructMarks} :
    (said ns).add k = .ok m ↔ ∃ n, k.ofStruct? = some n ∧ m = said (ns ++ [n]) := by
  constructor
  · intro h
    unfold add at h
    split at h
    case h_4 => cases h
    case h_5 => cases h
    all_goals
      obtain ⟨s, hs, h⟩ := result_bind_ok.1 h
      cases h
      rw [MarkTail.asText_eq_ok hs]
      exact ⟨_, rfl, by simp [said, List.filterMap_append, StructMark.name?, StructMark.schema?,
        StructMark.table?]⟩
  · rintro ⟨n, hn, rfl⟩
    unfold Mark.ofStruct? at hn
    split at hn <;> cases hn
    all_goals
      simp [add, said, MarkTail.asText, List.filterMap_append, StructMark.name?,
        StructMark.schema?, StructMark.table?, bind, Except.bind, pure, Except.pure]

/-- The marks of a struct are read exactly if all of them are known. -/
theorem read_eq_ok {ms : List Mark} {m : StructMarks} : read ms = .ok m ↔
    (∀ k ∈ ms, ∃ n, k.ofStruct? = some n) ∧ m = said (ms.filterMap Mark.ofStruct?) := by
  induction ms using List.reverseRecOn generalizing m with
  | nil => exact ⟨fun h => ⟨nofun, by cases h; rfl⟩, fun h => by rw [h.2]; rfl⟩
  | append_singleton ms k ih =>
    have hread : read (ms ++ [k]) = (read ms >>= (·.add k)) := by
      simp [read, List.foldlM_append]
    rw [hread, result_bind_ok]
    constructor
    · rintro ⟨m', hm', hadd⟩
      obtain ⟨hknown, rfl⟩ := ih.1 hm'
      obtain ⟨n, hn, rfl⟩ := add_eq_ok.1 hadd
      refine ⟨fun k' hk' => ?_, by simp [hn]⟩
      rcases List.mem_append.1 hk' with hk' | hk'
      · exact hknown k' hk'
      · rw [List.mem_singleton.1 hk']
        exact ⟨n, hn⟩
    · rintro ⟨hknown, rfl⟩
      obtain ⟨n, hn⟩ := hknown k (by simp)
      exact ⟨_, ih.2 ⟨fun k' hk' => hknown k' (by simp [hk']), rfl⟩,
        add_eq_ok.2 ⟨n, hn, by simp [hn]⟩⟩

end StructMarks

end RecordGraph
