/-
  Statements with their answers, and what some work may send.

  A run of a session is a list of exchanges.  `Answered` says that an executor gives the
  answers in it, and `FailsLast` that a statement that fails is the last one.

  `Steps ρ` says which exchanges some work may have, depending on the answers, and what it
  comes to: `none` where it is broken off.  `AtMost p n` says of some steps that they send at
  most `n` statements of the kinds `p`.
-/
import Mathlib.Data.List.Basic
import RecordGraph.Session

namespace RecordGraph

variable {δ ι κ ρ : Type}

/-! ## Exchanges -/

/-- What the executor has answered to a statement. -/
inductive Response where
  | rows (answer : Result (List Row))
  | changed (answer : Result Nat)
  | columns (answer : Result (List String))

/-- How the statement was sent. -/
def Response.via : Response → Via
  | rows _ => .query
  | changed _ => .execute
  | columns _ => .describe

/-- The statement has failed. -/
def Response.failed : Response → Bool
  | rows answer => !answer.isOk
  | changed answer => !answer.isOk
  | columns answer => !answer.isOk

/-- A statement and the answer to it. -/
structure Exchange where
  statement : Statement
  response : Response

def Exchange.request (x : Exchange) : Request := ⟨x.response.via, x.statement⟩

/-- What the executor answers to a request, and what it knows then. -/
def Executor.response (e : Executor δ) (q : Request) (database : δ) : Response × δ :=
  match q.via with
  | .query => let (answer, database') := e.query q.statement database; (.rows answer, database')
  | .execute =>
    let (answer, database') := e.execute q.statement database; (.changed answer, database')
  | .describe =>
    let (answer, database') := e.describe q.statement database; (.columns answer, database')

/-- The executor gives these answers, one after the other. -/
inductive Answered (e : Executor δ) : δ → List Exchange → δ → Prop
  | nil {database : δ} : Answered e database [] database
  | cons {database database' : δ} {x : Exchange} {xs : List Exchange} :
      (e.response x.request database).1 = x.response →
      Answered e (e.response x.request database).2 xs database' →
      Answered e database (x :: xs) database'

theorem Answered.append {e : Executor δ} {database database₁ database' : δ}
    {xs ys : List Exchange} (h : Answered e database xs database₁)
    (h' : Answered e database₁ ys database') : Answered e database (xs ++ ys) database' := by
  induction h with
  | nil => exact h'
  | cons hx _ ih => exact .cons hx (ih h')

theorem Answered.single_query {e : Executor δ} {database database' : δ} {xs : List Exchange}
    {s : Statement} (h : Answered e database xs database')
    (hxs : xs.map Exchange.request = [⟨.query, s⟩]) :
    xs = [⟨s, .rows (e.query s database).1⟩] := by
  cases h with
  | nil => cases hxs
  | @cons _ _ x xs hx _ =>
    obtain ⟨hrequest, hrest⟩ := List.cons.inj hxs
    obtain rfl := List.map_eq_nil_iff.1 hrest
    rw [hrequest] at hx
    obtain ⟨statement, response⟩ := x
    obtain ⟨-, rfl⟩ := Request.mk.inj hrequest
    obtain rfl : Response.rows (e.query statement database).1 = response := hx
    rfl

/-- A statement that fails is the last one, and then the work is broken off. -/
def FailsLast (xs : List Exchange) (whole : Bool) : Prop :=
  ∀ ys x zs, xs = ys ++ x :: zs → x.response.failed = true → zs = [] ∧ whole = false

theorem FailsLast.answered {xs : List Exchange} (h : FailsLast xs true) :
    ∀ x ∈ xs, x.response.failed = false := by
  intro x hx
  obtain ⟨ys, zs, rfl⟩ := List.append_of_mem hx
  by_contra hfailed
  obtain ⟨-, h⟩ := h ys x zs rfl (by simpa using hfailed)
  cases h

theorem FailsLast.append {xs ys : List Exchange} {whole : Bool} (h : FailsLast xs true)
    (h' : FailsLast ys whole) : FailsLast (xs ++ ys) whole := by
  intro before x after heq hfailed
  rcases List.append_eq_append_iff.1 heq with ⟨rest, rfl, hys⟩ | ⟨rest, rfl, hxs⟩
  · exact h' rest x after hys hfailed
  · cases rest with
    | nil => exact h' [] x after hxs.symm hfailed
    | cons x' rest =>
      obtain ⟨rfl, -⟩ := List.cons.inj hxs
      rw [h.answered x (by simp)] at hfailed
      cases hfailed

theorem failsLast_nil (whole : Bool) : FailsLast [] whole := by
  intro ys x zs h
  simp at h

theorem failsLast_single {x : Exchange} {whole : Bool}
    (h : x.response.failed = true → whole = false) : FailsLast [x] whole := by
  intro ys y zs heq hfailed
  obtain ⟨rfl, rfl, rfl⟩ : ys = [] ∧ y = x ∧ zs = [] := by
    cases ys with
    | nil => simpa [eq_comm] using heq
    | cons y' ys => simp at heq
  exact ⟨rfl, h hfailed⟩

/-! ## Steps -/

/-- Which exchanges some work may have, and what it comes to; `none` if it is broken off. -/
def Steps (ρ : Type) := List Exchange → Option ρ → Prop

namespace Steps

/-- Nothing is sent. -/
def given (y : Option ρ) : Steps ρ := fun xs out => xs = [] ∧ out = y

@[inherit_doc given]
def ofResult (r : Result ρ) : Steps ρ := given r.toOption

/-- Nothing is sent, and it may be broken off. -/
def mayGive (y : ρ) : Steps ρ := fun xs out => xs = [] ∧ (out = none ∨ out = some y)

/-- There is no such work. -/
def never : Steps ρ := fun _ _ => False

/-- One after the other, unless the first is broken off. -/
def andThen (P : Steps ρ) (Q : ρ → Steps κ) : Steps κ := fun xs out =>
  (P xs none ∧ out = none) ∨ ∃ ys zs y, P ys (some y) ∧ Q y zs out ∧ xs = ys ++ zs

instance : Monad Steps where
  pure y := given (some y)
  bind := andThen

/-- A statement is sent, unless it cannot be made. -/
def send (response : Result ρ → Response) : Result Statement → Steps ρ
  | .error _ => given none
  | .ok s => fun xs out => ∃ answer, xs = [⟨s, response answer⟩] ∧ out = answer.toOption

def query : Result Statement → Steps (List Row) := send .rows

def execute : Result Statement → Steps Nat := send .changed

def describe : Result Statement → Steps (List String) := send .columns

/-- For each of some things, one after the other. -/
def each (P : ι → κ → Steps κ) : List ι → κ → Steps κ
  | [], y => pure y
  | i :: is, y => do each P is (← P i y)

theorem ofResult_ok (y : ρ) : ofResult (.ok y) = pure y := rfl

instance : LawfulMonad Steps := .mk' Steps
  (by
    intro ρ P
    funext xs out
    refine propext ⟨?_, fun h => ?_⟩
    · rintro (⟨h, rfl⟩ | ⟨ys, zs, y, h, ⟨rfl, rfl⟩, rfl⟩)
      · exact h
      · rwa [List.append_nil]
    · cases out with
      | none => exact .inl ⟨h, rfl⟩
      | some y => exact .inr ⟨xs, [], y, h, ⟨rfl, rfl⟩, (List.append_nil xs).symm⟩)
  (by
    intro ρ κ y Q
    funext xs out
    refine propext ⟨?_, fun h => .inr ⟨[], xs, y, ⟨rfl, rfl⟩, h, rfl⟩⟩
    rintro (⟨⟨-, h⟩, -⟩ | ⟨ys, zs, y, ⟨rfl, ⟨⟩⟩, h, rfl⟩)
    · cases h
    · exact h)
  (by
    intro ρ κ ι P Q R
    funext xs out
    refine propext ⟨?_, ?_⟩
    · rintro (⟨⟨h, -⟩ | ⟨ys, zs, y, hP, hQ, rfl⟩, rfl⟩ |
        ⟨-, xs', z, ⟨-, h⟩ | ⟨ys, zs, y, hP, hQ, rfl⟩, hR, rfl⟩)
      · exact .inl ⟨h, rfl⟩
      · exact .inr ⟨ys, zs, y, hP, .inl ⟨hQ, rfl⟩, rfl⟩
      · cases h
      · exact .inr ⟨ys, zs ++ xs', y, hP, .inr ⟨zs, xs', z, hQ, hR, rfl⟩, List.append_assoc ..⟩
    · rintro (⟨h, rfl⟩ | ⟨ys, zs, y, hP, ⟨hQ, rfl⟩ | ⟨zs', xs', z, hQ, hR, rfl⟩, rfl⟩)
      · exact .inl ⟨.inl ⟨h, rfl⟩, rfl⟩
      · exact .inl ⟨.inr ⟨ys, zs, y, hP, hQ, rfl⟩, rfl⟩
      · exact .inr ⟨ys ++ zs', xs', z, .inr ⟨ys, zs', y, hP, hQ, rfl⟩, hR,
          (List.append_assoc ..).symm⟩)

/-! ## Kinds of statements -/

theorem ofResult_bind_cases {r : Result ρ} {Q : ρ → Steps κ} {xs : List Exchange}
    {out : Option κ} (h : (ofResult r >>= Q) xs out) : xs = [] ∨ ∃ y, r = .ok y ∧ Q y xs out := by
  cases r with
  | error e =>
    obtain ⟨⟨rfl, -⟩, -⟩ | ⟨_, _, _, ⟨-, ⟨⟩⟩, -⟩ := h
    exact .inl rfl
  | ok y =>
    rw [ofResult_ok, pure_bind] at h
    exact .inr ⟨y, rfl, h⟩

/-- At most `n` statements of the given kinds are sent. -/
def AtMost (p : StatementKind → Bool) (n : Nat) (P : Steps ρ) : Prop :=
  ∀ xs out, P xs out → xs.countP (fun x => p x.statement.kind) ≤ n

section

variable {p : StatementKind → Bool} {n k : Nat} {P : Steps ρ} {Q : ρ → Steps κ}

theorem AtMost.given (y : Option ρ) : AtMost p n (Steps.given y) := by
  rintro xs out ⟨rfl, -⟩
  exact Nat.zero_le n

theorem AtMost.mayGive (y : ρ) : AtMost p n (Steps.mayGive y) := by
  rintro xs out ⟨rfl, -⟩
  exact Nat.zero_le n

theorem AtMost.bind (hP : AtMost p n P) (hQ : ∀ y, AtMost p k (Q y)) :
    AtMost p (n + k) (P >>= Q) := by
  rintro xs out (⟨h, rfl⟩ | ⟨ys, zs, y, h, h', rfl⟩)
  · exact Nat.le_trans (hP xs none h) (Nat.le_add_right n k)
  · rw [List.countP_append]
    exact Nat.add_le_add (hP ys _ h) (hQ y zs out h')

/-- Before steps that send no such statement. -/
theorem AtMost.bind_zero (hP : AtMost p n P) (hQ : ∀ y, AtMost p 0 (Q y)) :
    AtMost p n (P >>= Q) := hP.bind hQ

/-- After steps that send no such statement. -/
theorem AtMost.zero_bind (hP : AtMost p 0 P) (hQ : ∀ y, AtMost p n (Q y)) :
    AtMost p n (P >>= Q) := by
  have h := hP.bind hQ
  rwa [Nat.zero_add] at h

theorem AtMost.ofResult_bind {r : Result ρ} (h : ∀ y, r = .ok y → AtMost p n (Q y)) :
    AtMost p n (Steps.ofResult r >>= Q) := by
  intro xs out hxs
  obtain rfl | ⟨y, hy, hQ⟩ := ofResult_bind_cases hxs
  · exact Nat.zero_le n
  · exact h y hy xs out hQ

theorem AtMost.send {response : Result ρ → Response} {made : Result Statement}
    (h : ∀ s, made = .ok s → p s.kind = true → 1 ≤ n) : AtMost p n (Steps.send response made) := by
  cases made with
  | error e => exact .given none
  | ok s =>
    rintro xs out ⟨answer, rfl, -⟩
    cases hp : p s.kind with
    | false => simp [hp]
    | true => simpa [hp] using h s rfl hp

theorem AtMost.each {P : ι → κ → Steps κ} (h : ∀ i y, AtMost p 0 (P i y)) (is : List ι) (y : κ) :
    AtMost p 0 (Steps.each P is y) := by
  induction is generalizing y with
  | nil => exact .given _
  | cons i is ih => exact (h i y).bind_zero ih

/-- Where none of some kinds is sent, all statements are of other kinds. -/
theorem AtMost.forall (h : AtMost p 0 P) {xs : List Exchange} {out : Option ρ} (hP : P xs out) :
    ∀ x ∈ xs, p x.statement.kind = false := by
  intro x hx
  have hzero := List.countP_eq_zero.1 (Nat.le_zero.1 (h xs out hP)) x hx
  simpa using hzero

end

/-- A loop whose rounds have one property has another that these add up to. -/
theorem each_sends {P : ι → κ → Steps κ} {J K : List Exchange → Prop}
    (h : ∀ i y xs out, P i y xs out → J xs) (hnil : K [])
    (hcons : ∀ xs ys, J xs → K ys → K (xs ++ ys))
    {is : List ι} {y : κ} {xs : List Exchange} {out : Option κ} (hP : each P is y xs out) :
    K xs := by
  induction is generalizing y xs with
  | nil =>
    obtain ⟨rfl, -⟩ := hP
    exact hnil
  | cons i is ih =>
    rcases hP with ⟨hi, -⟩ | ⟨ys, zs, y', hi, his, rfl⟩
    · have hxs := hcons xs [] (h i y xs none hi) hnil
      rwa [List.append_nil] at hxs
    · exact hcons ys zs (h i y ys _ hi) (ih his)

end Steps

end RecordGraph
