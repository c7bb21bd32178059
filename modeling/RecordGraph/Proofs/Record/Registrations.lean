/-
  Fields by their registrations.

  * `Access.value?`, `Access.write` and `Access.collection`: what an access reads, writes and finds,
    without a name by which it is reached.
  * `fields_of_registrations`: whatever a type registers, and however often under one name, reading,
    writing, finding collections and comparing go through one access for every name, the one
    registered last.
-/
import RecordGraph.Proofs.Record.FieldTable
import RecordGraph.Record.Identity

namespace RecordGraph

variable {τ : Type}

/-! ## Accesses -/

namespace Access

/-- The value that an access reads, stored or computed. -/
def value? (r : Record) : Access τ → Option Value
  | .stored slot _ => some (r.scalar slot)
  | .computed get => some (get r)
  | .nested .. | .many .. => none

/-- Writes through an access, if it stores a value.  The name is the one that an error tells. -/
def write (name : String) (r : Record) (v : Value) : Access τ → Result (Option Record)
  | .stored slot type =>
    match type.normalize v with
    | .ok w => .ok (some (r.setSlot slot (.scalar w)))
    | .error e => .error (.decode name e.message)
  | .computed _ | .nested .. | .many .. => .ok none

variable [Model τ] [DecidableEq τ]

/-- The slot in which an access of a type finds records of the given type. -/
def collection (t : τ) (name : String) (child : τ) : Access τ → Except CollectionFault Nat
  | .many slot c =>
    if c = child then .ok slot
    else .error (.otherRecords (typeName t) name (typeName c) (typeName child))
  | .stored .. | .computed _ | .nested .. => .error (.notCollection (typeName t) name)

end Access

/-! ## By name -/

section

variable [Model τ] (t : τ)

theorem flatValue_eq (r : Record) (name : String) :
    flatValue t r name = ((fieldsOf t).get? name).bind (Access.value? r) := by
  unfold flatValue
  rcases (fieldsOf t).get? name with _ | _ | _ | _ | _ <;> rfl

theorem setField_eq (r : Record) (name : String) (v : Value) :
    setField t r name v =
      ((fieldsOf t).get? name).elim (.ok none) (Access.write name r v) := by
  unfold setField
  rcases (fieldsOf t).get? name with _ | _ | _ | _ | _ <;> rfl

theorem collectionSlot_eq [DecidableEq τ] (name : String) (child : τ) :
    collectionSlot t name child = ((fieldsOf t).get? name).elim
      (.error (.noField (typeName t) name)) (Access.collection t name child) := by
  unfold collectionSlot
  rcases (fieldsOf t).get? name with _ | _ | _ | _ | _ <;> rfl

end

/-! ## Types made from registrations -/

section

variable [Model τ] [DecidableEq τ] {t : τ} {regs : List (String × Access τ)}

/-- Whatever a type registers (stored and computed values, nested records, collections), and however
    often under one name: index and entries of its fields agree; every name stands once, in the
    order of the first registrations, and no other name is there; and reading, writing, finding
    collections and comparing go through one access for every name, the one registered last, of
    whatever kind the earlier ones were. -/
theorem fields_of_registrations (h : fieldsOf t = .ofList regs) :
    (fieldsOf t).Consistent ∧
    (fieldsOf t).names = (regs.map Prod.fst).eraseDups ∧
    (∀ name, hasField t name = true ↔ name ∈ regs.map Prod.fst) ∧
    (∀ name, (fieldsOf t).get? name = FieldTable.latest regs name) ∧
    (∀ a b, differs t a b = (regs.map Prod.fst).eraseDups.any fun name =>
      (FieldTable.latest regs name).any fun access => accessDiffers access a b) ∧
    (∀ r name, flatValue t r name = (FieldTable.latest regs name).bind (Access.value? r)) ∧
    (∀ r name v, setField t r name v =
      (FieldTable.latest regs name).elim (.ok none) (Access.write name r v)) ∧
    ∀ name child, collectionSlot t name child = (FieldTable.latest regs name).elim
      (.error (.noField (typeName t) name)) (Access.collection t name child) := by
  have hconsistent : (fieldsOf t).Consistent := by
    rw [h]
    exact (FieldTable.ofList_spec regs).1
  have hnames : (fieldsOf t).names = (regs.map Prod.fst).eraseDups := by
    rw [h, FieldTable.names_ofList]
  have hget (name : String) : (fieldsOf t).get? name = FieldTable.latest regs name := by
    rw [h, FieldTable.get_ofList_eq]
  refine ⟨hconsistent, hnames, fun name => ?_, hget, fun a b => ?_, fun r name => ?_,
    fun r name v => ?_, fun name child => ?_⟩
  · rw [hasField, h, FieldTable.contains_ofList]
  · unfold differs
    rw [FieldTable.any_entries hconsistent fun access => accessDiffers access a b, hnames]
    simp only [hget]
  · rw [flatValue_eq, hget]
  · rw [setField_eq, hget]
  · rw [collectionSlot_eq, hget]

end

/-! ## Pages -/

/-- A type whose fields were given other kinds. -/
inductive Revised where
  | page
  deriving DecidableEq

namespace Revised

/-- The title was computed before it was stored, and the next page was a collection of pages. -/
def registrations : List (String × Access Revised) :=
  [("Id", .stored 0 (.plain (.int .i64))), ("Title", .computed fun r => r.scalar 0),
    ("Next", .many 3 page), ("Title", .stored 1 (.plain .text)), ("Next", .nested 2 page)]

/-- Pages that are told apart by their numbers. -/
def pageType : RecordType Revised :=
  { RecordType.ofMembers "Page"
      [⟨"Id", .scalar (.plain (.int .i64))⟩, ⟨"Title", .scalar (.plain .text)⟩,
        ⟨"Next", .nested page⟩, ⟨"Others", .many page⟩] 0 [] with
    fields := .ofList registrations }

instance : Model Revised := ⟨fun _ => pageType⟩

/-- Of a page, the number, the stored title and the number of the next page are compared. -/
theorem fields_of_page :
    fieldsOf page = .ofList registrations ∧
    (fieldsOf page).names = ["Id", "Title", "Next"] ∧
    (∀ a b, differs page a b = (!(a.scalar 0).eqv (b.scalar 0) ||
      (!(a.scalar 1).eqv (b.scalar 1) || accessDiffers (.nested 2 page) a b))) ∧
    (∀ r, flatValue page r "Title" = some (r.scalar 1)) ∧
    (∀ r s, setField page r "Title" (.text s) = .ok (some (r.setSlot 1 (.scalar (.text s))))) ∧
    collectionSlot page "Next" page = .error (.notCollection "Page" "Next") := by
  obtain ⟨-, hnames, -, -, hdiffers, hvalue, hwrite, hcollection⟩ :=
    fields_of_registrations (rfl : fieldsOf page = .ofList registrations)
  have honce : (registrations.map Prod.fst).eraseDups = ["Id", "Title", "Next"] := by decide
  refine ⟨rfl, hnames.trans honce, fun a b => ?_, fun r => hvalue r _, fun r s => hwrite r _ _,
    hcollection _ _⟩
  rw [hdiffers, honce]
  simp only [List.any_cons, List.any_nil, Bool.or_false]
  rfl

end Revised

end RecordGraph
