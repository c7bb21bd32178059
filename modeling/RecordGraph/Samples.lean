/-
  Sample record types: customers and orders, shops, projects, and a few types at
  the edges of what a type may be.
-/
import RecordGraph.Record.Type

namespace RecordGraph

/-- The names of the sample types. -/
inductive Sample where
  | country
  | company
  | customer
  | orderLine
  | tag
  | order
  | employee
  | account
  | scalars
  | region
  | shop
  | stock
  | project
  | task
  | step
  | broken
  | odd
  deriving DecidableEq

namespace Sample

/-! ## Members -/

def scalarMember (name : String) (t : ScalarType) : Member Sample := ⟨name, .scalar (.plain t)⟩

def optionalMember (name : String) (t : ScalarType) : Member Sample :=
  ⟨name, .scalar (.optional t)⟩

def nestedMember (name : String) (target : Sample) : Member Sample := ⟨name, .nested target⟩

def manyMember (name : String) (child : Sample) : Member Sample := ⟨name, .many child⟩

/-- A number of 64 bits, such as a key. -/
def number (name : String) : Member Sample := scalarMember name (.int .i64)

def textMember (name : String) : Member Sample := scalarMember name .text

/-! ## Parts of records -/

/-- The integer in a slot. -/
def intAt (slot : Nat) (r : Record) : Int64 := (r.scalar slot).int?.getD 0

/-- A relation with other tables than the default ones. -/
def relationOf (property : String) (table : Option String) (read : Option ReadCommand)
    (childField : Option String) : RelationSpec :=
  { RelationSpec.ofProperty property with table := table, read := read, childField := childField }

/-! ## Types -/

/-- A type whose key is the first member. -/
def keyedBy (name : String) (members : List (Member Sample)) (settings : List (Setting Sample)) :
    RecordType Sample :=
  .ofMembers name members 0 settings

def customerMembers : List (Member Sample) :=
  [number "Id", textMember "Name", optionalMember "Birthday" .date, scalarMember "Active" .bool,
    nestedMember "Company" company, optionalMember "LastChange" .zoned]

/-- A customer as shown: name and key. -/
def displayName (r : Record) : Value :=
  .text ((r.scalar 1).display ++ " (" ++ (r.scalar 0).display ++ ")")

def customerType : RecordType Sample :=
  { keyedBy "Customer" customerMembers [] with
    fields := .ofList (memberFields customerMembers ++ [("DisplayName", .computed displayName)])
    lastChange := fun r => r.moment? 5 }

def accountType : RecordType Sample :=
  { keyedBy "Client"
      [number "AccountNo", textMember "FullName", scalarMember "Removed" .bool,
        scalarMember "Archived" .bool, scalarMember "Touched" .zoned,
        nestedMember "Referrer" account]
      [.named "Clients", .id "AccountNo", .readOnly ["AccountNo"]] with
    isDeleted := fun r => r.flag 2
    isGhost := fun r => r.flag 3
    lastChange := fun r => r.moment? 4 }

def scalarMembers : List (Member Sample) :=
  [number "Id", scalarMember "I16" (.int .i16), scalarMember "I32" (.int .i32),
    scalarMember "U8" (.int .u8), scalarMember "U16" (.int .u16), scalarMember "U32" (.int .u32),
    scalarMember "F32" .single, scalarMember "F64" .double, scalarMember "Flag" .bool,
    textMember "Text", scalarMember "Uid" .uuid, scalarMember "Ts" .zoned,
    scalarMember "Dt" .naive, scalarMember "Day" .date, scalarMember "Raw" .bytes,
    scalarMember "Doc" .json, optionalMember "OptInt" (.int .i32), optionalMember "OptText" .text,
    optionalMember "OptUid" .uuid, optionalMember "OptFloat" .double]

/-- The sum of the two smallest integers of a record. -/
def bits (r : Record) : Value := .int (intAt 3 r + intAt 1 r)

def scalarsType : RecordType Sample :=
  { keyedBy "Scalars" scalarMembers [] with
    fields := .ofList (memberFields scalarMembers ++ [("Bits", .computed bits)]) }

def stockType : RecordType Sample :=
  { keyedBy "Stock"
      [number "WarehouseId", number "ItemId", scalarMember "Qty" (.int .i32),
        scalarMember "Saved" .bool]
      [.keys ["WarehouseId", "ItemId"], .includeIdInInsert, .readOnly ["ItemId", "Saved"]] with
    isNew := fun r => !r.flag 3 }

def projectType : RecordType Sample :=
  keyedBy "Project"
    [number "Id", textMember "Title", manyMember "Tasks" task, manyMember "Members" employee]
    [.table "work" "Projects", .orderBy "Title", .orderBy "Id", .direction true,
      .relation .oneToMany task (relationOf "Tasks" (some "work.Tasks") none none),
      .relation .manyToMany employee
        (relationOf "Members" none (some (.source "work.ProjectStaff")) (some "PersonId"))]

def oddMembers : List (Member Sample) :=
  [number "Id", number "First", number "OddId", number "PeerId", nestedMember "Peer" odd,
    textMember "Größe", textMember "Twice", textMember "A.B", manyMember "Kids" odd]

/-- The field `Twice` is registered twice, and the number under its first
    registration is out of reach. -/
def oddType : RecordType Sample :=
  { keyedBy "Odd" oddMembers [] with
    fields := .ofList ((memberFields oddMembers).map fun (name, a) =>
      (if name = "First" then "Twice" else name, a)) }

/-- The type of each name. -/
def type : Sample → RecordType Sample
  | country => keyedBy "Country" [number "Id", textMember "Name"] []
  | company =>
    keyedBy "Company" [number "Id", textMember "Name", nestedMember "Country" country] []
  | customer => customerType
  | orderLine =>
    keyedBy "OrderLine"
      [number "Id", number "OrderId", textMember "Product", scalarMember "Qty" (.int .i32)]
      [.schema "sales"]
  | tag => keyedBy "Tag" [number "Id", textMember "Name"] [.schema "sales"]
  | order =>
    keyedBy "Order"
      [number "Id", nestedMember "Customer" customer, scalarMember "Total" .double,
        manyMember "Lines" orderLine, manyMember "Tags" tag]
      [.schema "sales"]
  | employee =>
    keyedBy "Employee" [number "Id", textMember "Name", nestedMember "Manager" employee] []
  | account => accountType
  | scalars => scalarsType
  | region =>
    keyedBy "Region" [textMember "Code", textMember "Title", manyMember "Shops" shop]
      [.schema "geo", .id "Code", .includeIdInInsert]
  | shop =>
    keyedBy "Shop"
      [scalarMember "Id" .uuid, textMember "Name", nestedMember "Region" region,
        manyMember "Labels" tag, manyMember "Accounts" account]
      [.table "geo" "Outlets"]
  | stock => stockType
  | project => projectType
  | task =>
    keyedBy "Task"
      [number "Id", textMember "Title", nestedMember "Project" project, manyMember "Steps" step]
      [.table "work" "Tasks",
        .relation .oneToMany step
          (relationOf "Steps" none (some (.function "work.steps_of")) none)]
  | step =>
    keyedBy "Step"
      [number "Id", number "TaskId", scalarMember "Done" .bool, optionalMember "Note" .text]
      [.named "Steps"]
  | broken => keyedBy "Broken" [number "Id"] [.direction true, .id "Nope"]
  | odd => oddType

instance : Model Sample := ⟨type⟩

end Sample

end RecordGraph
