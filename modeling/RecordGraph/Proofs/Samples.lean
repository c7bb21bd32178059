/-
  The sample types are sound, and records of them, maps and worlds: what the statements
  about sessions are tried on.
-/
import RecordGraph.Proofs.Catalog
import RecordGraph.Proofs.Mapping.Statements
import RecordGraph.Proofs.Row
import RecordGraph.Samples
import RecordGraph.Session.Script

namespace RecordGraph.Sample

/-! ## Types -/

theorem sound_odd : oddType.Sound := by
  refine RecordType.sound_of_registrations rfl (fun e he => ?_) ?_
  · obtain ⟨e', he', rfl⟩ := List.mem_map.1 he
    exact RecordType.fits_memberFields oddMembers e' he'
  · exact List.pairwise_map.2 (RecordType.apart_memberFields oddMembers)

/-- The fields of all sample types fit their members. -/
theorem sound : Model.Sound Sample := by
  intro t
  cases t with
  | customer => exact RecordType.sound_of_computed "DisplayName" displayName rfl
  | scalars => exact RecordType.sound_of_computed "Bits" bits rfl
  | odd => exact sound_odd
  | _ => exact RecordType.sound_of_members rfl

theorem holds_number (i : Int64) : IntType.Holds .i64 i.toInt := by
  have hlo := i.le_toInt
  have hhi := i.toInt_lt
  simp only [IntType.Holds, IntType.least, IntType.greatest, Nat.pow_eq]
  omega

/-- A number of 64 bits is stored as it is. -/
theorem normalize_number (i : Int64) :
    (FieldType.plain (.int .i64)).normalize (.int i) = .ok (.int i) := by
  have hread : (FieldType.plain (.int .i64)).read (.int i) = .ok ⟨i.toInt, holds_number i⟩ :=
    dif_pos (holds_number i)
  rw [FieldType.normalize, hread]
  exact congrArg (fun n => Except.ok (Value.int n)) (Int64.ofInt_toInt i)

/-! ## Sessions -/

/-- A lenient configuration that keeps what it is told. -/
def config : Config where
  dialect := .postgres
  strict := false
  logUnmapped := false
  traceSql := false
  typeIdAlias := true
  defaultSchema := none
  naming := .plural
  now := Moment.epoch
  staleColumn := none
  sink := .collect

/-- Statements are answered from a script. -/
def scripted : Env Script := ⟨config, Script.executor⟩

/-- Every statement changes one row. -/
def willing : Script := [⟨none, true, .affected 1⟩]

/-! ## Orders -/

def lineOf (id order : Int64) : Record :=
  .mk [.scalar (.int id), .scalar (.int order), .scalar (.text "nut"), .scalar (.int 1)]

def orderOf (id : Int64) (lines : List Record) : Record :=
  .mk [.scalar (.int id), .nested none, .scalar (.float Double.zero), .many (some lines),
    .many none]

def linesRelation : Relation Sample := ⟨.oneToMany, .orderLine, 3, .ofProperty "Lines"⟩

def orderMap : TableMap Sample where
  owner := .order
  schema := "sales"
  table := "Orders"
  keys := ["Id"]
  readOnly := ["Id"]
  generatedKey := true
  shortView := none
  fullView := none
  order := .none
  references := []
  relations := [linesRelation]

def lineMap : TableMap Sample :=
  { orderMap with owner := .orderLine, table := "OrderLines", relations := [] }

/-- A catalog that knows the map of order lines. -/
def lineCatalog : Catalog Sample := ⟨[(.orderLine, lineMap)], []⟩

theorem sound_lineCatalog : lineCatalog.Sound config where
  maps t m hm := by
    simp only [lineCatalog, Catalog.map?, List.lookup_cons, List.lookup_nil] at hm
    split at hm
    · rename_i heq
      cases hm
      exact ⟨(eq_of_beq heq).symm, fun _ hr => (List.not_mem_nil hr).elim, .nil⟩
    · cases hm
  mappers c rm hrm := by cases hrm

def lineWorld : World Sample Script := ⟨willing, [], [], [], lineCatalog⟩

/-! ## Tables of order lines -/

def lineColumns : List String := ["Id", "OrderId", "Product", "Qty"]

def lineRow (id order product qty : Value) : Row :=
  ⟨[("Id", id), ("OrderId", order), ("Product", product), ("Qty", qty)]⟩

def lineNames : ChildColumns := ⟨"Id", .plain (.int .i64), lineColumns, "OrderId"⟩

theorem writeValues_line (r : Record) : lineMap.writeValues r lineNames.all =
    [("OrderId", r.scalar 1), ("Product", r.scalar 2), ("Qty", r.scalar 3)] := rfl

theorem updateValues_line (r : Record) : lineMap.updateValues r lineNames.all =
    [("OrderId", r.scalar 1), ("Product", r.scalar 2), ("Qty", r.scalar 3)] := rfl

theorem typed_lineOf (id order : Int64) : Typed orderLine (lineOf id order) :=
  .mk (.cons (normalize_typed (normalize_number id))
    (.cons (normalize_typed (normalize_number order))
      (.cons (.scalar (t := .plain .text) "nut")
        (.cons (.scalar (t := .plain (.int .i32)) ⟨1, by decide⟩) .nil))))

/-- The key that the next row would get. -/
def nextLine (rows : List Row) : Value := .int (Int64.ofNat (100 + rows.length))

/-- A database that is nothing but a table of order lines.  It makes no key that is taken. -/
def lines (taken : List Value) : Executor (List Row) where
  query s rows :=
    match s.kind, s.params with
    | .select, [id] => (.ok (rows.filter fun row => row.holds "Id" id), rows)
    | .insert, [parent, product, qty] =>
      let id := nextLine rows
      if id.isUnsetKey || taken.any (fun u => u.eqv id) || rows.any (fun row => row.holds "Id" id)
      then (.error (.executor "no key left"), rows)
      else (.ok [⟨[("Id", id)]⟩], lineRow id parent product qty :: rows)
    | _, _ => (.ok [], rows)
  execute s rows :=
    match s.kind, s.params with
    | .delete, [id] => (.ok 1, rows.filter fun row => !row.holds "Id" id)
    | .update, [parent, product, qty, id] =>
      (.ok 1, rows.map fun row =>
        if row.holds "Id" id then
          row.overwritten [("OrderId", parent), ("Product", product), ("Qty", qty)]
        else row)
    | _, _ => (.ok 0, rows)
  describe _ rows := (.ok lineColumns, rows)

def keeping (taken : List Value) : Env (List Row) := ⟨config, lines taken⟩

/-- A world in which nothing has happened yet, with some order lines, each with its order. -/
def lined (ls : List (Int64 × Int64)) : World Sample (List Row) :=
  ⟨ls.map fun l => lineRow (.int l.1) (.int l.2) (.text "nut") (.int 1), [], [], [], lineCatalog⟩

theorem rows_lined {ls : List (Int64 × Int64)} (hset : ls.all fun l => !(l.1 == 0))
    (hd : ls.Pairwise fun a b => (a.1 == b.1) = false) : lineNames.Rows (lined ls).database where
  shape row hr := by
    obtain ⟨l, -, rfl⟩ := List.mem_map.1 hr
    rfl
  keys row hr := by
    obtain ⟨l, hl, rfl⟩ := List.mem_map.1 hr
    have hunset : (l.1 == 0) = false := by simpa using List.all_eq_true.1 hset l hl
    exact ⟨.int l.1, rfl, normalize_number l.1, hunset, by simp [Value.eqv]⟩
  distinct := List.pairwise_map.2 hd

/-! ## Tags -/

def tagOf (id : Int64) : Record := .mk [.scalar (.int id), .scalar (.text "")]

def taggedOrder (id : Int64) (tags : List Record) : Record :=
  .mk [.scalar (.int id), .nested none, .scalar (.float Double.zero), .many none,
    .many (some tags)]

theorem typed_taggedOrder (id : Int64) : Typed order (taggedOrder id []) :=
  .mk (.cons (normalize_typed (normalize_number id)) (.cons .unset
    (.cons (.scalar (t := .plain .double) Double.zero) (.cons .absent
      (.cons (.many fun _ hr => (List.not_mem_nil hr).elim) .nil)))))

def tagsRelation : Relation Sample := ⟨.manyToMany, .tag, 4, .ofProperty "Tags"⟩

def taggedMap : TableMap Sample := { orderMap with relations := [tagsRelation] }

theorem taggedMap_of : taggedMap.Of .order where
  owner := rfl
  found rel hr := by
    rw [List.mem_singleton.1 hr]
    rfl
  once := List.pairwise_singleton _ _

/-- Tags as an order has them if they are linked by their names. -/
def labelsSpec : RelationSpec :=
  { RelationSpec.ofProperty "Tags" with childField := some "Label", childProperty := some "Name" }

def labelsRelation : Relation Sample := ⟨.manyToMany, .tag, 4, labelsSpec⟩

/-- The map of orders that is registered with such tags. -/
def registeredLabels : Result (TableMap Sample) :=
  ((MapDraft.ofType order).tellAll [.relation .manyToMany tag labelsSpec]).finish config

def labelledMap : TableMap Sample := registeredLabels.toOption.getD orderMap

def labelRow : Row := ⟨[("OrderId", .int 7), ("Label", .text "late")]⟩

/-- A database that is nothing but the rows of a link table, orders with tags. -/
def links : Executor (List (Value × Value)) where
  query s rows :=
    match s.params with
    | [parent] =>
      (.ok ((rows.filter fun l => l.1.eqv parent).map fun l => ⟨[("TagId", l.2)]⟩), rows)
    | _ => (.ok [], rows)
  execute s rows :=
    match s.kind, s.params with
    | .delete, [parent, child] =>
      (.ok 1, rows.filter fun l => !(l.1.eqv parent && l.2.eqv child))
    | .insert, [parent, child] => (.ok 1, (parent, child) :: rows)
    | _, _ => (.ok 0, rows)
  describe _ rows := (.ok [], rows)

def linking : Env (List (Value × Value)) := ⟨config, links⟩

/-- A world in which nothing has happened yet, with the tags of some orders. -/
def tagged (rows : List (Int64 × Int64)) : World Sample (List (Value × Value)) :=
  .ofDatabase (rows.map fun l => (.int l.1, .int l.2))

/-! ## Projects -/

def projectOf (id : Int64) (tasks : Option (List Record)) : Record :=
  .mk [.scalar (.int id), .scalar (.text "p"), .many tasks, .many none]

def taskOf (id project : Int64) (title : String) (steps : Option (List Record)) : Record :=
  .mk [.scalar (.int id), .scalar (.text title), .nested (some (projectOf project none)),
    .many steps]

theorem typed_projectOf (id : Int64) : Typed project (projectOf id none) :=
  .mk (.cons (normalize_typed (normalize_number id)) (.cons (.scalar (t := .plain .text) "p")
    (.cons .absent (.cons .absent .nil))))

theorem typed_taskOf (id project : Int64) (title : String) :
    Typed task (taskOf id project title none) :=
  .mk (.cons (normalize_typed (normalize_number id)) (.cons (.scalar (t := .plain .text) title)
    (.cons (.nested (typed_projectOf project)) (.cons .absent .nil))))

def taskMap : TableMap Sample :=
  { orderMap with owner := .task, schema := "work", table := "Tasks", relations := [] }

def stepOf (id task : Int64) : Record :=
  .mk [.scalar (.int id), .scalar (.int task), .scalar (.bool false), .scalar .null]

def projectRow : Row := ⟨[("Id", .int 1), ("Title", .text "p")]⟩

def taskRow (title : String) : Row :=
  ⟨[("Id", .int 5), ("Title", .text title), ("ProjectId", .int 1)]⟩

def stepRow : Row := ⟨[("Id", .int 9), ("TaskId", .int 5)]⟩

/-- The answers to the save of project 1 itself, which is stored with task 5. -/
def projectAnswers : List Answer :=
  [.rows [projectRow], .affected 1, .rows [taskRow "t"], .rows [], .rows [projectRow]]

/-- The answers to the save of task 5 under a new title and with one new step. -/
def taskAnswers : List Answer :=
  [.rows [taskRow "t"], .affected 1, .rows [], .rows [taskRow "new"],
    .columns ["Id", "TaskId", "Done", "Note"], .rows [stepRow], .rows [stepRow]]

/-- Project 1 with task 5, which carries a new step. -/
def projectWithStep (title : String) : Record :=
  projectOf 1 (some [taskOf 5 1 title (some [stepOf 0 0])])

theorem typed_stepOf (id task : Int64) : Typed step (stepOf id task) :=
  .mk (.cons (normalize_typed (normalize_number id))
    (.cons (normalize_typed (normalize_number task)) (.cons (.scalar (t := .plain .bool) false)
      (.cons (.scalar (t := .optional .text) none) .nil))))

theorem typed_projectWithStep (title : String) : Typed project (projectWithStep title) := by
  have htask : Typed task (taskOf 5 1 title (some [stepOf 0 0])) :=
    .mk (.cons (normalize_typed (normalize_number 5)) (.cons (.scalar (t := .plain .text) title)
      (.cons (.nested (typed_projectOf 1)) (.cons (.many fun c hc => by
        rw [List.mem_singleton.1 hc]; exact typed_stepOf 0 0) .nil))))
  exact .mk (.cons (normalize_typed (normalize_number 1)) (.cons (.scalar (t := .plain .text) "p")
    (.cons (.many fun c hc => by rw [List.mem_singleton.1 hc]; exact htask)
      (.cons .absent .nil))))

/-- A world in which nothing has happened yet, and the answers of its database. -/
def answering (as : List Answer) : World Sample Script :=
  .ofDatabase (as.map fun a => ⟨none, false, a⟩)

/-! ## Staff of projects -/

/-- A database in which whatever is read is one and the same row. -/
def same (row : Row) : Executor Unit where
  query _ u := (.ok [row], u)
  execute _ u := (.ok 1, u)
  describe _ u := (.ok row.columns, u)

def employeeOf (id : Int64) : Record :=
  .mk [.scalar (.int id), .scalar (.text "e"), .nested none]

/-- Project 1 is stored, and has task 1 and employee 1. -/
def staffed : Env Unit :=
  ⟨config, same ⟨[("Id", .int 1), ("Title", .text "p"), ("PersonId", .int 1)]⟩⟩

/-- Project 1 with employee 2, and without its tasks. -/
def staffedProject : Record :=
  .mk [.scalar (.int 1), .scalar (.text "q"), .many none, .many (some [employeeOf 2])]

def tasksRelation : Relation Sample :=
  ⟨.oneToMany, .task, 2, relationOf "Tasks" (some "work.Tasks") none none⟩

def membersRelation : Relation Sample :=
  ⟨.manyToMany, .employee, 3,
    relationOf "Members" none (some (.source "work.ProjectStaff")) (some "PersonId")⟩

/-- The map of projects that is made on first use. -/
def projectMap : TableMap Sample := (Catalog.ownMap config project).toOption.getD orderMap

/-- A world in which nothing has happened but the first use of the map. -/
def projectWorld : World Sample Unit :=
  ⟨(), [], [], [], ⟨[(.project, projectMap)], []⟩⟩

theorem relations_projectMap : projectMap.relations = [tasksRelation, membersRelation] := rfl

/-! ## Shops -/

/-- A region has a code, and no number. -/
def regionOf (code : String) : Record := .mk [.scalar (.text code), .scalar (.text ""), .many none]

def shopIn (code : String) : Record :=
  .mk [.scalar (.uuid .zero), .scalar (.text ""), .nested (some (regionOf code)), .many none,
    .many none]

/-- The map of shops that is made on first use. -/
def shopMap : TableMap Sample := (Catalog.ownMap config shop).toOption.getD orderMap

/-! ## Odd records -/

/-- A record that has a number in the field named after its type. -/
def oddOf (number : Int64) : Record := (freshRecord odd).setSlot 2 (.scalar (.int number))

def oddMap : TableMap Sample :=
  { orderMap with owner := .odd, schema := "public", table := "Odds", relations := [] }

/-- A record with a key and nothing else. -/
def numberedOdd (id : Int64) : Record := (freshRecord odd).setSlot 0 (.scalar (.int id))

theorem typed_numberedOdd (id : Int64) : Typed odd (numberedOdd id) :=
  (typed_freshRecord odd).setSlot rfl (normalize_typed (normalize_number id))

/-- Odd records have kids of their own type. -/
def kidsRelation : Relation Sample := ⟨.oneToMany, .odd, 8, .ofProperty "Kids"⟩

def kids : MapDraft Sample :=
  (MapDraft.ofType odd).tellAll [.relation .oneToMany odd kidsRelation.spec]

def kidsMap : TableMap Sample := { oddMap with relations := [kidsRelation] }

theorem kidsMap_of : kidsMap.Of .odd where
  owner := rfl
  found rel hr := by
    rw [List.mem_singleton.1 hr]
    rfl
  once := List.pairwise_singleton _ _

end RecordGraph.Sample
