import ObHtap.Library.PartialRun
import ObHtap.Table.MetaRoundTrip

/-!
# The tables of a database

Creating and dropping tables and views, and opening the tables again at a restart (`db.cpp`).  The
id of a new table comes from a counter of the process.  A restart starts the counter after the
largest id of the tables whose metadata is still there; views have no files.
-/

namespace ObHtap

open Json

/-- The files of the tables: the documents of the `.table` files, by file, and the tables that
have the other files `Table::open` opens. -/
structure TableFiles where
  metaFiles : List (String × Value)
  dataFiles : List String

/-- A table in memory; a view has one too, with the metadata of the view. -/
structure OpenedTable where
  tableId : Int32
  isView : Bool
  deriving DecidableEq

/-- A database; `created` lists the ids of the tables there were when it was first opened and of
the tables made since, the last one first. -/
structure Db where
  files : TableFiles
  nextTableId : Int32
  nextViewId : Int32
  openedTables : List (String × OpenedTable)
  openedViews : List String
  created : List Int32

/-- The id of a view's table: `TableMeta::init` of a view does not set it. -/
def viewTableId : Int32 := -1

namespace Db

variable (trxFields : Option (List FieldMeta))

/-- `Table::create` of a table.  The metadata file must be new and `fileOpens` says whether it can
be made; it is removed again when the metadata is refused.  No data file is made. -/
def Table.create (files : TableFiles) (tableId : Int32) (name : String)
    (attributes : List AttrInfoSqlNode) (storageFormat : StorageFormat) (fileOpens : Bool) :
    Option (Except RC TableFiles) :=
  if tableId < 0 then some (.error .invalidArgument)
  else if isBlank name then some (.error .invalidArgument)
  else if attributes.length = 0 then some (.error .invalidArgument)
  else if (files.metaFiles.lookup name).isSome then some (.error .schemaTableExist)
  else if fileOpens = false then some (.error .ioerrOpen)
  else
    match TableMeta.init tableId name trxFields attributes storageFormat with
    | .error rc => some (.error rc)
    | .ok table => do
      let document ← table.toJson
      return .ok { files with metaFiles := files.metaFiles ++ [(name, document)] }

/-- `Db::create_table`.  The counter moves also when the table is refused. -/
def createTable (db : Db) (tableName : String) (attributes : List AttrInfoSqlNode)
    (storageFormat : StorageFormat) (fileOpens : Bool) : Option (Except RC Int32 × Db) :=
  if (db.openedTables.lookup tableName).isSome then some (.error .schemaTableExist, db)
  else do
    let tableId := db.nextTableId
    let nextTableId ← TableMeta.checkedInt (db.nextTableId.toInt + 1)
    match ← Table.create trxFields db.files tableId tableName attributes storageFormat fileOpens with
    | .error rc => return (.error rc, { db with nextTableId })
    | .ok files =>
      return (.ok tableId, { db with
        files
        nextTableId
        openedTables := db.openedTables ++ [(tableName, { tableId, isView := false })]
        created := tableId :: db.created })

/-- `Db::drop_table`.  `Table::drop` refuses a view and removes every file of a table. -/
def dropTable (db : Db) (tableName : String) : Except RC Unit × Db :=
  match db.openedTables.lookup tableName with
  | none => (.error .schemaTableNotExist, db)
  | some table =>
    if table.isView then (.error .error, db)
    else (.ok (), { db with
      files :=
        { metaFiles := db.files.metaFiles.filter fun file => file.1 ≠ tableName
          dataFiles := db.files.dataFiles.filter fun name => name ≠ tableName }
      openedTables := db.openedTables.filter fun entry => entry.1 ≠ tableName })

/-- `Db::create_view`.  The result of `View::create` is replaced by that of the view's table, which
is always made and does not take the id counted for it. -/
def createView (db : Db) (viewName : String) : Option (Except RC Unit × Db) :=
  if viewName ∈ db.openedViews ∨ (db.openedTables.lookup viewName).isSome then
    some (.error .schemaViewExist, db)
  else do
    let nextViewId ← TableMeta.checkedInt (db.nextViewId.toInt + 1)
    let nextTableId ← TableMeta.checkedInt (db.nextTableId.toInt + 1)
    return (.ok (), { db with
      nextViewId
      nextTableId
      openedTables := db.openedTables ++ [(viewName, { tableId := viewTableId, isView := true })]
      openedViews := db.openedViews ++ [viewName] })

/-- `Db::drop_view`: `View::drop` is not supported. -/
def dropView (db : Db) (viewName : String) : Except RC Unit × Db :=
  if viewName ∈ db.openedViews then (.error .unsupported, db) else (.error .error, db)

/-- `Table::open` of a metadata file. -/
def Table.open (files : TableFiles) (document : Value) : Option TableMeta := do
  let table ← TableMeta.ofJson document
  guard (table.name ∈ files.dataFiles)
  return table

/-- The counter moves past the id of an opened table. -/
def movePast (nextTableId tableId : Int32) : Option Int32 :=
  if nextTableId ≤ tableId then TableMeta.checkedInt (tableId.toInt + 1) else some nextTableId

/-- `Db::open_all_tables`, from the files that are left.  A table that does not open, or a second
one of the same name, ends it. -/
def openFiles (files : TableFiles) : List (String × Value) → Int32 → List (String × OpenedTable) →
    Option (Int32 × List (String × OpenedTable))
  | [], nextTableId, openedTables => some (nextTableId, openedTables)
  | file :: rest, nextTableId, openedTables => do
    let table ← Table.open files file.2
    guard ((openedTables.lookup table.name).isNone)
    let nextTableId ← movePast nextTableId table.tableId
    openFiles files rest nextTableId
      (openedTables ++ [(table.name, { tableId := table.tableId, isView := false })])

/-- A new process opens the files; the ids it finds have been given to tables. -/
def openAllTables (files : TableFiles) (created : List Int32) : Option Db := do
  let (nextTableId, openedTables) ← openFiles files files.metaFiles 0 []
  return {
    files
    nextTableId
    nextViewId := 0
    openedTables
    openedViews := []
    created }

/-- A database opened for the first time on a directory. -/
def start (files : TableFiles) : Option Db := do
  let db ← openAllTables files []
  return { db with created := db.openedTables.map fun entry => entry.2.tableId }

inductive Call where
  | createTable (tableName : String) (attributes : List AttrInfoSqlNode)
      (storageFormat : StorageFormat) (fileOpens : Bool)
  | dropTable (tableName : String)
  | createView (viewName : String)
  | dropView (viewName : String)
  | restart

/-- A call; there is no database after a restart that does not open every table. -/
def step (db : Db) : Call → Option Db
  | .createTable tableName attributes storageFormat fileOpens =>
    (createTable trxFields db tableName attributes storageFormat fileOpens).map Prod.snd
  | .dropTable tableName => some (dropTable db tableName).2
  | .createView viewName => (createView db viewName).map Prod.snd
  | .dropView viewName => some (dropView db viewName).2
  | .restart => openAllTables db.files db.created

/-! ## New ids -/

variable {trxFields : Option (List FieldMeta)}

/-- Every id given to a table is below the counter. -/
def Below (db : Db) : Prop :=
  ∀ id ∈ db.created, id < db.nextTableId

/-- At a restart, the file of some table has an id that is as large as any given so far. -/
def KeepsLargest (db : Db) (call : Call) : Prop :=
  call = .restart → ∀ id ∈ db.created, ∃ file ∈ db.files.metaFiles,
    ∃ table, TableMeta.ofJson file.2 = some table ∧ id ≤ table.tableId

theorem lt_of_checkedInt {n n' : Int32} (h : TableMeta.checkedInt (n.toInt + 1) = some n') :
    n < n' := by
  have hval := TableMeta.checkedInt_eq_some.mp h
  rw [Int32.lt_iff_toInt_lt]
  omega

theorem movePast_spec {n n' id : Int32} (h : movePast n id = some n') : n ≤ n' ∧ id < n' := by
  rw [movePast] at h
  split at h
  · next hge =>
    have hlt := lt_of_checkedInt h
    exact ⟨Int32.le_trans hge (Int32.le_of_lt hlt), hlt⟩
  · next hlt =>
    obtain rfl := Option.some.inj h
    exact ⟨Int32.le_refl _, Int32.not_le.mp hlt⟩

theorem openFiles_spec {files : TableFiles} {rest : List (String × Value)} {n n' : Int32}
    {opened opened' : List (String × OpenedTable)}
    (h : openFiles files rest n opened = some (n', opened')) :
    n ≤ n' ∧
      (∀ file ∈ rest, ∃ table, TableMeta.ofJson file.2 = some table ∧ table.tableId < n') ∧
      ∀ entry ∈ opened', entry ∈ opened ∨ entry.2.tableId < n' := by
  induction rest generalizing n opened with
  | nil =>
    cases h
    exact ⟨Int32.le_refl _, by simp, fun entry hentry => .inl hentry⟩
  | cons file rest ih =>
    obtain ⟨table, hopen, h⟩ := Option.bind_eq_some_iff.mp h
    obtain ⟨_, -, h⟩ := Option.bind_eq_some_iff.mp h
    obtain ⟨n₁, hn₁, h⟩ := Option.bind_eq_some_iff.mp h
    obtain ⟨table', hjson, hrest⟩ := Option.bind_eq_some_iff.mp hopen
    obtain ⟨_, -, heq⟩ := Option.bind_eq_some_iff.mp hrest
    obtain rfl := Option.some.inj heq
    obtain ⟨hle, hfiles, hentries⟩ := ih h
    have hnext := movePast_spec hn₁
    have hid : table'.tableId < n' := Int32.lt_of_lt_of_le hnext.2 hle
    refine ⟨Int32.le_trans hnext.1 hle, ?_, ?_⟩
    · intro file' hfile'
      rcases List.mem_cons.mp hfile' with rfl | hmem
      · exact ⟨table', hjson, hid⟩
      · exact hfiles file' hmem
    · intro entry hentry
      rcases hentries entry hentry with hmem | hlt
      · rcases List.mem_append.mp hmem with hold | hnew
        · exact .inl hold
        · obtain rfl := List.mem_singleton.mp hnew
          exact .inr hid
      · exact .inr hlt

theorem openAllTables_spec {files : TableFiles} {created : List Int32} {db : Db}
    (h : openAllTables files created = some db) :
    db.files = files ∧ db.created = created ∧
      (∀ file ∈ files.metaFiles, ∃ table, TableMeta.ofJson file.2 = some table ∧
        table.tableId < db.nextTableId) ∧
      ∀ entry ∈ db.openedTables, entry.2.tableId < db.nextTableId := by
  obtain ⟨⟨n, opened⟩, hopen, heq⟩ := Option.bind_eq_some_iff.mp h
  obtain rfl := Option.some.inj heq
  obtain ⟨-, hfiles, hentries⟩ := openFiles_spec hopen
  exact ⟨rfl, rfl, hfiles, fun entry hentry => (hentries entry hentry).resolve_left (by simp)⟩

theorem createTable_cases {db db' : Db} {tableName : String} {attributes : List AttrInfoSqlNode}
    {storageFormat : StorageFormat} {fileOpens : Bool} {result : Except RC Int32}
    (h : createTable trxFields db tableName attributes storageFormat fileOpens =
      some (result, db')) :
    (result = .error .schemaTableExist ∧ db' = db) ∨
      db.nextTableId < db'.nextTableId ∧
        ((∃ rc, result = .error rc ∧ db'.created = db.created) ∨
          result = .ok db.nextTableId ∧ db'.created = db.nextTableId :: db.created) := by
  rw [createTable] at h
  split at h
  · cases h
    exact .inl ⟨rfl, rfl⟩
  · obtain ⟨n, hn, h⟩ := Option.bind_eq_some_iff.mp h
    have hlt := lt_of_checkedInt hn
    obtain ⟨made, -, h⟩ := Option.bind_eq_some_iff.mp h
    cases made with
    | error rc =>
      cases h
      exact .inr ⟨hlt, .inl ⟨rc, rfl, rfl⟩⟩
    | ok files =>
      cases h
      exact .inr ⟨hlt, .inr ⟨rfl, rfl⟩⟩

theorem createView_cases {db db' : Db} {viewName : String} {result : Except RC Unit}
    (h : createView db viewName = some (result, db')) :
    db.nextTableId ≤ db'.nextTableId ∧ db'.created = db.created := by
  rw [createView] at h
  split at h
  · cases h
    exact ⟨Int32.le_refl _, rfl⟩
  · obtain ⟨nv, -, h⟩ := Option.bind_eq_some_iff.mp h
    obtain ⟨n, hn, h⟩ := Option.bind_eq_some_iff.mp h
    cases h
    exact ⟨Int32.le_of_lt (lt_of_checkedInt hn), rfl⟩

theorem dropTable_frame (db : Db) (tableName : String) :
    (dropTable db tableName).2.nextTableId = db.nextTableId ∧
      (dropTable db tableName).2.created = db.created := by
  rw [dropTable]
  split
  · exact ⟨rfl, rfl⟩
  · split <;> exact ⟨rfl, rfl⟩

theorem dropView_frame (db : Db) (viewName : String) : (dropView db viewName).2 = db := by
  rw [dropView]
  split <;> rfl

/-- A call keeps the ids below the counter, when it is no restart that forgets the largest one. -/
theorem Below.step {db db' : Db} {call : Call} (hbelow : Below db) (hkeeps : KeepsLargest db call)
    (h : step trxFields db call = some db') : Below db' := by
  cases call with
  | createTable tableName attributes storageFormat fileOpens =>
    obtain ⟨⟨result, db₁⟩, hcreate, heq⟩ := Option.map_eq_some_iff.mp h
    obtain rfl : db₁ = db' := heq
    rcases createTable_cases hcreate with ⟨-, rfl⟩ | ⟨hlt, ⟨rc, -, hsame⟩ | ⟨-, hnew⟩⟩
    · exact hbelow
    · intro id hid
      rw [hsame] at hid
      exact Int32.lt_trans (hbelow id hid) hlt
    · intro id hid
      rw [hnew] at hid
      rcases List.mem_cons.mp hid with rfl | hold
      · exact hlt
      · exact Int32.lt_trans (hbelow id hold) hlt
  | dropTable tableName =>
    obtain rfl := Option.some.inj h
    obtain ⟨hnext, hsame⟩ := dropTable_frame db tableName
    rw [Below, hnext, hsame]
    exact hbelow
  | createView viewName =>
    obtain ⟨⟨result, db₁⟩, hcreate, heq⟩ := Option.map_eq_some_iff.mp h
    obtain rfl : db₁ = db' := heq
    obtain ⟨hle, hsame⟩ := createView_cases hcreate
    intro id hid
    rw [hsame] at hid
    exact Int32.lt_of_lt_of_le (hbelow id hid) hle
  | dropView viewName =>
    obtain rfl := Option.some.inj h
    rw [dropView_frame]
    exact hbelow
  | restart =>
    obtain ⟨-, hsame, hfiles, -⟩ := openAllTables_spec h
    intro id hid
    rw [hsame] at hid
    -- the largest id is read from a file, and the counter starts after it
    obtain ⟨file, hfile, table, hjson, hle⟩ := hkeeps rfl id hid
    obtain ⟨table', hjson', hlt⟩ := hfiles file hfile
    obtain rfl : table = table' := Option.some.inj (hjson.symm.trans hjson')
    exact Int32.lt_of_le_of_lt hle hlt

theorem Below.start {files : TableFiles} {db : Db} (h : start files = some db) : Below db := by
  obtain ⟨db₁, hopen, heq⟩ := Option.bind_eq_some_iff.mp h
  obtain rfl := Option.some.inj heq
  obtain ⟨-, -, -, hentries⟩ := openAllTables_spec hopen
  intro id hid
  obtain ⟨entry, hentry, rfl⟩ := List.mem_map.mp hid
  exact hentries entry hentry

/-- In a run whose restarts all find the largest id given so far, a new table gets an id that no
table has had before. -/
theorem createTable_newId {files : TableFiles} {db₀ db db' : Db} {calls : List Call}
    {tableName : String} {attributes : List AttrInfoSqlNode} {storageFormat : StorageFormat}
    {fileOpens : Bool} {id : Int32} (hstart : Db.start files = some db₀)
    (hrun : Run (Db.step trxFields) KeepsLargest db₀ calls db)
    (hcreate : createTable trxFields db tableName attributes storageFormat fileOpens =
      some (.ok id, db')) : id ∉ db.created := by
  have hbelow : Below db :=
    hrun.invariant (fun _ _ _ hb hk hs => hb.step hk hs) (Below.start hstart)
  intro hmem
  rcases createTable_cases hcreate with ⟨hbad, -⟩ | ⟨-, ⟨rc, hbad, -⟩ | ⟨hok, -⟩⟩
  · cases hbad
  · cases hbad
  · cases hok
    exact Int32.lt_irrefl (hbelow _ hmem)

/-- The metadata of a table with one column, with the id 3. -/
def thirdTable : TableMeta where
  tableId := 3
  name := "a"
  trxFields := []
  fields := [⟨"id", .ints, 0, 4, true, 0, false, 4⟩]
  indexes := []
  storageFormat := .rowFormat
  recordSize := 5

/-- A directory with that table. -/
def thirdFiles : Option TableFiles :=
  thirdTable.toJson.map fun document => { metaFiles := [("a", document)], dataFiles := ["a"] }

/-- After a restart on a directory whose only table has the id 3, the next table gets the id 4. -/
theorem createTable_newId_thirdFiles :
    ∃ files db₀ db db', thirdFiles = some files ∧ Db.start files = some db₀ ∧
      Run (Db.step none) KeepsLargest db₀ [.restart] db ∧
      createTable none db "b" [⟨.ints, "id", 4, false⟩] .rowFormat true = some (.ok 4, db') ∧
      4 ∉ db.created := by
  have hread : thirdTable.toJson.bind TableMeta.ofJson = some thirdTable := by
    have hlaid : TableMeta.Laid 0 thirdTable.fields 4 := by simp [thirdTable, TableMeta.Laid]
    apply (TableMeta.ofJson_toJson_iff hlaid (by decide) (by decide) (by decide)
      (by simp [thirdTable])).mpr
    exact ⟨by decide, rfl, by simp [thirdTable]⟩
  obtain ⟨document, hdoc, hjson⟩ := Option.bind_eq_some_iff.mp hread
  let files : TableFiles := { metaFiles := [("a", document)], dataFiles := ["a"] }
  let db : Db := {
    files
    nextTableId := 4
    nextViewId := 0
    openedTables := [("a", { tableId := 3, isView := false })]
    openedViews := []
    created := [3] }
  have hopen : ∀ created, openAllTables files created = some { db with created } := by
    intro created
    simp [openAllTables, openFiles, Table.open, files, hjson, db]
    rfl
  have hstart : Db.start files = some db := by
    rw [Db.start, hopen]
    rfl
  have hrun : Run (Db.step none) KeepsLargest db [.restart] db := by
    apply Run.single
    · intro _ id hid
      obtain rfl := List.mem_singleton.mp hid
      exact ⟨("a", document), List.mem_singleton_self _, thirdTable, hjson, by decide⟩
    · exact hopen [3]
  have hcreate : ∃ db', createTable none db "b" [⟨.ints, "id", 4, false⟩] .rowFormat true =
      some (.ok 4, db') := by
    have hinit : TableMeta.init 4 "b" none [⟨.ints, "id", 4, false⟩] .rowFormat =
        .ok { thirdTable with tableId := 4, name := "b" } := by decide
    obtain ⟨document', hdoc'⟩ : ∃ document',
        ({ thirdTable with tableId := 4, name := "b" } : TableMeta).toJson = some document' :=
      ⟨_, rfl⟩
    have hmade : Table.create none files 4 "b" [⟨.ints, "id", 4, false⟩] .rowFormat true =
        some (.ok { files with metaFiles := files.metaFiles ++ [("b", document')] }) := by
      rw [Table.create, hinit]
      simp [files, isBlank, isSpace, hdoc']
    have hnext : TableMeta.checkedInt 5 = some 5 := by decide
    simp [createTable, db, hmade, hnext]
  obtain ⟨db', hcreate⟩ := hcreate
  exact ⟨files, db, db, db', by rw [thirdFiles, hdoc]; rfl, hstart, hrun, hcreate,
    createTable_newId hstart hrun hcreate⟩

/-- A dropped table's id is given again after a restart. -/
theorem createTable_reusedId :
    ∃ db₀ db db', Db.start { metaFiles := [], dataFiles := [] } = some db₀ ∧
      Run (Db.step none) (fun _ _ => True) db₀
        [.createTable "t" [⟨.ints, "id", 4, false⟩] .rowFormat true, .dropTable "t", .restart] db ∧
      createTable none db "u" [⟨.ints, "id", 4, false⟩] .rowFormat true = some (.ok 0, db') ∧
      0 ∈ db.created := by
  refine ⟨_, _, _, rfl, Run.of_eval (fun _ _ => trivial) rfl, rfl, ?_⟩
  decide

end Db

end ObHtap
