import ObHtap.Db.Tables

/-!
# The two maps of the catalog

`opened_tables_` has the tables and the views, `opened_views_` the views only.  A view cannot be
dropped, neither as a view nor as a table, so no call takes a name out of one map and leaves it in
the other.
-/

namespace ObHtap

namespace Db

variable {trxFields : Option (List FieldMeta)} {db db' : Db} {name : String}

/-- A call with its return code; a restart has none. -/
def perform (trxFields : Option (List FieldMeta)) (db : Db) : Call → Option (Except RC Unit × Db)
  | .createTable tableName attributes storageFormat fileOpens =>
    (createTable trxFields db tableName attributes storageFormat fileOpens).map fun r =>
      (r.1.map fun _ => (), r.2)
  | .dropTable tableName => some (dropTable db tableName)
  | .createView viewName => createView db viewName
  | .dropView viewName => some (dropView db viewName)
  | .restart => (openAllTables db.files db.created).map fun db' => (.ok (), db')

/-- The maps of the catalog: the opened tables with the views, by name, and the names of the
views. -/
def maps (db : Db) : List (String × OpenedTable) × List String :=
  (db.openedTables, db.openedViews)

/-- A name is that of a view exactly when its table is a view's. -/
def MapsAgree (db : Db) : Prop :=
  ∀ name, name ∈ db.openedViews ↔
    ∃ table, db.openedTables.lookup name = some table ∧ table.isView = true

/-- The name is in neither map, and a table or a view that could be created in an empty directory
can be created with it. -/
structure Free (trxFields : Option (List FieldMeta)) (db : Db) (name : String) : Prop where
  table : db.openedTables.lookup name = none
  view : name ∉ db.openedViews
  createTable : ∀ attributes storageFormat files,
    Table.create trxFields ⟨[], []⟩ db.nextTableId name attributes storageFormat true =
      some (.ok files) → (TableMeta.checkedInt (db.nextTableId.toInt + 1)).isSome →
    ∃ db', createTable trxFields db name attributes storageFormat true =
      some (.ok db.nextTableId, db')
  createView : (TableMeta.checkedInt (db.nextViewId.toInt + 1)).isSome →
    (TableMeta.checkedInt (db.nextTableId.toInt + 1)).isSome →
    ∃ db', createView db name = some (.ok (), db')

/-- The name that a call drops. -/
def Call.Drops (name : String) : Call → Prop
  | .dropTable tableName => tableName = name
  | .dropView viewName => viewName = name
  | _ => False

/-- What the catalog promises in a state: its maps agree, a call that fails leaves both of them as
they are, and a name that has been dropped is free. -/
structure CatalogKept (trxFields : Option (List FieldMeta)) (db : Db) : Prop where
  agree : MapsAgree db
  failed : ∀ call rc db', perform trxFields db call = some (.error rc, db') → db'.maps = db.maps
  dropped : ∀ call name db', call.Drops name → perform trxFields db call = some (.ok (), db') →
    Free trxFields db' name

/-! ## The maps after a call -/

theorem lookup_append_of_none {tables : List (String × OpenedTable)} {table : OpenedTable}
    (h : tables.lookup name = none) (other : String) :
    (tables ++ [(name, table)]).lookup other =
      if other = name then some table else tables.lookup other := by
  rw [List.lookup_append]
  split_ifs with heq
  · subst heq
    simp [h]
  · have hne : (other == name) = false := by simpa using heq
    simp [List.lookup_cons, hne]

theorem lookup_filter_ne {α : Type} (entries : List (String × α)) (name other : String) :
    (entries.filter fun entry => entry.1 ≠ name).lookup other =
      if other = name then none else entries.lookup other := by
  induction entries with
  | nil => simp
  | cons entry entries ih =>
    obtain ⟨key, value⟩ := entry
    by_cases hkey : key = name
    · subst hkey
      rw [List.filter_cons_of_neg (by simp), ih]
      split_ifs with heq
      · rfl
      · have hne : (other == key) = false := by simpa using heq
        rw [List.lookup_cons, hne]
    · rw [List.filter_cons_of_pos (by simpa using hkey), List.lookup_cons, List.lookup_cons, ih]
      cases hother : other == key with
      | true =>
        have heq : other = key := by simpa using hother
        simp only [if_neg (heq ▸ hkey : ¬other = name)]
      | false => rfl

/-- `create_table` puts a table under a new name, or leaves the maps as they are. -/
theorem maps_createTable {attributes : List AttrInfoSqlNode} {storageFormat : StorageFormat}
    {fileOpens : Bool} {result : Except RC Int32}
    (h : createTable trxFields db name attributes storageFormat fileOpens =
      some (result, db')) :
    (∃ rc, result = .error rc) ∧ db'.maps = db.maps ∨
      (∃ id, result = .ok id) ∧ db.openedTables.lookup name = none ∧
        db'.openedViews = db.openedViews ∧
        ∃ tableId, db'.openedTables = db.openedTables ++ [(name, ⟨tableId, false⟩)] := by
  rw [createTable] at h
  split at h
  · cases h
    exact Or.inl ⟨⟨_, rfl⟩, rfl⟩
  next hnone =>
    obtain ⟨n, -, h⟩ := Option.bind_eq_some_iff.mp h
    obtain ⟨made, -, h⟩ := Option.bind_eq_some_iff.mp h
    cases made with
    | error rc =>
      cases h
      exact Or.inl ⟨⟨rc, rfl⟩, rfl⟩
    | ok files =>
      cases h
      exact Or.inr ⟨⟨_, rfl⟩, Option.not_isSome_iff_eq_none.mp hnone, rfl, _, rfl⟩

/-- `create_view` puts a view under a new name into both maps, or leaves them as they are. -/
theorem maps_createView {result : Except RC Unit} (h : createView db name = some (result, db')) :
    (∃ rc, result = .error rc) ∧ db'.maps = db.maps ∨
      result = .ok () ∧ db.openedTables.lookup name = none ∧
        db'.openedViews = db.openedViews ++ [name] ∧
        db'.openedTables = db.openedTables ++ [(name, ⟨viewTableId, true⟩)] := by
  rw [createView] at h
  split at h
  · cases h
    exact Or.inl ⟨⟨_, rfl⟩, rfl⟩
  next hnone =>
    obtain ⟨nv, -, h⟩ := Option.bind_eq_some_iff.mp h
    obtain ⟨n, -, h⟩ := Option.bind_eq_some_iff.mp h
    cases h
    rw [not_or] at hnone
    exact Or.inr ⟨rfl, Option.not_isSome_iff_eq_none.mp hnone.2, rfl, rfl⟩

/-- `drop_table` takes a table that is no view out of its map, or leaves the maps as they are. -/
theorem maps_dropTable (db : Db) (name : String) :
    (∃ rc, (dropTable db name).1 = .error rc) ∧ (dropTable db name).2.maps = db.maps ∨
      (dropTable db name).1 = .ok () ∧
        (∃ table, db.openedTables.lookup name = some table ∧ table.isView = false) ∧
        (dropTable db name).2.openedViews = db.openedViews ∧
        (dropTable db name).2.openedTables =
          db.openedTables.filter fun entry => entry.1 ≠ name := by
  rw [dropTable]
  split
  · exact Or.inl ⟨⟨_, rfl⟩, rfl⟩
  next table hlookup =>
    split_ifs with hview
    · exact Or.inl ⟨⟨_, rfl⟩, rfl⟩
    · exact Or.inr ⟨rfl, ⟨table, hlookup, by simpa using hview⟩, rfl, rfl⟩

theorem dropView_error (db : Db) (name : String) : ∃ rc, (dropView db name).1 = .error rc := by
  rw [dropView]
  split_ifs
  · exact ⟨_, rfl⟩
  · exact ⟨_, rfl⟩

theorem openFiles_isView {files : TableFiles} {rest : List (String × Json.Value)} {n n' : Int32}
    {opened opened' : List (String × OpenedTable)}
    (h : openFiles files rest n opened = some (n', opened'))
    (hopened : ∀ entry ∈ opened, entry.2.isView = false) :
    ∀ entry ∈ opened', entry.2.isView = false := by
  induction rest generalizing n opened with
  | nil =>
    cases h
    exact hopened
  | cons file rest ih =>
    obtain ⟨table, -, h⟩ := Option.bind_eq_some_iff.mp h
    obtain ⟨_, -, h⟩ := Option.bind_eq_some_iff.mp h
    obtain ⟨n₁, -, h⟩ := Option.bind_eq_some_iff.mp h
    apply ih h
    intro entry hentry
    rcases List.mem_append.mp hentry with hold | hnew
    · exact hopened entry hold
    · rw [List.mem_singleton.mp hnew]

theorem mem_of_lookup {α : Type} {entries : List (String × α)} {value : α}
    (h : entries.lookup name = some value) : (name, value) ∈ entries := by
  induction entries with
  | nil => cases h
  | cons entry entries ih =>
    obtain ⟨key, value'⟩ := entry
    rw [List.lookup_cons] at h
    split at h
    next heq =>
      cases h
      rw [eq_of_beq heq]
      exact List.mem_cons_self
    · exact List.mem_cons_of_mem _ (ih h)

theorem MapsAgree.openAllTables {files : TableFiles} {created : List Int32}
    (h : openAllTables files created = some db) : MapsAgree db := by
  obtain ⟨⟨n, opened⟩, hopen, heq⟩ := Option.bind_eq_some_iff.mp h
  obtain rfl := Option.some.inj heq
  intro name
  constructor
  · intro hview
    cases hview
  · rintro ⟨table, hlookup, hview⟩
    have hno := openFiles_isView hopen (by simp) _ (mem_of_lookup hlookup)
    exact absurd (hview.symm.trans hno) (by decide)

theorem MapsAgree.congr (h : MapsAgree db) (hmaps : db'.maps = db.maps) : MapsAgree db' := by
  obtain ⟨htables, hviews⟩ := Prod.mk.inj hmaps
  intro name
  rw [htables, hviews]
  exact h name

theorem step_eq_perform (db : Db) (call : Call) :
    step trxFields db call = (perform trxFields db call).map Prod.snd := by
  cases call with
  | createTable tableName attributes storageFormat fileOpens =>
    rw [step, perform, Option.map_map]
    rfl
  | dropTable tableName => rfl
  | createView viewName => rfl
  | dropView viewName => rfl
  | restart =>
    rw [step, perform, Option.map_map]
    exact Option.map_id'.symm

theorem MapsAgree.perform (h : MapsAgree db) {call : Call} {result : Except RC Unit}
    (hcall : perform trxFields db call = some (result, db')) : MapsAgree db' := by
  cases call with
  | createTable tableName attributes storageFormat fileOpens =>
    obtain ⟨⟨result, db₁⟩, hcreate, heq⟩ := Option.map_eq_some_iff.mp hcall
    obtain ⟨-, rfl⟩ := Prod.mk.inj heq
    rcases maps_createTable hcreate with ⟨-, hmaps⟩ | ⟨-, hnone, hviews, tableId, htables⟩
    · exact h.congr hmaps
    · intro name
      rw [hviews, htables, lookup_append_of_none hnone, h name]
      split_ifs with heq
      · subst heq
        simp [hnone]
      · rfl
  | dropTable tableName =>
    obtain rfl := congrArg Prod.snd (Option.some.inj hcall)
    rcases maps_dropTable db tableName with ⟨-, hmaps⟩ |
      ⟨-, ⟨table, hlookup, hno⟩, hviews, htables⟩
    · exact h.congr hmaps
    · intro name
      rw [hviews, htables, lookup_filter_ne, h name]
      split_ifs with heq
      · subst heq
        simp [hlookup, hno]
      · rfl
  | createView viewName =>
    rcases maps_createView hcall with ⟨-, hmaps⟩ | ⟨-, hnone, hviews, htables⟩
    · exact h.congr hmaps
    · intro name
      rw [hviews, htables, lookup_append_of_none hnone, List.mem_append, List.mem_singleton, h name]
      split_ifs with heq
      · simp [heq]
      · simp [heq]
  | dropView viewName =>
    have hdrop := congrArg Prod.snd (Option.some.inj hcall)
    obtain rfl : db = db' := (dropView_frame db viewName).symm.trans hdrop
    exact h
  | restart =>
    obtain ⟨db₁, hopen, heq⟩ := Option.map_eq_some_iff.mp hcall
    obtain ⟨-, rfl⟩ := Prod.mk.inj heq
    exact .openAllTables hopen

/-! ## Names that have been dropped -/

/-- A directory that has no file of the name takes a table as an empty one does. -/
theorem create_of_lookup_none {files files' : TableFiles} {tableId : Int32}
    {attributes : List AttrInfoSqlNode} {storageFormat : StorageFormat}
    (hfile : files.metaFiles.lookup name = none)
    (h : Table.create trxFields ⟨[], []⟩ tableId name attributes storageFormat true =
      some (.ok files')) :
    ∃ files'', Table.create trxFields files tableId name attributes storageFormat true =
      some (.ok files'') := by
  have hempty : (List.lookup name ([] : List (String × Json.Value))) = none := rfl
  rw [Table.create] at h ⊢
  simp only [hfile, hempty, Option.isSome_none, Bool.false_eq_true, if_false, reduceCtorEq] at h ⊢
  split_ifs at h ⊢ with hid hblank hattributes
  · cases h
  · cases h
  · cases h
  · split at h
    · cases h
    next table htable =>
      obtain ⟨document, hdocument, -⟩ := Option.bind_eq_some_iff.mp h
      simp only [hdocument]
      exact ⟨_, rfl⟩

theorem free_of_dropTable (h : MapsAgree db) (hdrop : dropTable db name = (.ok (), db')) :
    Free trxFields db' name := by
  rcases maps_dropTable db name with ⟨⟨rc, herror⟩, -⟩ |
    ⟨-, ⟨table, hlookup, hno⟩, hviews, htables⟩
  · rw [hdrop] at herror
    cases herror
  rw [hdrop] at hviews htables
  have htable : db'.openedTables.lookup name = none := by
    rw [htables, lookup_filter_ne, if_pos rfl]
  have hview : name ∉ db'.openedViews := by
    rw [hviews]
    intro hmem
    obtain ⟨table', hlookup', hview⟩ := (h name).mp hmem
    obtain rfl := Option.some.inj (hlookup.symm.trans hlookup')
    exact absurd (hview.symm.trans hno) (by decide)
  have hfile : db'.files.metaFiles.lookup name = none := by
    rw [dropTable, hlookup] at hdrop
    simp only [hno, Bool.false_eq_true, if_false] at hdrop
    obtain ⟨-, rfl⟩ := Prod.mk.inj hdrop
    exact (lookup_filter_ne _ _ _).trans (if_pos rfl)
  refine ⟨htable, hview, ?_, ?_⟩
  · intro attributes storageFormat files hcreate hnext
    obtain ⟨files', hcreate'⟩ := create_of_lookup_none hfile hcreate
    obtain ⟨n, hn⟩ := Option.isSome_iff_exists.mp hnext
    rw [createTable, htable]
    simp only [Option.isSome_none, Bool.false_eq_true, if_false, hn, hcreate']
    exact ⟨_, rfl⟩
  · intro hnextView hnextTable
    obtain ⟨nv, hnv⟩ := Option.isSome_iff_exists.mp hnextView
    obtain ⟨n, hn⟩ := Option.isSome_iff_exists.mp hnextTable
    rw [createView, htable]
    simp only [hview, Option.isSome_none, Bool.false_eq_true, or_self, if_false, hnv, hn]
    exact ⟨_, rfl⟩

/-- A call of a database whose maps agree. -/
theorem MapsAgree.catalogKept (h : MapsAgree db) : CatalogKept trxFields db where
  agree := h
  failed call rc db' hcall := by
    cases call with
    | createTable tableName attributes storageFormat fileOpens =>
      obtain ⟨⟨result, db₁⟩, hcreate, heq⟩ := Option.map_eq_some_iff.mp hcall
      obtain ⟨hresult, rfl⟩ := Prod.mk.inj heq
      rcases maps_createTable hcreate with ⟨-, hmaps⟩ | ⟨⟨id, rfl⟩, -⟩
      · exact hmaps
      · cases hresult
    | dropTable tableName =>
      have hdrop := Option.some.inj hcall
      rcases maps_dropTable db tableName with ⟨-, hmaps⟩ | ⟨hok, -⟩
      · rw [hdrop] at hmaps
        exact hmaps
      · rw [hdrop] at hok
        cases hok
    | createView viewName =>
      rcases maps_createView hcall with ⟨-, hmaps⟩ | ⟨hok, -⟩
      · exact hmaps
      · cases hok
    | dropView viewName =>
      have hdrop := congrArg Prod.snd (Option.some.inj hcall)
      obtain rfl : db = db' := (dropView_frame db viewName).symm.trans hdrop
      rfl
    | restart =>
      obtain ⟨db₁, -, heq⟩ := Option.map_eq_some_iff.mp hcall
      cases heq
  dropped call name db' hdrops hcall := by
    cases call with
    | createTable tableName attributes storageFormat fileOpens => cases hdrops
    | dropTable tableName =>
      obtain rfl : tableName = name := hdrops
      exact free_of_dropTable h (Option.some.inj hcall)
    | createView viewName => cases hdrops
    | dropView viewName =>
      -- a view is never dropped
      obtain ⟨rc, herror⟩ := dropView_error db viewName
      rw [Option.some.inj hcall] at herror
      cases herror
    | restart => cases hdrops

theorem MapsAgree.start {files : TableFiles} (h : Db.start files = some db) : MapsAgree db := by
  obtain ⟨db₁, hopen, heq⟩ := Option.bind_eq_some_iff.mp h
  obtain rfl := Option.some.inj heq
  exact (MapsAgree.openAllTables hopen).congr rfl

/-- After any calls, failing ones and restarts included, the catalog keeps its promise. -/
theorem catalogKept_of_run {files : TableFiles} {db₀ : Db} {calls : List Call}
    (hstart : Db.start files = some db₀)
    (hrun : Run (Db.step trxFields) (fun _ _ => True) db₀ calls db) :
    CatalogKept trxFields db := by
  have hagree : MapsAgree db := by
    apply hrun.invariant _ (MapsAgree.start hstart)
    intro s call s' h _ hstep
    rw [step_eq_perform] at hstep
    obtain ⟨⟨result, db₁⟩, hcall, rfl⟩ := Option.map_eq_some_iff.mp hstep
    exact h.perform hcall
  exact hagree.catalogKept

/-- The calls of `catalogKept_of_run_again`: a view and a table; the view cannot be dropped as a
table, and the table is dropped and created again. -/
def createAgain : List Call :=
  [.createView "v", .createTable "t" [⟨.ints, "id", 4, false⟩] .rowFormat true, .dropTable "v",
    .dropTable "t", .createTable "t" [⟨.ints, "id", 4, false⟩] .rowFormat true]

theorem catalogKept_of_run_again :
    ∃ db₀ db, Db.start { metaFiles := [], dataFiles := [] } = some db₀ ∧
      Run (Db.step none) (fun _ _ => True) db₀ createAgain db ∧ db.created = [2, 1] ∧
      CatalogKept none db := by
  let db₀ : Db :=
    { files := ⟨[], []⟩, nextTableId := 0, nextViewId := 0, openedTables := [], openedViews := [],
      created := [] }
  have hstart : Db.start ⟨[], []⟩ = some db₀ := rfl
  have hsome : (createAgain.foldlM (Db.step none) db₀).map Db.created = some [2, 1] := by
    decide +kernel
  obtain ⟨db, heval, hcreated⟩ := Option.map_eq_some_iff.mp hsome
  have hrun := Run.of_eval (fun _ _ => trivial) heval
  exact ⟨db₀, db, hstart, hrun, hcreated, catalogKept_of_run hstart hrun⟩

end Db

end ObHtap
