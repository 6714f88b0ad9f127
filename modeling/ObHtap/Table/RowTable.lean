import ObHtap.Record.RecordFileScanner
import ObHtap.Table.RecordKey
import ObHtap.Table.UpdateRecord

/-!
# The write path and the read path of a table

A record is inserted into the storage engine only, while scans, updates and deletions work on the
record pages and the indexes (`table.cpp`).  Page requests are served.
-/

namespace ObHtap

open BplusTreeHandler TableIndex

/-- `BplusTreeIndex::delete_entry` for the record. -/
def TableIndex.deleteEntry (index : TableIndex) (record : StoredRecord) :
    Option (Except RC Unit × TableIndex) :=
  (BplusTreeHandler.deleteEntry index.handler (index.userKey record.data) record.rid index.tree
    []).map fun r => (r.1, index.withTree r.2)

/-- A table in row format.  `file` is the data buffer pool with its record handler: a table that
has just been created has none. -/
structure RowTable where
  tableMeta : TableMeta
  recordSize : Nat
  engine : Table.Engine
  file : Option RecordFile
  indexes : List TableIndex

namespace RowTable

/-- `Table::insert_record`.  The record identifier is not set. -/
def insertRecord (table : RowTable) (record : StoredRecord) :
    Option (Except RC Unit × RowTable) :=
  (Table.insertRecord table.engine table.tableMeta false record.data).map fun r =>
    (r.1, { table with engine := r.2 })

/-- `Table::update_record`.  There has to be a record handler. -/
def updateRecord (table : RowTable) (record : StoredRecord) (newData : List UInt8) :
    Option (Except RC Unit × RowTable) :=
  match table.file,
    IndexedTable.updateEntryOfIndexes table.recordSize record.data newData record.rid
      table.indexes [] with
  | none, _ => none
  | _, none => none
  | some _, some (.error rc, indexes) => some (.error rc, { table with indexes })
  | some file, some (.ok (), indexes) =>
    match file.updateRecord record.rid newData with
    | .ok file' => some (.ok (), { table with indexes, file := some file' })
    | .error (.rc rc) => some (.error rc, { table with indexes })
    | .error _ => none

/-- The loop of `delete_record` over the indexes, which asserts that each has the entry. -/
def deleteEntries (record : StoredRecord) : List TableIndex → Option (List TableIndex)
  | [] => some []
  | index :: indexes =>
    match index.deleteEntry record with
    | some (.ok (), index') => (deleteEntries record indexes).map (index' :: ·)
    | _ => none

/-- `Table::delete_record` of a record. -/
def deleteRecord (table : RowTable) (record : StoredRecord) :
    Option (Except RC Unit × RowTable) :=
  match table.file, deleteEntries record table.indexes with
  | some file, some indexes =>
    match file.deleteRecord record.rid with
    | .ok file' => some (.ok (), { table with indexes, file := some file' })
    | .error (.rc rc) => some (.error rc, { table with indexes })
    | .error _ => none
  | _, _ => none

/-- `Table::delete_record` of a record identifier. -/
def deleteRecordAt (table : RowTable) (rid : RID) : Option (Except RC Unit × RowTable) :=
  match table.file with
  | none => none
  | some file =>
    match file.getRecord rid with
    | .error rc => some (.error rc, table)
    | .ok data => table.deleteRecord ⟨rid, data⟩

/-! ## Runs -/

/-- A call.  The record identifier of a record to insert is what happens to stand there. -/
inductive Call where
  | insert (record : StoredRecord)
  | update (record : StoredRecord) (newData : List UInt8)
  | delete (record : StoredRecord)
  | deleteAt (rid : RID)

def perform (table : RowTable) : Call → Option (Except RC Unit × RowTable)
  | .insert record => table.insertRecord record
  | .update record newData => table.updateRecord record newData
  | .delete record => table.deleteRecord record
  | .deleteAt rid => table.deleteRecordAt rid

/-- The rows that have been inserted and not deleted, after a call that succeeds. -/
def Call.onRows (rows : List StoredRecord) : Call → List StoredRecord
  | insert record => rows ++ [record]
  | update record newData => setData rows record.rid newData
  | delete record => rows.filter fun r => r.rid ≠ record.rid
  | deleteAt rid => rows.filter fun r => r.rid ≠ rid

/-- Updates and deletions are of rows of the table; an update keeps the length of the record. -/
def Call.Proper (rows : List StoredRecord) : Call → Prop
  | insert _ => True
  | update record newData => record ∈ rows ∧ newData.length = record.data.length
  | delete record => record ∈ rows
  | deleteAt rid => ∃ r ∈ rows, r.rid = rid

/-- The floats of an update are among those of the indexed columns. -/
def Call.Reads (indexes : List TableIndex) : Call → Prop
  | update _ newData => ∀ index ∈ indexes, index.Reads newData
  | _ => True

/-- The call is an insertion. -/
def Call.IsInsert : Call → Prop
  | insert _ => True
  | _ => False

/-- A table with the rows that its caller expects in it. -/
structure State where
  table : RowTable
  rows : List StoredRecord

/-- A proper call that returns `SUCCESS`. -/
structure Step (s : State) (c : Call) (s' : State) : Prop where
  proper : c.Proper s.rows
  reads : c.Reads s.table.indexes
  call : s.table.perform c = some (.ok (), s'.table)
  rows : s'.rows = c.onRows s.rows

/-- Calls one after the other. -/
inductive Run : State → List Call → State → Prop
  | nil {s} : Run s [] s
  | cons {s c mid calls last} : Step s c mid → Run mid calls last → Run s (c :: calls) last

/-- The read path agrees with the write path: a full scan gives the rows, each once, and each row
is found under its identifier, in the file and in every index. -/
structure Agrees (s : State) (file : RecordFile) : Prop where
  opened : s.table.file = some file
  scan : ∃ scanned, RecordFileScanner.Scans file .openScan scanned ∧ scanned.Perm s.rows
  getRecord : ∀ r ∈ s.rows, file.getRecord r.rid = .ok r.data
  entries : ∀ r ∈ s.rows, ∀ index ∈ s.table.indexes, index.entry r.data r.rid ∈ index.entries

/-- The rows are those of the record pages, and the indexes hold them. -/
structure Consistent (s : State) (file : RecordFile) : Prop where
  opened : s.table.file = some file
  wellFormed : file.WellFormed
  rows : s.rows = file.records
  holds : ∀ index ∈ s.table.indexes, index.HoldsRecords s.rows

theorem Consistent.agrees {s : State} {file : RecordFile} (h : Consistent s file) :
    Agrees s file where
  opened := h.opened
  scan := ⟨_, RecordFileScanner.scans_records file, by rw [h.rows]⟩
  getRecord r hr := RecordFile.getRecord_of_mem (h.rows ▸ hr)
  entries r hr index hindex := (h.holds index hindex).entry_mem.mpr ⟨r, hr, rfl, rfl⟩

/-! ## What the calls keep -/

variable {table table' : RowTable} {file : RecordFile} {records : List StoredRecord}
  {record : StoredRecord} {indexes indexes' : List TableIndex}

theorem mem_keys_filter {index : TableIndex} (hrecords : DistinctRecords records)
    (hmem : record ∈ records) (key : Key (UserKey index.attrs)) :
    key ∈ index.keys (records.filter fun r => r.rid ≠ record.rid) ↔
      key ∈ index.keys records ∧
        ¬(SameColumns key.userKey (index.userKey record.data) ∧ key.rid = record.rid) := by
  simp only [mem_keys, List.mem_filter, decide_eq_true_eq]
  constructor
  · rintro ⟨r, ⟨hr, hrid⟩, rfl⟩
    exact ⟨⟨r, hr, rfl⟩, fun hc => hrid hc.2⟩
  · rintro ⟨⟨r, hr, rfl⟩, hkept⟩
    refine ⟨r, ⟨hr, fun hrid => hkept ⟨?_, hrid⟩⟩, rfl⟩
    rw [hrecords r hr record hmem hrid]
    exact sameColumns_iff.mpr rfl

theorem deleteEntries_spec (hrecords : DistinctRecords records) (hmem : record ∈ records)
    (h : ∀ index ∈ indexes, index.HoldsRecords records)
    (hcall : deleteEntries record indexes = some indexes') :
    ∀ index' ∈ indexes',
      index'.HoldsRecords (records.filter fun r => r.rid ≠ record.rid) := by
  induction indexes generalizing indexes' with
  | nil =>
    cases hcall
    simp
  | cons index indexes ih =>
    rw [deleteEntries] at hcall
    split at hcall
    case h_2 => cases hcall
    case h_1 index₁ heq =>
      obtain ⟨rest, hrest, rfl⟩ := Option.map_eq_some_iff.mp hcall
      have hindex : index₁.HoldsRecords (records.filter fun r => r.rid ≠ record.rid) := by
        rw [TableIndex.deleteEntry] at heq
        obtain ⟨⟨result, tree⟩, htree, hpair⟩ := Option.map_eq_some_iff.mp heq
        have hheld := h index List.mem_cons_self
        have hkey : (⟨index.userKey record.data, record.rid⟩ : Key (UserKey index.attrs)) ∈
            index.keys records := mem_keys.mpr ⟨record, hmem, rfl⟩
        rcases hheld.holds.deleteEntry index.internalCapacity hkey (mem_keys_filter hrecords hmem) with
          hnone | ⟨tree', htree', hheld'⟩
        · cases hnone.symm.trans htree
        · obtain ⟨-, rfl⟩ := Prod.mk.inj (Option.some.inj (htree'.symm.trans htree))
          obtain ⟨-, rfl⟩ := Prod.mk.inj hpair
          exact ⟨fun r hr => hheld.reads r (List.mem_of_mem_filter hr), hheld'⟩
      intro index' hindex'
      rcases List.mem_cons.mp hindex' with rfl | hindex'
      · exact hindex
      · exact ih (fun ix hix => h ix (List.mem_cons_of_mem _ hix)) hrest index' hindex'

theorem insertRecord_ok {result : Except RC Unit}
    (hcall : table.insertRecord record = some (result, table')) :
    table'.file = table.file ∧ table'.indexes = table.indexes := by
  obtain ⟨r, -, hpair⟩ := Option.map_eq_some_iff.mp hcall
  obtain ⟨-, rfl⟩ := Prod.mk.inj hpair
  exact ⟨rfl, rfl⟩

theorem deleteRecord_ok {s : State} (h : Consistent s file) (hmem : record ∈ s.rows)
    (hcall : s.table.deleteRecord record = some (.ok (), table')) :
    ∃ file', Consistent ⟨table', s.rows.filter fun r => r.rid ≠ record.rid⟩ file' := by
  have hrows := h.rows
  rw [hrows] at hmem ⊢
  rw [deleteRecord, h.opened] at hcall
  split at hcall
  case h_2 => cases hcall
  case h_1 file₁ indexes hfile hdelete =>
    obtain rfl := Option.some.inj hfile
    split at hcall
    case h_2 => cases hcall
    case h_3 => cases hcall
    case h_1 file' hop =>
      cases hcall
      obtain ⟨hw, hrecords⟩ := RecordFile.deleteRecord_spec h.wellFormed hmem hop
      refine ⟨file', rfl, hw, hrecords.symm, ?_⟩
      exact deleteEntries_spec RecordFile.distinct_records hmem (hrows ▸ h.holds) hdelete

theorem deleteRecordAt_ok {s : State} (h : Consistent s file) (hmem : record ∈ s.rows)
    (hcall : s.table.deleteRecordAt record.rid = some (.ok (), table')) :
    s.table.deleteRecord record = some (.ok (), table') := by
  rw [deleteRecordAt, h.opened] at hcall
  have hget := RecordFile.getRecord_of_mem (h.rows ▸ hmem)
  simp only [hget] at hcall
  exact hcall

theorem updateRecord_eq_ok {newData : List UInt8} (hfile : table.file = some file)
    (hcall : table.updateRecord record newData = some (.ok (), table')) :
    ∃ indexes' file', IndexedTable.updateEntryOfIndexes table.recordSize record.data newData
        record.rid table.indexes [] = some (.ok (), indexes') ∧
      file.updateRecord record.rid newData = .ok file' ∧
      table' = { table with indexes := indexes', file := some file' } := by
  rw [updateRecord, hfile] at hcall
  split at hcall
  case h_1 => cases hcall
  case h_2 => cases hcall
  case h_3 => cases hcall
  case h_4 file₁ indexes hfile hupdate =>
    obtain rfl := Option.some.inj hfile
    split at hcall
    case h_2 => cases hcall
    case h_3 => cases hcall
    case h_1 file' hop =>
      cases hcall
      exact ⟨indexes, file', hupdate, hop, rfl⟩

theorem fields_updateRecord {newData : List UInt8}
    (hcall : table.updateRecord record newData = some (.ok (), table')) :
    table'.indexes.map TableIndex.fields = table.indexes.map TableIndex.fields := by
  cases hfile : table.file with
  | none =>
    rw [updateRecord, hfile] at hcall
    cases hcall
  | some file =>
    obtain ⟨indexes', file', hupdate, -, rfl⟩ := updateRecord_eq_ok hfile hcall
    exact IndexedTable.fields_updateEntryOfIndexes hupdate

theorem updateRecord_ok {s : State} {newData : List UInt8} (h : Consistent s file)
    (hmem : record ∈ s.rows) (hsize : newData.length = record.data.length)
    (hreads : ∀ index ∈ s.table.indexes, index.Reads newData)
    (hcall : s.table.updateRecord record newData = some (.ok (), table')) :
    ∃ file', Consistent ⟨table', setData s.rows record.rid newData⟩ file' := by
  have hrows := h.rows
  rw [hrows] at hmem ⊢
  obtain ⟨indexes', file', hupdate, hop, rfl⟩ := updateRecord_eq_ok h.opened hcall
  obtain ⟨hw, hrecords⟩ := RecordFile.updateRecord_spec h.wellFormed hmem hsize hop
  refine ⟨file', rfl, hw, hrecords.symm, fun index' hindex' => ?_⟩
  rcases IndexedTable.updateEntryOfIndexes_spec RecordFile.distinct_records hmem
    (IndexedTable.answered_nil s.table.indexes) (hrows ▸ h.holds) hreads hupdate with
    ⟨⟨rc, hrc⟩, -⟩ | ⟨-, -, hall⟩
  · cases hrc
  · obtain ⟨index, -, tree, rfl, hheld⟩ := IndexedTable.exists_updated_of_mem hall hindex'
    exact hheld

/-- A call other than an insertion keeps the table consistent. -/
theorem Consistent.step {s s' : State} {c : Call} (h : Consistent s file) (hstep : Step s c s')
    (hc : ¬c.IsInsert) : ∃ file', Consistent s' file' := by
  obtain ⟨table', rows'⟩ := s'
  obtain ⟨hproper, hreads, hcall, rfl⟩ := hstep
  cases c with
  | insert record => exact absurd trivial hc
  | update record newData => exact updateRecord_ok h hproper.1 hproper.2 hreads hcall
  | delete record => exact deleteRecord_ok h hproper hcall
  | deleteAt rid =>
    obtain ⟨record, hmem, rfl⟩ := hproper
    exact deleteRecord_ok h hmem (deleteRecordAt_ok h hmem hcall)

theorem Consistent.run {start last : State} {calls : List Call} (h : Consistent start file)
    (hrun : Run start calls last) (hcalls : ∀ c ∈ calls, ¬c.IsInsert) :
    ∃ file', Consistent last file' := by
  induction hrun generalizing file with
  | nil => exact ⟨file, h⟩
  | cons hstep _ ih =>
    obtain ⟨file', h'⟩ := h.step hstep (hcalls _ List.mem_cons_self)
    exact ih h' fun c hc => hcalls c (List.mem_cons_of_mem _ hc)

/-- After an insertion there is one row more than a scan gives. -/
theorem Consistent.not_agrees_insert {s s' : State} (h : Consistent s file)
    (hstep : Step s (.insert record) s') (file' : RecordFile) : ¬Agrees s' file' := by
  intro hagrees
  obtain ⟨hfile, -⟩ := insertRecord_ok hstep.call
  obtain rfl : file' = file :=
    Option.some.inj (hagrees.opened.symm.trans (hfile.trans h.opened))
  obtain ⟨scanned, hscan, hperm⟩ := hagrees.scan
  have hlength := hperm.length_eq
  rw [hscan.unique (RecordFileScanner.scans_records file'), hstep.rows, Call.onRows, h.rows,
    List.length_append, List.length_singleton] at hlength
  omega

/-- The read path agrees with the write path after every part of the run. -/
def AgreesThroughout (start : State) (calls : List Call) : Prop :=
  ∀ before after mid, calls = before ++ after → Run start before mid → ∃ file, Agrees mid file

/-- A run whose states all agree has no insertion, by induction on the run. -/
theorem Consistent.no_insert {start last : State} {calls : List Call} (h : Consistent start file)
    (hrun : Run start calls last) (hagrees : AgreesThroughout start calls) :
    ∀ c ∈ calls, ¬c.IsInsert := by
  induction hrun generalizing file with
  | nil => simp
  | @cons start c mid calls last hstep hrest ih =>
    have hc : ¬c.IsInsert := by
      cases c with
      | insert record =>
        obtain ⟨file', hmid⟩ := hagrees [.insert record] calls mid rfl (.cons hstep .nil)
        exact absurd hmid (h.not_agrees_insert hstep file')
      | update record newData => exact id
      | delete record => exact id
      | deleteAt rid => exact id
    obtain ⟨file', h'⟩ := h.step hstep hc
    have hrest' := ih h' fun before after mid' heq hrun' =>
      hagrees (c :: before) after mid' (by rw [heq, List.cons_append]) (.cons hstep hrun')
    intro c' hc'
    rcases List.mem_cons.mp hc' with rfl | hc'
    · exact hc
    · exact hrest' c' hc'

/-- From a table as it has been created or opened, the read path agrees with the write path
throughout a run exactly when there is a data file and nothing is inserted. -/
theorem agreesThroughout_iff (start last : State) (calls : List Call)
    (hstart : ∀ file, start.table.file = some file → Consistent start file)
    (hrun : Run start calls last) :
    AgreesThroughout start calls ↔
      start.table.file.isSome = true ∧ ∀ c ∈ calls, ¬c.IsInsert := by
  constructor
  · intro hagrees
    obtain ⟨file, h⟩ := hagrees [] calls start rfl .nil
    exact ⟨Option.isSome_iff_exists.mpr ⟨file, h.opened⟩,
      (hstart file h.opened).no_insert hrun hagrees⟩
  · rintro ⟨hsome, hcalls⟩ before after mid rfl hmid
    obtain ⟨file, hfile⟩ := Option.isSome_iff_exists.mp hsome
    obtain ⟨file', h⟩ := (hstart file hfile).run hmid fun c hc =>
      hcalls c (List.mem_append_left _ hc)
    exact ⟨file', h.agrees⟩

/-! ### A table with one row -/

/-- The page of one record, the bytes 1 to 10, in its first slot. -/
def rowPage : RecordPage where
  header := { recordNum := 1, columnNum := 0, recordRealSize := 10, recordSize := 16,
              recordCapacity := 8, colIdxOffset := 32, dataOffset := 32 }
  data i := if i = 28 then 1 else if 32 ≤ i ∧ i < 42 then (i - 31).toUInt8 else 0

def rowFile : RecordFile where
  header := ⟨2, 2, fun i => i < 2⟩
  pages _ := rowPage

def rowTable : RowTable where
  tableMeta := Table.numTable
  recordSize := 10
  engine := Store.empty
  file := some rowFile
  indexes := []

theorem rowTable_consistent (file : RecordFile) (h : rowTable.file = some file) :
    Consistent ⟨rowTable, rowFile.records⟩ file := by
  obtain rfl := Option.some.inj h
  have hpage : rowPage.WellFormed := ⟨by decide, by decide⟩
  refine ⟨rfl, fun _ _ _ => hpage, rfl, ?_⟩
  intro index hindex
  cases hindex

/-- A row that is inserted next to the one of the table is not among those that a scan gives. -/
theorem insert_not_agrees :
    ∃ last, Run ⟨rowTable, rowFile.records⟩ [.insert ⟨⟨1, 1⟩, (Table.numRow 1 2).data⟩] last ∧
      ¬AgreesThroughout ⟨rowTable, rowFile.records⟩
        [.insert ⟨⟨1, 1⟩, (Table.numRow 1 2).data⟩] := by
  have hstep : Step ⟨rowTable, rowFile.records⟩ (.insert ⟨⟨1, 1⟩, (Table.numRow 1 2).data⟩)
      ⟨{ rowTable with
          engine := Store.empty.put (Table.numKey 1) (Table.numRow 1 2).data },
        rowFile.records ++ [⟨⟨1, 1⟩, (Table.numRow 1 2).data⟩]⟩ := ⟨trivial, trivial, rfl, rfl⟩
  refine ⟨_, .cons hstep .nil, fun hagrees => ?_⟩
  obtain ⟨file, hfile⟩ := hagrees [_] [] _ rfl (.cons hstep .nil)
  exact (rowTable_consistent rowFile rfl).not_agrees_insert hstep file hfile

/-- The row of the table with other bytes. -/
def replaceRow : Call :=
  .update ⟨⟨1, 0⟩, [1, 2, 3, 4, 5, 6, 7, 8, 9, 10]⟩ [9, 8, 7, 6, 5, 4, 3, 2, 1, 0]

/-- The row is replaced, and then it is deleted. -/
def replaceAndDelete : List Call :=
  [replaceRow, .deleteAt ⟨1, 0⟩]

theorem agreesThroughout_iff_delete :
    ∃ last, Run ⟨rowTable, rowFile.records⟩ replaceAndDelete last ∧ last.rows = [] ∧
      (AgreesThroughout ⟨rowTable, rowFile.records⟩ replaceAndDelete ↔
        rowTable.file.isSome = true ∧ ∀ c ∈ replaceAndDelete, ¬c.IsInsert) := by
  have hrecords : rowFile.records = [⟨⟨1, 0⟩, [1, 2, 3, 4, 5, 6, 7, 8, 9, 10]⟩] := by decide
  have hnone : ∀ index ∈ rowTable.indexes, index.Reads [9, 8, 7, 6, 5, 4, 3, 2, 1, 0] := by
    intro index hindex
    cases hindex
  have hupdate := @Step.mk ⟨rowTable, rowFile.records⟩ replaceRow
    ⟨_, [⟨⟨1, 0⟩, [9, 8, 7, 6, 5, 4, 3, 2, 1, 0]⟩]⟩
    ⟨by rw [hrecords]; exact List.mem_singleton_self _, rfl⟩ hnone rfl (by rw [hrecords]; rfl)
  have hrun := Run.cons hupdate (.cons (@Step.mk _ (.deleteAt ⟨1, 0⟩) ⟨_, []⟩
    ⟨_, List.mem_singleton_self _, rfl⟩ trivial rfl rfl) .nil)
  exact ⟨_, hrun, rfl, agreesThroughout_iff ⟨rowTable, rowFile.records⟩ _ _ rowTable_consistent hrun⟩

end RowTable

end ObHtap
