import ObHtap.Bplus.Rollback
import ObHtap.Bplus.UpdateEntry
import ObHtap.Library.LittleEndian
import ObHtap.Record.RecordFile

/-!
# The indexes of a table

`Table::update_record` and what it does to one index (`table.cpp`, `bplus_tree_index.cpp`).  An
index takes the bytes of its columns out of a record, and whether they are NULL.
-/

namespace ObHtap

open BplusTreeHandler

/-! ## Records and index entries -/

/-- The value that the key comparator reads from the bytes of a column. -/
def KeyAttr.ofBytes : (attr : KeyAttr) → List UInt8 → attr.Val
  | ints, bytes => (bytesInt32 bytes).toInt
  | floats column, bytes => column.ofBits (bytesInt32 bytes)
  | dates, bytes => (bytesInt32 bytes).toInt
  | chars n, bytes => ⟨(bytes ++ List.replicate n 0).take n, by simp⟩

/-- The bytes of a column of floats are those of one of its floats. -/
def KeyAttr.Reads : KeyAttr → List UInt8 → Prop
  | floats column, bytes => bytesInt32 bytes ∈ column.values
  | _, _ => True

/-- The columns of an entry key, which lie one after the other. -/
def UserKey.ofBytes : (attrs : List KeyAttr) → List UInt8 → UserKey attrs
  | [], _ => ()
  | attr :: attrs, bytes =>
    (attr.ofBytes (bytes.take attr.length), ofBytes attrs (bytes.drop attr.length))

/-- The floats of an entry key are among those of their columns. -/
def UserKey.Reads : List KeyAttr → List UInt8 → Prop
  | [], _ => True
  | attr :: attrs, bytes => attr.Reads (bytes.take attr.length) ∧ Reads attrs (bytes.drop attr.length)

/-- What an index reads of the metadata of one of its fields. -/
structure IndexedField where
  attr : KeyAttr
  offset : Nat
  fieldId : Nat

/-- An index of a table.  Its pages have room for as many items as the header says. -/
structure TableIndex where
  fields : List IndexedField
  header : IndexFileHeader
  tree : TreeState (Key (UserKey (fields.map IndexedField.attr)))
  leafCapacity : 2 ≤ header.leafMaxSize
  internalCapacity : 3 ≤ header.internalMaxSize

namespace TableIndex

theorem leafCapacity_ints : 2 ≤ (BplusTreeIndex.fileHeader [.ints] true).leafMaxSize := by
  decide

theorem internalCapacity_ints : 3 ≤ (BplusTreeIndex.fileHeader [.ints] true).internalMaxSize := by
  decide

abbrev attrs (index : TableIndex) : List KeyAttr := index.fields.map IndexedField.attr

abbrev handler (index : TableIndex) : BplusTreeHandler (Key (UserKey index.attrs)) :=
  ofAttrs index.attrs index.header

def withTree (index : TableIndex) (tree : TreeState (Key (UserKey index.attrs))) : TableIndex :=
  { index with tree }

/-- `BplusTreeIndex::make_entry_key`. -/
def makeEntryKey (index : TableIndex) (record : List UInt8) : List UInt8 :=
  index.fields.flatMap fun field => (record.drop field.offset).take field.attr.length

/-- The entry key of a record as the comparator reads it. -/
def userKey (index : TableIndex) (record : List UInt8) : UserKey index.attrs :=
  UserKey.ofBytes index.attrs (index.makeEntryKey record)

/-- The floats of a record are among those of the columns of the index. -/
def Reads (index : TableIndex) (record : List UInt8) : Prop :=
  UserKey.Reads index.attrs (index.makeEntryKey record)

/-- The flag that a field is NULL, from the end of the record. -/
def nullFlag (recordSize : Nat) (record : List UInt8) (field : IndexedField) : Bool :=
  record.getD (recordSize - field.fieldId - 1) 0 ≠ 0

/-- Some field of the index is NULL in the record. -/
def recordNull (index : TableIndex) (recordSize : Nat) (record : List UInt8) : Bool :=
  index.fields.any (nullFlag recordSize record)

/-- `BplusTreeIndex::update_entry`. -/
def updateEntry (index : TableIndex) (record newRecord : List UInt8) (rid : RID)
    (recordNull : Bool) (outcomes : List (Option RC) × List (Option RC)) :
    Option (Except RC Unit × TableIndex) :=
  if index.makeEntryKey record = index.makeEntryKey newRecord then some (.ok (), index)
  else
    (BplusTreeHandler.updateEntry index.handler (index.userKey record) (index.userKey newRecord)
      rid recordNull index.tree outcomes.1 outcomes.2).map fun r => (r.1, index.withTree r.2)

end TableIndex

/-! ## The table -/

/-- A table with its records and its indexes. -/
structure IndexedTable where
  isView : Bool
  recordSize : Nat
  records : List StoredRecord
  indexes : List TableIndex

namespace IndexedTable

/-- `Table::update_entry_of_indexes`, with the outcomes of the page requests for each index. -/
def updateEntryOfIndexes (recordSize : Nat) (record newRecord : List UInt8) (rid : RID) :
    List TableIndex → List (List (Option RC) × List (Option RC)) →
      Option (Except RC Unit × List TableIndex)
  | [], _ => some (.ok (), [])
  | index :: indexes, outcomes =>
    match index.updateEntry record newRecord rid (index.recordNull recordSize record)
      (outcomes.headD ([], [])) with
    | none => none
    | some (.error rc, index') => some (.error rc, index' :: indexes)
    | some (.ok (), index') =>
      (updateEntryOfIndexes recordSize record newRecord rid indexes outcomes.tail).map fun r =>
        (r.1, index' :: r.2)

/-- `RecordFileHandler::update_record`: the slot has to be in use. -/
def updateStored (records : List StoredRecord) (rid : RID) (data : List UInt8) :
    Except RC (List StoredRecord) :=
  if ∃ r ∈ records, r.rid = rid then .ok (setData records rid data) else .error .recordNotExist

/-- `Table::update_record`.  A record may have no data. -/
def updateRecord (table : IndexedTable) (record : Option (List UInt8)) (rid : RID)
    (newRecord : List UInt8) (outcomes : List (List (Option RC) × List (Option RC))) :
    Option (Except RC Unit × IndexedTable) :=
  if table.isView then some (.error .error, table)
  else
    match record with
    | none => some (.error .empty, table)
    | some data =>
      match updateEntryOfIndexes table.recordSize data newRecord rid table.indexes outcomes with
      | none => none
      | some (.error rc, indexes) => some (.error rc, { table with indexes })
      | some (.ok (), indexes) =>
        match updateStored table.records rid newRecord with
        | .error rc => some (.error rc, { table with indexes })
        | .ok records => some (.ok (), { table with indexes, records })

end IndexedTable

/-! ## One index -/

namespace TableIndex

variable {index index' : TableIndex} {records : List StoredRecord} {rid : RID}
  {data newData : List UInt8} {recordSize : Nat}

/-- The entries of the index, in the order of its leaf chain. -/
def entries (index : TableIndex) : List (Item (Key (UserKey index.attrs))) :=
  (leafEntries index.tree).getD []

/-- The entry of a record. -/
def entry (index : TableIndex) (data : List UInt8) (rid : RID) :
    Item (Key (UserKey index.attrs)) :=
  ⟨⟨index.userKey data, rid⟩, .rid rid⟩

/-- The keys of the records. -/
def keys (index : TableIndex) (records : List StoredRecord) :
    Finset (Key (UserKey index.attrs)) :=
  (records.map fun r => ⟨index.userKey r.data, r.rid⟩).toFinset

/-- The index is a well-formed tree with one entry for each record. -/
structure HoldsRecords (index : TableIndex) (records : List StoredRecord) : Prop where
  reads : ∀ r ∈ records, index.Reads r.data
  holds : Holds index.header (Key.rank (UserKey.rank index.attrs)) index.tree (index.keys records)

/-- The two versions of a record differ in the bytes of the entry key. -/
def Changes (index : TableIndex) (data newData : List UInt8) : Prop :=
  index.makeEntryKey data ≠ index.makeEntryKey newData

instance (index : TableIndex) (data newData : List UInt8) :
    Decidable (index.Changes data newData) :=
  inferInstanceAs (Decidable (_ ≠ _))

/-- No two records without NULL have the same columns. -/
def NoTwins (index : TableIndex) (recordSize : Nat) (records : List StoredRecord) : Prop :=
  ∀ r ∈ records, ∀ r' ∈ records, index.recordNull recordSize r.data = false →
    index.recordNull recordSize r'.data = false →
    index.entry r.data r.rid ∈ index.entries → index.entry r'.data r'.rid ∈ index.entries →
    SameColumns (index.userKey r.data) (index.userKey r'.data) → r.rid = r'.rid

/-- The same index with the same entries. -/
def SameEntries (index index' : TableIndex) : Prop :=
  ∃ tree, index' = index.withTree tree ∧
    ∀ item, item ∈ (index.withTree tree).entries ↔ item ∈ index.entries

theorem fields_updateEntry {isNull : Bool} {outcomes : List (Option RC) × List (Option RC)}
    {result : Except RC Unit}
    (hcall : index.updateEntry data newData rid isNull outcomes = some (result, index')) :
    index'.fields = index.fields := by
  rw [updateEntry] at hcall
  split at hcall
  · cases hcall
    rfl
  · obtain ⟨r, -, heq⟩ := Option.map_eq_some_iff.mp hcall
    cases heq
    rfl

theorem reads_congr (h : index'.fields = index.fields) : index'.Reads data ↔ index.Reads data := by
  unfold Reads attrs makeEntryKey
  rw [h]

theorem withTree_inj {tree tree' : TreeState (Key (UserKey index.attrs))}
    (h : index.withTree tree = index.withTree tree') : tree = tree' := by
  simpa [withTree] using h

@[simp] theorem mem_keys {key : Key (UserKey index.attrs)} :
    key ∈ index.keys records ↔ ∃ r ∈ records, key = ⟨index.userKey r.data, r.rid⟩ := by
  simp only [keys, List.mem_toFinset, List.mem_map, eq_comm]

/-- The leaf chain has the entries of the keys. -/
theorem mem_entries_of_holds {S : Finset (Key (UserKey index.attrs))}
    {tree : TreeState (Key (UserKey index.attrs))}
    (h : Holds index.header (Key.rank (UserKey.rank index.attrs)) tree S)
    {item : Item (Key (UserKey index.attrs))} :
    item ∈ (index.withTree tree).entries ↔ item.key ∈ S ∧ item.value = .rid item.key.rid := by
  have hcmp : RankedBy index.handler.keyComparator (Key.rank (UserKey.rank index.attrs)) :=
    ranked_ofAttrs index.attrs index.header
  obtain ⟨keys, hkeys, -, hmem⟩ := Holds.leafEntries hcmp h
  change item ∈ (leafEntries tree).getD [] ↔ _
  rw [hkeys, Option.getD_some, ← hmem]
  constructor
  · intro hitem
    obtain ⟨key, hkey, rfl⟩ := List.mem_map.mp hitem
    exact ⟨hkey, rfl⟩
  · rintro ⟨hkey, hvalue⟩
    apply List.mem_map.mpr
    exact ⟨item.key, hkey, by rw [← hvalue]⟩

theorem HoldsRecords.mem_entries (h : index.HoldsRecords records)
    {item : Item (Key (UserKey index.attrs))} :
    item ∈ index.entries ↔ item.key ∈ index.keys records ∧ item.value = .rid item.key.rid :=
  mem_entries_of_holds h.holds

theorem HoldsRecords.entry_mem (h : index.HoldsRecords records) :
    index.entry data rid ∈ index.entries ↔
      ∃ r ∈ records, index.userKey r.data = index.userKey data ∧ r.rid = rid := by
  rw [h.mem_entries]
  simp only [entry, mem_keys, Key.mk.injEq, and_true, eq_comm]

theorem distinctRids_keys (h : DistinctRecords records) : DistinctRids (index.keys records) := by
  intro key hkey key' hkey' heq
  obtain ⟨r, hr, rfl⟩ := mem_keys.mp hkey
  obtain ⟨r', hr', rfl⟩ := mem_keys.mp hkey'
  rw [h r hr r' hr' heq]

theorem mem_setData {r : StoredRecord} :
    r ∈ setData records rid newData ↔
      (∃ r₀ ∈ records, r₀.rid = rid ∧ r = ⟨rid, newData⟩) ∨ r ∈ records ∧ r.rid ≠ rid := by
  rw [setData, List.mem_map]
  constructor
  · rintro ⟨r₀, hr₀, rfl⟩
    by_cases hrid : r₀.rid = rid
    · rw [if_pos hrid]
      exact Or.inl ⟨r₀, hr₀, hrid, by rw [hrid]⟩
    · rw [if_neg hrid]
      exact Or.inr ⟨hr₀, hrid⟩
  · rintro (⟨r₀, hr₀, hrid, rfl⟩ | ⟨hr, hrid⟩)
    · exact ⟨r₀, hr₀, by rw [if_pos hrid, hrid]⟩
    · exact ⟨r, hr, if_neg hrid⟩

/-- What the entries are after the record has changed: the new key has come in and the old one
has gone. -/
theorem mem_keys_setData (hrecords : DistinctRecords records) (hmem : ⟨rid, data⟩ ∈ records)
    (hne : ¬SameColumns (index.userKey data) (index.userKey newData))
    (key : Key (UserKey index.attrs)) :
    key ∈ index.keys (setData records rid newData) ↔
      key ∈ insert ⟨index.userKey newData, rid⟩ (index.keys records) ∧
        ¬(SameColumns key.userKey (index.userKey data) ∧ key.rid = rid) := by
  simp only [mem_keys, Finset.mem_insert, mem_setData]
  constructor
  · rintro ⟨r, ⟨r₀, -, -, rfl⟩ | ⟨hr, hrid⟩, rfl⟩
    · refine ⟨Or.inl rfl, fun hc => hne ?_⟩
      rw [sameColumns_iff] at hc ⊢
      exact hc.1.symm
    · exact ⟨Or.inr ⟨r, hr, rfl⟩, fun hc => hrid hc.2⟩
  · rintro ⟨rfl | ⟨r, hr, rfl⟩, hkept⟩
    · exact ⟨⟨rid, newData⟩, Or.inl ⟨_, hmem, rfl, rfl⟩, rfl⟩
    · refine ⟨r, Or.inr ⟨hr, fun hrid => hkept ⟨?_, hrid⟩⟩, rfl⟩
      rw [hrecords r hr _ hmem hrid]
      exact sameColumns_iff.mpr rfl

theorem keys_setData_eq (hrecords : DistinctRecords records) (hmem : ⟨rid, data⟩ ∈ records)
    (hsame : ¬index.Changes data newData) :
    index.keys (setData records rid newData) = index.keys records := by
  have hkey : index.userKey newData = index.userKey data := by
    rw [userKey, userKey, not_not.mp hsame]
  ext key
  simp only [mem_keys, mem_setData]
  constructor
  · rintro ⟨r, ⟨r₀, -, -, rfl⟩ | ⟨hr, -⟩, rfl⟩
    · exact ⟨_, hmem, by rw [hkey]⟩
    · exact ⟨r, hr, rfl⟩
  · rintro ⟨r, hr, rfl⟩
    by_cases hrid : r.rid = rid
    · obtain rfl := hrecords r hr _ hmem hrid
      exact ⟨⟨rid, newData⟩, Or.inl ⟨_, hmem, rfl, rfl⟩, by rw [hkey]⟩
    · exact ⟨r, Or.inr ⟨hr, hrid⟩, rfl⟩

/-- The index holds the changed record. -/
def Updated (records : List StoredRecord) (newData : List UInt8) (rid : RID)
    (index index' : TableIndex) : Prop :=
  ∃ tree, index' = index.withTree tree ∧
    (index.withTree tree).HoldsRecords (setData records rid newData)

theorem sameEntries_of_keys_eq {records' : List StoredRecord}
    {tree : TreeState (Key (UserKey index.attrs))} (h : index.HoldsRecords records)
    (h' : (index.withTree tree).HoldsRecords records')
    (hkeys : index.keys records' = index.keys records) :
    SameEntries index (index.withTree tree) := by
  refine ⟨tree, rfl, fun (item : Item (Key (UserKey index.attrs))) => ?_⟩
  have hold : item ∈ index.entries ↔
      item.key ∈ index.keys records' ∧ item.value = .rid item.key.rid := by
    rw [h.mem_entries, hkeys]
  exact Iff.trans h'.mem_entries hold.symm

theorem HoldsRecords.reads_setData (h : index.HoldsRecords records) (hreads : index.Reads newData) :
    ∀ r ∈ setData records rid newData, index.Reads r.data := by
  intro r hr
  rcases mem_setData.mp hr with ⟨-, -, -, rfl⟩ | ⟨hr, -⟩
  · exact hreads
  · exact h.reads r hr

/-- A record whose key bytes do not change is held as it is. -/
theorem HoldsRecords.setData_of_same (h : index.HoldsRecords records)
    (hrecords : DistinctRecords records) (hmem : ⟨rid, data⟩ ∈ records)
    (hreads : index.Reads newData) (hsame : ¬index.Changes data newData) :
    index.HoldsRecords (setData records rid newData) where
  reads := h.reads_setData hreads
  holds := by
    rw [keys_setData_eq hrecords hmem hsame]
    exact h.holds

/-- A call on the tree that returns an error leaves the entries. -/
theorem sameEntries_of_error {S : Finset (Key (UserKey index.attrs))}
    {tree tree' : TreeState (Key (UserKey index.attrs))}
    (h : Holds index.header (Key.rank (UserKey.rank index.attrs)) tree S)
    {c : Call (UserKey index.attrs)} {rc : RC}
    (hcall : index.handler.call c tree = some (.error rc, tree'))
    (item : Item (Key (UserKey index.attrs))) :
    item ∈ (index.withTree tree').entries ↔ item ∈ (index.withTree tree).entries := by
  have hL : 0 < index.handler.fileHeader.leafMaxSize := Nat.zero_lt_of_lt index.leafCapacity
  have hcmp : RankedBy index.handler.keyComparator (Key.rank (UserKey.rank index.attrs)) :=
    ranked_ofAttrs index.attrs index.header
  obtain ⟨keys, hkeys, -⟩ := Holds.leafEntries hcmp h
  obtain ⟨g, hw, -⟩ := h
  have hkeys' := leafEntries_of_call_error hL hw.tree.treePages hcall hkeys
  change item ∈ (leafEntries tree').getD [] ↔ item ∈ (leafEntries tree).getD []
  rw [hkeys, hkeys']

section

variable (h : index.HoldsRecords records) {isNull : Bool}
  (hnot : ¬InsertRefused index.header index.tree (index.keys records) (index.userKey newData) rid
    isNull)
  {tree tree' : TreeState (Key (UserKey index.attrs))}
  (hheld : Holds index.header (Key.rank (UserKey.rank index.attrs)) tree
    (insert ⟨index.userKey newData, rid⟩ (index.keys records)))
include h hnot hheld

/-- When the deletion is served as well, the tree holds the changed record. -/
theorem holdsRecords_of_deleted (hrecords : DistinctRecords records)
    (hmem : ⟨rid, data⟩ ∈ records) (hreads : index.Reads newData) {result : Except RC Unit}
    (hdel : deleteEntry index.handler (index.userKey data) rid tree [] = some (result, tree')) :
    result = .ok () ∧ (index.withTree tree').HoldsRecords (setData records rid newData) := by
  have hne : ¬SameColumns (index.userKey data) (index.userKey newData) := fun hc =>
    hnot (Or.inl ⟨_, mem_keys.mpr ⟨_, hmem, rfl⟩, hc, rfl⟩)
  have hin : (⟨index.userKey data, rid⟩ : Key (UserKey index.attrs)) ∈
      insert ⟨index.userKey newData, rid⟩ (index.keys records) :=
    Finset.mem_insert_of_mem (mem_keys.mpr ⟨_, hmem, rfl⟩)
  rcases hheld.deleteEntry index.internalCapacity hin (mem_keys_setData hrecords hmem hne) with
    hnone | ⟨t₂, ht₂, h₂⟩
  · cases hnone.symm.trans hdel
  · obtain ⟨rfl, rfl⟩ := Prod.mk.inj (Option.some.inj (ht₂.symm.trans hdel))
    exact ⟨rfl, h.reads_setData hreads, h₂⟩

/-- The new key is among the entries now, and was not before. -/
theorem not_sameEntries_of_inserted
    (hsame : ∀ item, item ∈ (index.withTree tree').entries ↔ item ∈ (index.withTree tree).entries) :
    ¬SameEntries index (index.withTree tree') := by
  rintro ⟨tree₁, htree, hentries⟩
  obtain rfl := withTree_inj htree
  have hnew : index.entry newData rid ∈ (index.withTree tree).entries :=
    (mem_entries_of_holds hheld).mpr ⟨Finset.mem_insert_self _ _, rfl⟩
  obtain ⟨r, hr, hkey, hrid⟩ := h.entry_mem.mp ((hentries _).mp ((hsame _).mpr hnew))
  apply hnot
  refine Or.inl ⟨_, mem_keys.mpr ⟨r, hr, rfl⟩, ?_, hrid⟩
  rw [hkey]
  exact sameColumns_iff.mpr rfl

end

end TableIndex

/-! ## The calls on the indexes -/

/-- An index with the outcomes of the page requests of its calls. -/
structure IndexCall where
  index : TableIndex
  insertion : List (Option RC)
  deletion : List (Option RC)

namespace IndexCall

variable (c : IndexCall) (records : List StoredRecord) (recordSize : Nat)
  (data newData : List UInt8) (rid : RID)

/-- The new key does not get into the index: it is another one than before, and a page request of
its insertion is refused, or it compares equal to a key with the same record identifier, or the
uniqueness check, which is made unless the old record has a NULL, comes upon the same bytes. -/
def Refuses : Prop :=
  c.index.Changes data newData ∧ (c.insertion ≠ [] ∨
    InsertRefused c.index.header c.index.tree (c.index.keys records) (c.index.userKey newData) rid
      (c.index.recordNull recordSize data))

/-- The new key gets into the index, but a page request of the deletion of the old one is
refused. -/
def KeepsBoth : Prop :=
  c.index.Changes data newData ∧ ¬c.Refuses records recordSize data newData rid ∧ c.deletion ≠ []

/-- The insertion of the new key into the tree. -/
def inserted : Option (Except RC Unit × TreeState (Key (UserKey c.index.attrs))) :=
  insertEntry c.index.handler (c.index.userKey newData) rid (c.index.recordNull recordSize data)
    c.index.tree c.insertion

/-- A call with a page request that is refused does not return `SUCCESS`. -/
structure Answered : Prop where
  insertion : c.insertion ≠ [] → ∀ tree, c.inserted recordSize data newData rid ≠ some (.ok (), tree)
  deletion : c.deletion ≠ [] → ∀ tree tree',
    c.inserted recordSize data newData rid = some (.ok (), tree) →
    deleteEntry c.index.handler (c.index.userKey data) rid tree c.deletion ≠ some (.ok (), tree')

end IndexCall

namespace TableIndex

variable {records : List StoredRecord} {rid : RID} {data newData : List UInt8} {recordSize : Nat}
  {c : IndexCall} {index' : TableIndex}

/-- An insertion that returns an error is one of a key that is refused. -/
theorem refuses_of_error (hrecords : DistinctRecords records) (h : c.index.HoldsRecords records)
    (hchanges : c.index.Changes data newData) {rc : RC}
    {tree : TreeState (Key (UserKey c.index.attrs))}
    (hins : c.inserted recordSize data newData rid = some (.error rc, tree)) :
    c.Refuses records recordSize data newData rid := by
  refine ⟨hchanges, ?_⟩
  by_cases hserved : c.insertion = []
  · right
    rw [IndexCall.inserted, hserved] at hins
    rcases h.holds.insertEntry c.index.leafCapacity c.index.internalCapacity
      (distinctRids_keys hrecords) (c.index.userKey newData) rid
      (c.index.recordNull recordSize data) with ⟨href, -⟩ | ⟨-, t₁, ht₁, -⟩
    · exact href
    · cases ht₁.symm.trans hins
  · exact Or.inl hserved

/-- After an insertion that succeeds the tree has the new key as well. -/
theorem inserted_ok (hrecords : DistinctRecords records) (h : c.index.HoldsRecords records)
    (hanswered : c.Answered recordSize data newData rid)
    {tree : TreeState (Key (UserKey c.index.attrs))}
    (hins : c.inserted recordSize data newData rid = some (.ok (), tree)) :
    ¬InsertRefused c.index.header c.index.tree (c.index.keys records) (c.index.userKey newData) rid
        (c.index.recordNull recordSize data) ∧
      ¬c.Refuses records recordSize data newData rid ∧
      Holds c.index.header (Key.rank (UserKey.rank c.index.attrs)) tree
        (insert ⟨c.index.userKey newData, rid⟩ (c.index.keys records)) := by
  have hserved : c.insertion = [] := by
    by_contra hne
    exact hanswered.insertion hne tree hins
  have hins' := hins
  rw [IndexCall.inserted, hserved] at hins'
  rcases h.holds.insertEntry c.index.leafCapacity c.index.internalCapacity
    (distinctRids_keys hrecords) (c.index.userKey newData) rid
    (c.index.recordNull recordSize data) with ⟨-, rc, t₁, ht₁, -⟩ | ⟨hnot, t₁, ht₁, h₁⟩
  · cases ht₁.symm.trans hins'
  · obtain ⟨-, rfl⟩ := Prod.mk.inj (Option.some.inj (ht₁.symm.trans hins'))
    exact ⟨hnot, fun href => href.2.elim (absurd hserved) hnot, h₁⟩

/-- One index: when the new key does not get in, its entries stay, when the old one does not get
out, they do not, and otherwise it holds the changed record. -/
theorem updateEntry_spec (hrecords : DistinctRecords records) (hmem : ⟨rid, data⟩ ∈ records)
    (h : c.index.HoldsRecords records) (hreads : c.index.Reads newData)
    (hanswered : c.Answered recordSize data newData rid) {result : Except RC Unit}
    (hcall : c.index.updateEntry data newData rid (c.index.recordNull recordSize data)
      (c.insertion, c.deletion) = some (result, index')) :
    ((∃ rc, result = .error rc) ∧ c.Refuses records recordSize data newData rid ∧
        SameEntries c.index index') ∨
      ((∃ rc, result = .error rc) ∧ c.KeepsBoth records recordSize data newData rid ∧
        ¬SameEntries c.index index') ∨
      (result = .ok () ∧ ¬c.Refuses records recordSize data newData rid ∧
        ¬c.KeepsBoth records recordSize data newData rid ∧
        Updated records newData rid c.index index') := by
  by_cases hchanges : c.index.Changes data newData
  · rw [updateEntry, if_neg hchanges, BplusTreeHandler.updateEntry] at hcall
    cases hins : c.inserted recordSize data newData rid with
    | none =>
      have hins' : insertEntry _ _ _ _ _ _ = _ := hins
      rw [hins'] at hcall
      cases hcall
    | some r =>
      obtain ⟨result₁, t₁⟩ := r
      have hins' : insertEntry _ _ _ _ _ _ = _ := hins
      rw [hins'] at hcall
      cases result₁ with
      | error rc =>
        cases hcall
        refine Or.inl ⟨⟨rc, rfl⟩, refuses_of_error hrecords h hchanges hins, t₁, rfl, ?_⟩
        exact sameEntries_of_error h.holds (c := ⟨.insert _ _ _, c.insertion⟩) hins
      | ok u =>
        obtain ⟨hnot, hnotRefuses, h₁⟩ := inserted_ok hrecords h hanswered hins
        obtain ⟨⟨result₂, t₂⟩, hdel, heq⟩ := Option.map_eq_some_iff.mp hcall
        cases heq
        have hdel' : deleteEntry c.index.handler (c.index.userKey data) rid t₁ c.deletion =
          some (result₂, t₂) := hdel
        by_cases hserved : c.deletion = []
        · rw [hserved] at hdel'
          obtain ⟨rfl, h₂⟩ := holdsRecords_of_deleted h hnot h₁ hrecords hmem hreads hdel'
          exact Or.inr (Or.inr ⟨rfl, hnotRefuses, fun hboth => hboth.2.2 hserved, t₂, rfl, h₂⟩)
        · cases result₂ with
          | ok u => exact absurd hdel' (hanswered.deletion hserved t₁ t₂ hins)
          | error rc =>
            refine Or.inr (Or.inl ⟨⟨rc, rfl⟩, ⟨hchanges, hnotRefuses, hserved⟩, ?_⟩)
            exact not_sameEntries_of_inserted h hnot h₁
              (sameEntries_of_error h₁ (c := ⟨.delete _ _, c.deletion⟩) hdel')
  · rw [updateEntry, if_pos (not_not.mp hchanges)] at hcall
    cases hcall
    refine Or.inr (Or.inr ⟨rfl, fun href => hchanges href.1, fun hboth => hchanges hboth.1,
      c.index.tree, rfl, ?_⟩)
    exact h.setData_of_same hrecords hmem hreads hchanges

end TableIndex

end ObHtap
