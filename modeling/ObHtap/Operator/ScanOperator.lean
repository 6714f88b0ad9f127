import ObHtap.Bplus.ScanBound
import ObHtap.Table.RowTable
import ObHtap.Text.TextFile

/-!
# Scans below a statement that changes its table

`TableScanPhysicalOperator` and `IndexScanPhysicalOperator`.  Both keep a place in the record pages
or in the index and go on from there, in the table as it is by then.
-/

namespace ObHtap

open BplusTreeHandler TableIndex

/-! ## Ranges of an index -/

/-- The bounds of an `IndexScanPhysicalOperator`, as the bytes of their values. -/
structure IndexRange where
  left : List UInt8
  leftInclusive : Bool
  right : List UInt8
  rightInclusive : Bool

namespace TableIndex

/-- A bound as the scanner uses it, and whether it is inclusive.  Only strings are fixed. -/
def fixedBound (index : TableIndex) (userKey : List UInt8) (inclusive wantGreater : Bool) :
    UserKey index.attrs × Bool :=
  match index.attrs.head? with
  | some (.chars _) =>
    let fixed := fixUserKey (UserKey.totalLength index.attrs) userKey wantGreater
    (UserKey.ofBytes index.attrs fixed.1, inclusive || fixed.2)
  | _ => (UserKey.ofBytes index.attrs userKey, inclusive)

def leftBound (index : TableIndex) (range : IndexRange) : UserKey index.attrs × Bool :=
  index.fixedBound range.left range.leftInclusive true

def rightBound (index : TableIndex) (range : IndexRange) : UserKey index.attrs × Bool :=
  index.fixedBound range.right range.rightInclusive false

def leftKey (index : TableIndex) (range : IndexRange) : Key (UserKey index.attrs) :=
  ⟨(index.leftBound range).1, if (index.leftBound range).2 then RID.min else RID.max⟩

def rightKey (index : TableIndex) (range : IndexRange) : Key (UserKey index.attrs) :=
  ⟨(index.rightBound range).1, if (index.rightBound range).2 then RID.max else RID.min⟩

/-- `BplusTreeIndex::create_scanner`. -/
def createScanner (index : TableIndex) (range : IndexRange) :
    Option (Except RC BplusTreeScanner) :=
  let result := UserKey.compare index.attrs (UserKey.ofBytes index.attrs range.left)
    (UserKey.ofBytes index.attrs range.right)
  if 0 < result ∨ result = 0 ∧ (range.leftInclusive = false ∨ range.rightInclusive = false) then
    some (.error .invalidArgument)
  else
    BplusTreeScanner.openScan index.handler index.tree (index.leftKey range) (index.rightKey range)

/-- `BplusTreeIndexScanner::next_entry`. -/
def nextEntry (index : TableIndex) (range : IndexRange) (scanner : BplusTreeScanner) :
    Option (Option (RID × BplusTreeScanner)) :=
  BplusTreeScanner.nextEntry index.handler index.tree.pages (index.rightKey range) scanner

/-- The floats in the bounds are among those of the column. -/
def ReadsRange (index : TableIndex) (range : IndexRange) : Prop :=
  UserKey.Reads index.attrs range.left ∧ UserKey.Reads index.attrs range.right

/-- The column of the index is within the bounds. -/
def InRange (index : TableIndex) (range : IndexRange) (data : List UInt8) : Prop :=
  (let result := UserKey.compare index.attrs (index.leftBound range).1 (index.userKey data)
    if (index.leftBound range).2 then result ≤ 0 else result < 0) ∧
  (let result := UserKey.compare index.attrs (index.userKey data) (index.rightBound range).1
    if (index.rightBound range).2 then result ≤ 0 else result < 0)

end TableIndex

/-! ## The operators -/

/-- What a statement works on: its table with the text files. -/
structure UpdateState where
  table : RowTable
  texts : TextFile
  vectors : TextFile

inductive ScanKind where
  | tableScan
  /-- The number of the index, which has one column. -/
  | indexScan (number : Nat) (range : IndexRange)

/-- Where a scan is. -/
inductive ScanState where
  | table (scanner : RecordFileScanner)
  | index (scanner : BplusTreeScanner)

/-- A scan operator with its predicates and the `visit_record` of the transaction.  A predicate
with a subquery reads tables as they are. -/
structure ScanOperator where
  kind : ScanKind
  filter : UpdateState → List UInt8 → Except RC Bool
  visitRecord : List UInt8 → Except RC Unit

namespace ScanOperator

/-- `open`.  A table without a data file has no buffer pool to scan. -/
def openScan (op : ScanOperator) (s : UpdateState) : Option (Except RC ScanState) :=
  match op.kind with
  | .tableScan =>
    if s.table.file.isNone then none else some (.ok (.table RecordFileScanner.openScan))
  | .indexScan number range =>
    match s.table.indexes[number]? with
    | none => some (.error .internal)
    | some index =>
      match index.createScanner range with
      | none => none
      | some (.error _) => some (.error .internal)
      | some (.ok scanner) =>
        if s.table.file.isNone then some (.error .internal) else some (.ok (.index scanner))

/-- The next record, whether it is visible and satisfies the predicates or not. -/
def fetch (op : ScanOperator) (s : UpdateState) (scan : ScanState) :
    Option (Except RC (StoredRecord × ScanState)) :=
  match op.kind, scan, s.table.file with
  | .tableScan, .table scanner, some file =>
    match scanner.next file with
    | none => some (.error .recordEof)
    | some (record, scanner') => some (.ok (record, .table scanner'))
  | .indexScan number range, .index scanner, some file =>
    match s.table.indexes[number]? with
    | none => none
    | some index =>
      match index.nextEntry range scanner with
      | none => none
      | some none => some (.error .recordEof)
      | some (some (rid, scanner')) =>
        match file.getRecord rid with
        | .error rc => some (.error rc)
        | .ok data => some (.ok (⟨rid, data⟩, .index scanner'))
  | _, _, _ => none

/-- Whether the record is visible.  A conflict ends the scan. -/
def visible (op : ScanOperator) (data : List UInt8) : Except RC Bool :=
  match op.visitRecord data with
  | .ok () => .ok true
  | .error rc => if rc = .recordInvisible then .ok false else .error rc

/-- Whether the operator gives the record.  The record scanner visits it before the predicates are
looked at, the index scan after that. -/
def examine (op : ScanOperator) (s : UpdateState) (data : List UInt8) : Except RC Bool :=
  match op.kind with
  | .tableScan =>
    match op.visible data with
    | .ok true => op.filter s data
    | other => other
  | .indexScan _ _ =>
    match op.filter s data with
    | .ok true => op.visible data
    | other => other

/-- `next`, in so many rounds at most. -/
def next (op : ScanOperator) (s : UpdateState) :
    Nat → ScanState → Option (Except RC (StoredRecord × ScanState))
  | 0, _ => none
  | rounds + 1, scan =>
    match op.fetch s scan with
    | none => none
    | some (.error rc) => some (.error rc)
    | some (.ok (record, scan')) =>
      match op.examine s record.data with
      | .error rc => some (.error rc)
      | .ok true => some (.ok (record, scan'))
      | .ok false => next op s rounds scan'

/-- The scan comes across the record. -/
def Covers (op : ScanOperator) (s : UpdateState) (data : List UInt8) : Prop :=
  match op.kind with
  | .tableScan => True
  | .indexScan number range =>
    ∃ index, s.table.indexes[number]? = some index ∧ index.InRange range data

/-- The record satisfies the predicates, the range of an index scan among them, and is visible. -/
def Matches (op : ScanOperator) (s : UpdateState) (data : List UInt8) : Prop :=
  op.Covers s data ∧ op.filter s data = .ok true ∧ op.visitRecord data = .ok ()

end ScanOperator

/-! ## The rows of a range -/

namespace TableIndex

variable {index : TableIndex} {range : IndexRange} {records : List StoredRecord}
  {data : List UInt8} {rid : RID}

/-- The entry of a stored record. -/
def entryOf (index : TableIndex) (r : StoredRecord) : Item (Key (UserKey index.attrs)) :=
  index.entry r.data r.rid

theorem inRange_iff (hmin : RID.min.rank < rid.rank) (hmax : rid.rank < RID.max.rank) :
    Key.rank (UserKey.rank index.attrs) (index.leftKey range) ≤
        Key.rank (UserKey.rank index.attrs) ⟨index.userKey data, rid⟩ ∧
      Key.rank (UserKey.rank index.attrs) ⟨index.userKey data, rid⟩ ≤
        Key.rank (UserKey.rank index.attrs) (index.rightKey range) ↔
      index.InRange range data := by
  have hcmp := UserKey.ranked index.attrs
  simp only [Key.rank, leftKey, rightKey, Prod.Lex.toLex_le_toLex, InRange]
  apply and_congr
  · cases (index.leftBound range).2 with
    | true =>
      simp only [if_true, hmin.le, and_true]
      rw [hcmp.nonpos_iff]
      exact le_iff_lt_or_eq.symm
    | false =>
      simp only [Bool.false_eq_true, if_false]
      rw [hcmp.neg_iff]
      simp [not_le.mpr hmax]
  · cases (index.rightBound range).2 with
    | true =>
      simp only [if_true, hmax.le, and_true]
      rw [hcmp.nonpos_iff]
      exact le_iff_lt_or_eq.symm
    | false =>
      simp only [Bool.false_eq_true, if_false]
      rw [hcmp.neg_iff]
      simp [not_le.mpr hmin]

theorem exists_map_eq {α β : Type} {f : α → β} {P : α → Prop} {l : List β}
    (h : ∀ b ∈ l, ∃ a, P a ∧ f a = b) : ∃ l' : List α, (∀ a ∈ l', P a) ∧ l'.map f = l := by
  induction l with
  | nil => exact ⟨[], by simp, rfl⟩
  | cons b l ih =>
    obtain ⟨a, ha, rfl⟩ := h b List.mem_cons_self
    obtain ⟨l', hl', rfl⟩ := ih fun b hb => h b (List.mem_cons_of_mem _ hb)
    refine ⟨a :: l', ?_, rfl⟩
    intro a' ha'
    rcases List.mem_cons.mp ha' with rfl | ha'
    · exact ha
    · exact hl' a' ha'

/-- A scanner that has been created has the records within its range to give. -/
theorem createScanner_spec (h : index.HoldsRecords records) (hrecords : DistinctRecords records)
    (hrids : ∀ r ∈ records, RID.min.rank < r.rid.rank ∧ r.rid.rank < RID.max.rank)
    {scanner : BplusTreeScanner} (hcall : index.createScanner range = some (.ok scanner)) :
    ∃ rows : List StoredRecord,
      BplusTreeScanner.Left index.handler index.tree.pages (index.rightKey range) scanner
        (rows.map index.entryOf) ∧
      rows.Pairwise (fun r r' => r.rid ≠ r'.rid) ∧
      ∀ r, r ∈ rows ↔ r ∈ records ∧ index.InRange range r.data := by
  obtain ⟨g, hw, he⟩ := h.holds
  rw [createScanner] at hcall
  split at hcall
  · cases hcall
  obtain ⟨items, ⟨s, hopen, hleft⟩, hsorted, hmem⟩ := BplusTreeScanner.openScan_spec
    index.leafCapacity (ranked_ofAttrs index.attrs index.header) hw (index.leftKey range)
    (index.rightKey range)
  rw [hopen] at hcall
  cases hcall
  have hitem : ∀ item, item ∈ items ↔
      ∃ r, (r ∈ records ∧ index.InRange range r.data) ∧ index.entryOf r = item := by
    intro item
    rw [hmem, he, mem_keys]
    constructor
    · rintro ⟨⟨⟨r, hr, hkey⟩, hvalue⟩, hrange⟩
      obtain ⟨key, value⟩ := item
      obtain rfl : key = _ := hkey
      obtain rfl : value = .rid r.rid := hvalue
      obtain ⟨hmin, hmax⟩ := hrids r hr
      exact ⟨r, ⟨hr, (inRange_iff hmin hmax).mp hrange⟩, rfl⟩
    · rintro ⟨r, ⟨hr, hrange⟩, rfl⟩
      obtain ⟨hmin, hmax⟩ := hrids r hr
      exact ⟨⟨⟨r, hr, rfl⟩, rfl⟩, (inRange_iff hmin hmax).mpr hrange⟩
  obtain ⟨rows, hrows, rfl⟩ := exists_map_eq fun item hi => (hitem item).mp hi
  refine ⟨rows, hleft, ?_, fun r => ⟨hrows r, fun hr => ?_⟩⟩
  · rw [List.pairwise_map] at hsorted
    apply hsorted.imp_of_mem
    intro r r' hr hr' hlt heq
    obtain rfl := hrecords r (hrows r hr).1 r' (hrows r' hr').1 heq
    exact lt_irrefl _ hlt
  · obtain ⟨r', hr', heq⟩ := List.mem_map.mp ((hitem _).mpr ⟨r, hr, rfl⟩)
    have hrid : r'.rid = r.rid := congrArg (fun item => item.key.rid) heq
    exact hrecords r' (hrows r' hr').1 r hr.1 hrid ▸ hr'

end TableIndex

/-! ## The rows that are left -/

namespace ScanOperator

variable {op : ScanOperator} {s s' : UpdateState} {file file' : RecordFile} {scan : ScanState}
  {rows : List StoredRecord}

/-- The rows are those that a scan has yet to come across. -/
inductive Left (op : ScanOperator) (s : UpdateState) (file : RecordFile) :
    ScanState → List StoredRecord → Prop
  | table {scanner : RecordFileScanner} (hkind : op.kind = .tableScan)
      (hvalid : RecordFileScanner.Valid file scanner) :
      Left op s file (.table scanner) (RecordFileScanner.recordsLeft file scanner)
  | index {number : Nat} {range : IndexRange} {index : TableIndex} {scanner : BplusTreeScanner}
      {rows : List StoredRecord} (hkind : op.kind = .indexScan number range)
      (hindex : s.table.indexes[number]? = some index)
      (hleft : BplusTreeScanner.Left index.handler index.tree.pages (index.rightKey range) scanner
        (rows.map index.entryOf))
      (hrows : ∀ r ∈ rows, r ∈ file.records) :
      Left op s file (.index scanner) rows

/-- What comes next is the first of the rows that are left. -/
theorem fetch_spec (hfile : s.table.file = some file) (h : Left op s file scan rows) :
    (op.fetch s scan = some (.error .recordEof) ∧ rows = []) ∨
      ∃ r rest scan', op.fetch s scan = some (.ok (r, scan')) ∧ rows = r :: rest ∧
        Left op s file scan' rest := by
  cases h with
  | table hkind hvalid =>
    rcases RecordFileScanner.next_spec hvalid with
      ⟨hnone, hempty⟩ | ⟨r, scanner', hsome, hvalid', hrows⟩
    · refine Or.inl ⟨?_, hempty⟩
      simp only [fetch, hkind, hfile, hnone]
    · refine Or.inr ⟨r, _, .table scanner', ?_, hrows, .table hkind hvalid'⟩
      simp only [fetch, hkind, hfile, hsome]
  | @index _ _ index _ _ hkind hindex hleft hrows =>
    rcases BplusTreeScanner.nextEntry_spec hleft with
      ⟨hnone, hempty⟩ | ⟨item, rest, scanner', hsome, hitems, hleft'⟩
    · refine Or.inl ⟨?_, List.map_eq_nil_iff.mp hempty⟩
      simp only [fetch, hkind, hfile, hindex, TableIndex.nextEntry, hnone]
    · obtain ⟨r, rest', rfl, rfl, rfl⟩ := List.map_eq_cons_iff.mp hitems
      have hget := RecordFile.getRecord_of_mem (hrows r List.mem_cons_self)
      refine Or.inr ⟨r, rest', .index scanner', ?_, rfl,
        .index hkind hindex hleft' fun r' hr' => hrows r' (List.mem_cons_of_mem _ hr')⟩
      have hrid : (index.entryOf r).value.toRid = r.rid := rfl
      simp only [fetch, hkind, hfile, hindex, TableIndex.nextEntry, hsome, hrid, hget]

theorem examine_congr {data : List UInt8} (h : op.filter s' data = op.filter s data) :
    op.examine s' data = op.examine s data := by
  simp only [examine, h]

theorem matches_iff {data : List UInt8} :
    op.Matches s data ↔ op.Covers s data ∧ op.examine s data = .ok true := by
  rw [Matches]
  apply and_congr_right
  intro _
  simp only [examine, visible]
  cases hkind : op.kind with
  | tableScan =>
    cases hvisit : op.visitRecord data with
    | ok _ => simp
    | error rc => by_cases hrc : rc = .recordInvisible <;> simp [hrc]
  | indexScan number range =>
    cases hfilter : op.filter s data with
    | error rc => simp
    | ok b =>
      cases b with
      | false => simp
      | true =>
        cases hvisit : op.visitRecord data with
        | ok _ => simp
        | error rc => by_cases hrc : rc = .recordInvisible <;> simp [hrc]

/-- The rows that the operator gives. -/
def given (op : ScanOperator) (s : UpdateState) (rows : List StoredRecord) : List StoredRecord :=
  rows.filter fun r => op.examine s r.data = .ok true

theorem mem_given {r : StoredRecord} :
    r ∈ op.given s rows ↔ r ∈ rows ∧ op.examine s r.data = .ok true := by
  simp [given]

/-- `next` gives the first row that is left and matches, and ends when there is none, provided that
no row ends it before.  By induction on the rounds. -/
theorem next_spec (hfile : s.table.file = some file)
    (hends : ∀ r ∈ rows, ∀ rc, op.examine s r.data ≠ .error rc) (h : Left op s file scan rows)
    {rounds : Nat} {result : Except RC (StoredRecord × ScanState)}
    (hcall : op.next s rounds scan = some result) :
    (∃ rc, result = .error rc ∧ op.given s rows = []) ∨
      ∃ r rest scan', result = .ok (r, scan') ∧ Left op s file scan' rest ∧
        op.given s rows = r :: op.given s rest ∧ r :: rest <:+ rows := by
  induction rounds generalizing scan rows with
  | zero => cases hcall
  | succ rounds ih =>
    rw [next] at hcall
    rcases fetch_spec hfile h with ⟨hfetch, rfl⟩ | ⟨r, rest, scan', hfetch, rfl, hleft⟩
    · rw [hfetch] at hcall
      cases hcall
      exact Or.inl ⟨_, rfl, rfl⟩
    · simp only [hfetch] at hcall
      split at hcall
      case h_1 rc hexamine => exact absurd hexamine (hends r List.mem_cons_self rc)
      case h_2 hexamine =>
        cases hcall
        refine Or.inr ⟨r, rest, scan', rfl, hleft, ?_, List.suffix_rfl⟩
        rw [given, List.filter_cons_of_pos (by simpa using hexamine), given]
      case h_3 hexamine =>
        have hskip : op.given s (r :: rest) = op.given s rest :=
          List.filter_cons_of_neg (by simp [hexamine])
        rw [hskip]
        rcases ih (fun r' hr' => hends r' (List.mem_cons_of_mem _ hr')) hleft hcall with
          hend | ⟨r', rest', scan', hok, hleft', hgiven, hsuffix⟩
        · exact Or.inl hend
        · exact Or.inr ⟨r', rest', scan', hok, hleft', hgiven,
            hsuffix.trans (List.suffix_cons r rest)⟩

/-- A record of a file of the size that the buffer pool allows is between the least and the
largest identifier. -/
theorem rid_bounds (hsize : file.header.pageCount ≤ BPFileHeader.maxPageNum) {r : StoredRecord}
    (h : r ∈ file.records) : RID.min.rank < r.rid.rank ∧ r.rid.rank < RID.max.rank := by
  obtain ⟨hpage, ⟨hlt, -⟩, -⟩ := RecordFile.mem_records.mp h
  have hmax : BPFileHeader.maxPageNum < 2147483647 := by decide
  exact ⟨Prod.Lex.toLex_lt_toLex.mpr (Or.inl hpage), RID.rank_lt_max (by omega)⟩

/-- A scan that has been opened has the records to come across that it covers. -/
theorem openScan_spec (hcons : RowTable.Consistent ⟨s.table, file.records⟩ file)
    (hsize : file.header.pageCount ≤ BPFileHeader.maxPageNum)
    (hopen : op.openScan s = some (.ok scan)) :
    ∃ rows, Left op s file scan rows ∧ rows.Pairwise (fun r r' => r.rid ≠ r'.rid) ∧
      ∀ r, r ∈ rows ↔ r ∈ file.records ∧ op.Covers s r.data := by
  rw [openScan] at hopen
  cases hkind : op.kind with
  | tableScan =>
    simp only [hkind] at hopen
    split at hopen
    · cases hopen
    cases hopen
    refine ⟨_, .table hkind fun _ h => (by cases h), RecordFile.pairwise_records, fun r => ?_⟩
    simp only [Covers, hkind, and_true]
    rfl
  | indexScan number range =>
    simp only [hkind] at hopen
    split at hopen
    · cases hopen
    rename_i index hindex
    split at hopen
    · cases hopen
    · cases hopen
    rename_i scanner hcreate
    split at hopen
    · cases hopen
    cases hopen
    have hholds := hcons.holds index (List.mem_of_getElem? hindex)
    obtain ⟨rows, hleft, hpairwise, hmem⟩ := createScanner_spec hholds
      RecordFile.distinct_records (fun r hr => rid_bounds hsize hr) hcreate
    refine ⟨rows, .index hkind hindex hleft fun r hr => ((hmem r).mp hr).1, hpairwise,
      fun r => ?_⟩
    rw [hmem]
    simp only [Covers, hkind, hindex, Option.some.injEq, exists_eq_left']

/-- An index whose key bytes do not change stays as it is. -/
theorem getElem?_updateEntryOfIndexes {recordSize number : Nat} {data newData : List UInt8}
    {rid : RID} {indexes indexes' : List TableIndex} {index : TableIndex}
    {outcomes : List (List (Option RC) × List (Option RC))}
    (hcall : IndexedTable.updateEntryOfIndexes recordSize data newData rid indexes outcomes =
      some (.ok (), indexes'))
    (hindex : indexes[number]? = some index) (hsame : ¬index.Changes data newData) :
    indexes'[number]? = some index := by
  induction indexes generalizing indexes' outcomes number with
  | nil => simp at hindex
  | cons first indexes ih =>
    rw [IndexedTable.updateEntryOfIndexes] at hcall
    split at hcall
    case h_1 => cases hcall
    case h_2 => cases hcall
    case h_3 first' hfirst =>
      obtain ⟨⟨result, rest⟩, hrest, heq⟩ := Option.map_eq_some_iff.mp hcall
      cases heq
      cases number with
      | succ number =>
        rw [List.getElem?_cons_succ] at hindex ⊢
        exact ih hrest hindex
      | zero =>
        obtain rfl := Option.some.inj hindex
        rw [TableIndex.updateEntry, if_pos (not_not.mp hsame)] at hfirst
        cases hfirst
        rfl

theorem Left.exists_index (h : Left op s file scan rows) {number : Nat} {range : IndexRange}
    (hkind : op.kind = .indexScan number range) :
    ∃ index, s.table.indexes[number]? = some index := by
  cases h with
  | table hkind' _ => cases hkind.symm.trans hkind'
  | index hkind' hindex _ _ =>
    cases hkind.symm.trans hkind'
    exact ⟨_, hindex⟩

/-- An update of a row that the scan has come across leaves those that are left, provided that the
index that is scanned stays as it is. -/
theorem Left.updateRecord (h : Left op s file scan rows) (hfile : s.table.file = some file)
    (hwell : file.WellFormed) {r : StoredRecord} {newData : List UInt8} {table' : RowTable}
    (hmem : r ∈ file.records) (hne : ∀ r' ∈ rows, r.rid ≠ r'.rid)
    (hsize : newData.length = r.data.length)
    (hcall : s.table.updateRecord r newData = some (.ok (), table'))
    (hsame : ∀ number range index, op.kind = .indexScan number range →
      s.table.indexes[number]? = some index → ¬index.Changes r.data newData)
    (htable : s'.table = table') :
    ∃ file', table'.file = some file' ∧ Left op s' file' scan rows ∧
      file'.records = setData file.records r.rid newData := by
  obtain ⟨indexes', file', hindexes, hop, rfl⟩ := RowTable.updateRecord_eq_ok hfile hcall
  have hrecords := (RecordFile.updateRecord_spec hwell hmem hsize hop).2
  refine ⟨file', rfl, ?_, hrecords⟩
  cases h with
  | table hkind hvalid =>
    obtain ⟨hvalid', hleft⟩ :=
      RecordFileScanner.recordsLeft_updateRecord hwell hmem hsize hop hvalid
    have hrest : ∀ r' ∈ RecordFileScanner.recordsLeft file _,
        (if r'.rid = r.rid then { r' with data := newData } else r') = id r' := fun r' hr' =>
      if_neg fun hrid => hne r' hr' hrid.symm
    rw [setData, List.map_congr_left hrest, List.map_id] at hleft
    rw [← hleft]
    exact .table hkind hvalid'
  | index hkind hindex hleft hrows =>
    have hindex' := getElem?_updateEntryOfIndexes hindexes hindex
      (hsame _ _ _ hkind hindex)
    refine .index hkind (htable ▸ hindex') hleft fun r' hr' => ?_
    rw [hrecords]
    exact mem_setData.mpr (Or.inr ⟨hrows r' hr', (hne r' hr').symm⟩)

end ScanOperator

end ObHtap
