import ObHtap.Operator.ScanOperator
import ObHtap.Table.MakeRecord
import ObHtap.Text.TextUpdates

/-!
# The UPDATE operator

`UpdatePhysicalOperator::open` updates each row when its scan comes across it, with the scan still
open.  The rows of a scan whose place an update does not move are updated once each; a scan of an
index loses its place when the update moves entries of that index.  `Trx::update_record` calls
`Table::update_record`; what `MvccTrx` stamps into the copy of the old record before is in the
columns of no index.
-/

namespace ObHtap

open BplusTreeHandler TableIndex

/-! ## Assignments -/

/-- A `Value` with its bytes. -/
structure Value where
  attrType : AttrType
  data : List UInt8

namespace Value

def isNull (value : Value) : Bool := value.attrType = .nulls

end Value

/-- An UPDATE with its scan and the fields it assigns to.  `uninitialized` is what the variable for
a new page number holds that nothing has been stored in, and `stored` what the disk has of the
pages of a text file. -/
structure UpdatePhysicalOperator where
  child : ScanOperator
  values : List (FieldMeta × Value)
  uninitialized : Int32
  stored : TextFile → Nat → TextPage

namespace UpdatePhysicalOperator

/-- An assignment to a field of type `TEXTS`.  The return code of `update_text` is not looked
at. -/
def assignText (op : UpdatePhysicalOperator) (oldData : List UInt8) (field : FieldMeta)
    (value : Value) (texts : TextFile) (record : List UInt8) :
    Option (Except RC (List UInt8) × TextFile) :=
  let offset := field.attrOffset.toNatClampNeg
  if value.isNull then
    ((memcpy record offset (int32Bytes (-1))).bind (setNullFlag field true)).map fun r =>
      (.ok r, texts)
  else if value.attrType ≠ .chars then some (.error .error, texts)
  else if maxTextLength < value.data.length then some (.error .error, texts)
  else
    match texts.updateText (op.stored texts) (bytesInt32 ((oldData.drop offset).take 4)).toInt value.data with
    | none => none
    | some (result, texts') =>
      let newPageNum :=
        match result with
        | .ok pageNum => Int32.ofInt pageNum
        | .error _ => op.uninitialized
      ((memcpy record offset (int32Bytes newPageNum)).bind (setNullFlag field false)).map fun r =>
        (.ok r, texts')

/-- An assignment to a field of type `HIGH_VECTORS`.  The null bit is left as it is. -/
def assignVector (op : UpdatePhysicalOperator) (oldData : List UInt8) (field : FieldMeta)
    (value : Value) (vectors : TextFile) (record : List UInt8) :
    Option (Except RC (List UInt8) × TextFile) :=
  let offset := field.attrOffset.toNatClampNeg
  if value.isNull then (memcpy record offset (int32Bytes (-1))).map fun r => (.ok r, vectors)
  else if value.attrType ≠ .vectors then some (.error .error, vectors)
  else if maxVectorDim * 4 < value.data.length then some (.error .error, vectors)
  else if (value.data.length : Int) ≠ field.realLen.toInt then some (.error .error, vectors)
  else
    match vectors.updateText (op.stored vectors) (bytesInt32 ((oldData.drop offset).take 4)).toInt value.data with
    | none => none
    | some (.error rc, vectors') => some (.error rc, vectors')
    | some (.ok pageNum, vectors') =>
      (memcpy record offset (int32Bytes (Int32.ofInt pageNum))).map fun r => (.ok r, vectors')

/-- An assignment to any other field.  A string that is shorter than the field is copied with its
terminating zero. -/
def assignPlain (field : FieldMeta) (value : Value) (record : List UInt8) :
    Option (List UInt8) :=
  let bytes :=
    if value.attrType = .chars ∧ (value.data.length : Int) < field.attrLen.toInt then
      value.data ++ [0]
    else value.data
  (memcpy record field.attrOffset.toNatClampNeg bytes).bind (setNullFlag field value.isNull)

/-- One assignment. -/
def assignField (op : UpdatePhysicalOperator) (oldData : List UInt8) (field : FieldMeta)
    (value : Value) (s : UpdateState) (record : List UInt8) :
    Option (Except RC (List UInt8) × UpdateState) :=
  match field.attrType with
  | .texts =>
    (op.assignText oldData field value s.texts record).map fun r => (r.1, { s with texts := r.2 })
  | .highVectors =>
    (op.assignVector oldData field value s.vectors record).map fun r =>
      (r.1, { s with vectors := r.2 })
  | _ => (assignPlain field value record).map fun r => (.ok r, s)

/-- The loop over the assignments. -/
def assign (op : UpdatePhysicalOperator) (oldData : List UInt8) :
    List (FieldMeta × Value) → UpdateState → List UInt8 →
      Option (Except RC (List UInt8) × UpdateState)
  | [], s, record => some (.ok record, s)
  | (field, value) :: rest, s, record =>
    match op.assignField oldData field value s record with
    | none => none
    | some (.error rc, s') => some (.error rc, s')
    | some (.ok record', s') => assign op oldData rest s' record'

/-- The new data of a row. -/
def newRecordData (op : UpdatePhysicalOperator) (s : UpdateState) (data : List UInt8) :
    Option (Except RC (List UInt8) × UpdateState) :=
  op.assign data op.values s data

/-! ## The loop -/

/-- The loop of `open`, in so many rounds at most, with the rows it has updated and their new data.
Whatever `next` returns in the end, the loop ends with `SUCCESS`. -/
def updateLoop (op : UpdatePhysicalOperator) :
    Nat → UpdateState → ScanState →
      Option (Except RC Unit × UpdateState × List (StoredRecord × List UInt8))
  | 0, _, _ => none
  | rounds + 1, s, scan =>
    match op.child.next s rounds scan with
    | none => none
    | some (.error _) => some (.ok (), s, [])
    | some (.ok (record, scan')) =>
      if op.values = [] then some (.error .error, s, [])
      else
        match op.newRecordData s record.data with
        | none => none
        | some (.error rc, s') => some (.error rc, s', [])
        | some (.ok newData, s') =>
          match s'.table.updateRecord record newData with
          | none => none
          | some (.error rc, table) => some (.error rc, { s' with table }, [])
          | some (.ok (), table) =>
            (updateLoop op rounds { s' with table } scan').map fun r =>
              (r.1, r.2.1, (record, newData) :: r.2.2)

/-- `open`. -/
def openUpdate (op : UpdatePhysicalOperator) (rounds : Nat) (s : UpdateState) :
    Option (Except RC Unit × UpdateState × List (StoredRecord × List UInt8)) :=
  match op.child.openScan s with
  | none => none
  | some (.error rc) => some (.error rc, s, [])
  | some (.ok scan) => op.updateLoop rounds s scan

/-! ## What an UPDATE promises -/

/-- Where the null flag of a column is. -/
def nullFlagAt (field : FieldMeta) (record : List UInt8) : Nat :=
  record.length - field.fieldId.toNatClampNeg - 1

/-- A column has been given a null flag, and the other columns are as they were. -/
structure SetsColumn (field : FieldMeta) (isNull : Bool) (record record' : List UInt8) : Prop where
  length : record'.length = record.length
  flag : record'[nullFlagAt field record]? = some (if isNull then 1 else 0)
  other : ∀ i, i ≠ nullFlagAt field record →
    ¬(field.attrOffset.toNatClampNeg ≤ i ∧
      i < field.attrOffset.toNatClampNeg + field.attrLen.toNatClampNeg) → record'[i]? = record[i]?

/-- The bytes are at the front of a column. -/
def HasBytes (field : FieldMeta) (bytes record : List UInt8) : Prop :=
  ∀ i, i < bytes.length → record[field.attrOffset.toNatClampNeg + i]? = bytes[i]?

/-- A column has the page of a new text, which has taken the place of the old one; the page of
`NULL` is -1. -/
def HasText (oldData : List UInt8) (field : FieldMeta) (value : Value) (record : List UInt8)
    (texts texts' : TextFile) : Prop :=
  if value.isNull then HasBytes field (int32Bytes (-1)) record ∧ texts' = texts
  else ∃ newPage, HasBytes field (int32Bytes (Int32.ofInt newPage)) record ∧
    texts.Replaces texts'
      (bytesInt32 ((oldData.drop field.attrOffset.toNatClampNeg).take 4)).toInt newPage value.data

/-- A column has its new value, and a string that is shorter than the column ends with a zero. -/
def HasValue (oldData : List UInt8) (field : FieldMeta) (value : Value) (s : UpdateState)
    (record : List UInt8) (s' : UpdateState) : Prop :=
  match field.attrType with
  | .texts =>
    HasText oldData field value record s.texts s'.texts ∧ s' = { s with texts := s'.texts }
  | .highVectors =>
    HasText oldData field value record s.vectors s'.vectors ∧ s' = { s with vectors := s'.vectors }
  | _ => s' = s ∧ (value.isNull = false → HasBytes field value.data record ∧
      (value.attrType = .chars → value.data.length < field.attrLen.toNatClampNeg →
        record[field.attrOffset.toNatClampNeg + value.data.length]? = some 0))

/-- The assignments have been applied to a record one after the other. -/
inductive Assigned (oldData : List UInt8) :
    List (FieldMeta × Value) → UpdateState → List UInt8 → UpdateState → List UInt8 → Prop
  | nil (s : UpdateState) (record : List UInt8) : Assigned oldData [] s record s record
  | cons {field : FieldMeta} {value : Value} {rest : List (FieldMeta × Value)}
      {s s₁ s' : UpdateState} {record record₁ record' : List UInt8}
      (hsets : SetsColumn field value.isNull record record₁)
      (hvalue : HasValue oldData field value s record₁ s₁)
      (hrest : Assigned oldData rest s₁ record₁ s' record') :
      Assigned oldData ((field, value) :: rest) s record s' record'

/-- The assignments have been applied to rows one after the other, each of which has got its new
data; only the table is changed besides. -/
inductive AssignedRows (values : List (FieldMeta × Value)) :
    List (StoredRecord × List UInt8) → UpdateState → UpdateState → Prop
  | nil (s : UpdateState) : AssignedRows values [] s s
  | cons {r : StoredRecord} {newData : List UInt8} {rest : List (StoredRecord × List UInt8)}
      {s s₁ s' : UpdateState} {table : RowTable}
      (hassigned : Assigned r.data values s r.data s₁ newData)
      (hrest : AssignedRows values rest { s₁ with table } s') :
      AssignedRows values ((r, newData) :: rest) s s'

/-- The assignments have been applied once to each record that matched before the statement, and
to no other. -/
structure UpdatedOnce (op : UpdatePhysicalOperator) (s s' : UpdateState) (file file' : RecordFile)
    (updated : List (StoredRecord × List UInt8)) : Prop where
  once : (updated.map Prod.fst).Nodup
  rows : ∀ r, r ∈ updated.map Prod.fst ↔ r ∈ file.records ∧ op.child.Matches s r.data
  assigned : AssignedRows op.values updated s s'
  result : ∀ r, r ∈ file'.records ↔
    (∃ u ∈ updated, r = ⟨u.1.rid, u.2⟩) ∨ r ∈ file.records ∧ ¬op.child.Matches s r.data

/-! ## The condition -/

/-- A value has no more bytes than its column, a text takes the place of another one, and a column
of type `HIGH_VECTORS` stays `NULL` or not. -/
structure Fits (op : UpdatePhysicalOperator) (oldData : List UInt8) (field : FieldMeta)
    (value : Value) (s : UpdateState) (record : List UInt8) : Prop where
  placed : field.attrOffset.toNatClampNeg + field.attrLen.toNatClampNeg ≤ nullFlagAt field record
  size : if field.attrType = .texts ∨ field.attrType = .highVectors then
      4 ≤ field.attrLen.toNatClampNeg
    else value.data.length ≤ field.attrLen.toNatClampNeg
  text : field.attrType = .texts → value.isNull = false → ∃ pages,
    s.texts.CanReplace (op.stored s.texts)
      (bytesInt32 ((oldData.drop field.attrOffset.toNatClampNeg).take 4)).toInt value.data pages
  vector : field.attrType = .highVectors →
    record[nullFlagAt field record]? = some (if value.isNull then 1 else 0) ∧
      (value.isNull = false → ∃ pages, s.vectors.CanReplace (op.stored s.vectors)
        (bytesInt32 ((oldData.drop field.attrOffset.toNatClampNeg).take 4)).toInt value.data pages)

/-- Each of the assignments fits when it is its turn. -/
def AllFit (op : UpdatePhysicalOperator) (oldData : List UInt8) :
    List (FieldMeta × Value) → UpdateState → List UInt8 → Prop
  | [], _, _ => True
  | (field, value) :: rest, s, record => op.Fits oldData field value s record ∧
    ∀ s₁ record₁, SetsColumn field value.isNull record record₁ →
      HasValue oldData field value s record₁ s₁ → AllFit op oldData rest s₁ record₁

/-- Updates of some of the matching rows, in any order. -/
inductive Updates (op : UpdatePhysicalOperator) (s : UpdateState) (file : RecordFile) :
    List StoredRecord → UpdateState → Prop
  | nil : Updates op s file [] s
  | cons {done : List StoredRecord} {s₁ s₂ : UpdateState} {r : StoredRecord}
      {newData : List UInt8} {table : RowTable} (h : Updates op s file done s₁)
      (hr : r ∈ file.records) (hmatches : op.child.Matches s r.data) (hfresh : r ∉ done)
      (hnew : op.newRecordData s₁ r.data = some (.ok newData, s₂))
      (hcall : s₂.table.updateRecord r newData = some (.ok (), table)) :
      Updates op s file (r :: done) { s₂ with table }

/-- No predicate fails on a row, no row is in conflict, and updates of other rows change neither
what the predicates say of a row nor, where the row matches, that the assignments fit and that the
index which is scanned keeps its key.  The floats in the keys of the new rows and in the bounds of an
index scan are among those of their columns. -/
structure KeepsPlace (op : UpdatePhysicalOperator) (s : UpdateState) (file : RecordFile) :
    Prop where
  ends : ∀ r ∈ file.records, op.child.Covers s r.data → ∀ rc,
    op.child.examine s r.data ≠ .error rc
  predicates : ∀ done s₁, op.Updates s file done s₁ → ∀ r ∈ file.records, r ∉ done →
    op.child.filter s₁ r.data = op.child.filter s r.data
  fits : ∀ done s₁, op.Updates s file done s₁ → ∀ r ∈ file.records,
    op.child.Matches s r.data → r ∉ done → op.AllFit r.data op.values s₁ r.data
  keys : ∀ number range index, op.child.kind = .indexScan number range →
    s.table.indexes[number]? = some index → ∀ done s₁, op.Updates s file done s₁ →
    ∀ r ∈ file.records, op.child.Matches s r.data → r ∉ done → ∀ s₂ newData,
    op.newRecordData s₁ r.data = some (.ok newData, s₂) → ¬index.Changes r.data newData
  floats : ∀ done s₁, op.Updates s file done s₁ → ∀ r ∈ file.records,
    op.child.Matches s r.data → r ∉ done → ∀ s₂ newData,
    op.newRecordData s₁ r.data = some (.ok newData, s₂) →
    ∀ index ∈ s.table.indexes, index.Reads newData
  bounds : ∀ number range index, op.child.kind = .indexScan number range →
    s.table.indexes[number]? = some index → index.ReadsRange range

/-! ## Assignments keep the table and the length of a row -/

variable {op : UpdatePhysicalOperator} {s s' : UpdateState} {file : RecordFile}
  {oldData record record' : List UInt8} {field : FieldMeta} {value : Value}

theorem length_assignText {texts texts' : TextFile}
    (h : op.assignText oldData field value texts record = some (.ok record', texts')) :
    record'.length = record.length := by
  simp only [assignText] at h
  split_ifs at h
  · obtain ⟨r, hr, heq⟩ := Option.map_eq_some_iff.mp h
    cases heq
    exact length_memcpy_setNullFlag hr
  · cases h
  · cases h
  · split at h
    · cases h
    · obtain ⟨r, hr, heq⟩ := Option.map_eq_some_iff.mp h
      cases heq
      exact length_memcpy_setNullFlag hr

theorem length_assignVector {vectors vectors' : TextFile}
    (h : op.assignVector oldData field value vectors record = some (.ok record', vectors')) :
    record'.length = record.length := by
  simp only [assignVector] at h
  split_ifs at h
  · obtain ⟨r, hr, heq⟩ := Option.map_eq_some_iff.mp h
    cases heq
    exact length_memcpy hr
  · cases h
  · cases h
  · cases h
  · split at h
    · cases h
    · cases h
    · obtain ⟨r, hr, heq⟩ := Option.map_eq_some_iff.mp h
      cases heq
      exact length_memcpy hr

theorem assignField_spec {result : Except RC (List UInt8)}
    (h : op.assignField oldData field value s record = some (result, s')) :
    s'.table = s.table ∧ ∀ record', result = .ok record' → record'.length = record.length := by
  rw [assignField] at h
  split at h
  · obtain ⟨⟨r, texts⟩, hr, heq⟩ := Option.map_eq_some_iff.mp h
    cases heq
    refine ⟨rfl, fun record' hok => ?_⟩
    subst hok
    exact length_assignText hr
  · obtain ⟨⟨r, vectors⟩, hr, heq⟩ := Option.map_eq_some_iff.mp h
    cases heq
    refine ⟨rfl, fun record' hok => ?_⟩
    subst hok
    exact length_assignVector hr
  · obtain ⟨r, hr, heq⟩ := Option.map_eq_some_iff.mp h
    cases heq
    refine ⟨rfl, fun record' hok => ?_⟩
    cases hok
    exact length_memcpy_setNullFlag hr

/-- By induction on the assignments. -/
theorem assign_spec {values : List (FieldMeta × Value)} {result : Except RC (List UInt8)}
    (h : op.assign oldData values s record = some (result, s')) :
    s'.table = s.table ∧ ∀ record', result = .ok record' → record'.length = record.length := by
  induction values generalizing s record with
  | nil =>
    cases h
    refine ⟨rfl, fun record' hok => ?_⟩
    cases hok
    rfl
  | cons first rest ih =>
    obtain ⟨field, value⟩ := first
    rw [assign] at h
    split at h
    case h_1 => cases h
    case h_2 rc s₁ hfirst =>
      cases h
      exact ⟨(assignField_spec hfirst).1, fun _ hok => by cases hok⟩
    case h_3 record₁ s₁ hfirst =>
      obtain ⟨htable, hlength⟩ := assignField_spec hfirst
      obtain ⟨htable', hlength'⟩ := ih h
      exact ⟨htable'.trans htable, fun record' hok =>
        (hlength' record' hok).trans (hlength record₁ rfl)⟩

theorem newRecordData_spec {data newData : List UInt8}
    (h : op.newRecordData s data = some (.ok newData, s')) :
    s'.table = s.table ∧ newData.length = data.length :=
  ⟨(assign_spec h).1, (assign_spec h).2 newData rfl⟩

/-! ## What an assignment does -/

/-- Bytes and a null flag are copied into a record. -/
theorem setsColumn_of_memcpy {bytes : List UInt8} {isNull : Bool}
    (h : (memcpy record field.attrOffset.toNatClampNeg bytes).bind (setNullFlag field isNull) =
      some record')
    (hplaced : field.attrOffset.toNatClampNeg + field.attrLen.toNatClampNeg ≤
      nullFlagAt field record)
    (hsize : bytes.length ≤ field.attrLen.toNatClampNeg) :
    SetsColumn field isNull record record' ∧ HasBytes field bytes record' := by
  obtain ⟨mid, hmid, hset⟩ := Option.bind_eq_some_iff.mp h
  have hlength := length_memcpy hmid
  have hflag (i : Nat) := getElem?_memcpy hset i
  have hbytes (i : Nat) := getElem?_memcpy hmid i
  rw [hlength] at hflag
  simp only [List.length_singleton] at hflag
  refine ⟨⟨(length_memcpy hset).trans hlength, ?_, fun i hne hout => ?_⟩, fun i hi => ?_⟩
  · rw [hflag, nullFlagAt, if_pos (by omega), Nat.sub_self]
    rfl
  · rw [nullFlagAt] at hne
    rw [hflag, if_neg (by omega), hbytes, if_neg (by omega)]
  · rw [nullFlagAt] at hplaced
    rw [hflag, if_neg (by omega), hbytes, if_pos (by omega), Nat.add_sub_cancel_left]

/-- Without the null flag, which has the value already. -/
theorem setsColumn_of_memcpy_flag {bytes : List UInt8} {isNull : Bool}
    (h : memcpy record field.attrOffset.toNatClampNeg bytes = some record')
    (hplaced : field.attrOffset.toNatClampNeg + field.attrLen.toNatClampNeg ≤
      nullFlagAt field record)
    (hsize : bytes.length ≤ field.attrLen.toNatClampNeg)
    (hflag : record[nullFlagAt field record]? = some (if isNull then 1 else 0)) :
    SetsColumn field isNull record record' ∧ HasBytes field bytes record' := by
  have hbytes (i : Nat) := getElem?_memcpy h i
  refine ⟨⟨length_memcpy h, ?_, fun i hne hout => ?_⟩, fun i hi => ?_⟩
  · rw [hbytes, if_neg (by omega), hflag]
  · rw [hbytes, if_neg (by omega)]
  · rw [hbytes, if_pos (by omega), Nat.add_sub_cancel_left]

theorem assignText_spec {texts texts' : TextFile}
    (h : op.assignText oldData field value texts record = some (.ok record', texts'))
    (hplaced : field.attrOffset.toNatClampNeg + field.attrLen.toNatClampNeg ≤
      nullFlagAt field record)
    (hsize : 4 ≤ field.attrLen.toNatClampNeg)
    (htext : value.isNull = false → ∃ pages, texts.CanReplace (op.stored texts)
      (bytesInt32 ((oldData.drop field.attrOffset.toNatClampNeg).take 4)).toInt value.data pages) :
    SetsColumn field value.isNull record record' ∧
      HasText oldData field value record' texts texts' := by
  simp only [assignText] at h
  cases hnull : value.isNull with
  | true =>
    rw [if_pos hnull] at h
    obtain ⟨r, hr, heq⟩ := Option.map_eq_some_iff.mp h
    cases heq
    obtain ⟨hsets, hbytes⟩ := setsColumn_of_memcpy hr hplaced hsize
    refine ⟨hsets, ?_⟩
    rw [HasText, if_pos hnull]
    exact ⟨hbytes, rfl⟩
  | false =>
    obtain ⟨pages, hpages⟩ := htext hnull
    obtain ⟨newPage, file', hupdate, hreplaces⟩ := TextFile.updateText_of_canReplace hpages
    rw [if_neg (by rw [hnull]; decide), hupdate] at h
    split_ifs at h
    · cases h
    · cases h
    · obtain ⟨r, hr, heq⟩ := Option.map_eq_some_iff.mp h
      cases heq
      obtain ⟨hsets, hbytes⟩ := setsColumn_of_memcpy hr hplaced hsize
      refine ⟨hsets, ?_⟩
      rw [HasText, if_neg (by rw [hnull]; decide)]
      exact ⟨newPage, hbytes, hreplaces⟩

theorem assignVector_spec {vectors vectors' : TextFile}
    (h : op.assignVector oldData field value vectors record = some (.ok record', vectors'))
    (hplaced : field.attrOffset.toNatClampNeg + field.attrLen.toNatClampNeg ≤
      nullFlagAt field record)
    (hsize : 4 ≤ field.attrLen.toNatClampNeg)
    (hflag : record[nullFlagAt field record]? = some (if value.isNull then 1 else 0))
    (htext : value.isNull = false → ∃ pages, vectors.CanReplace (op.stored vectors)
      (bytesInt32 ((oldData.drop field.attrOffset.toNatClampNeg).take 4)).toInt value.data pages) :
    SetsColumn field value.isNull record record' ∧
      HasText oldData field value record' vectors vectors' := by
  simp only [assignVector] at h
  cases hnull : value.isNull with
  | true =>
    rw [if_pos hnull] at h
    obtain ⟨r, hr, heq⟩ := Option.map_eq_some_iff.mp h
    cases heq
    rw [hnull] at hflag
    obtain ⟨hsets, hbytes⟩ := setsColumn_of_memcpy_flag hr hplaced hsize hflag
    refine ⟨hsets, ?_⟩
    rw [HasText, if_pos hnull]
    exact ⟨hbytes, rfl⟩
  | false =>
    obtain ⟨pages, hpages⟩ := htext hnull
    obtain ⟨newPage, file', hupdate, hreplaces⟩ := TextFile.updateText_of_canReplace hpages
    rw [if_neg (by rw [hnull]; decide), hupdate] at h
    split_ifs at h
    · cases h
    · cases h
    · cases h
    · obtain ⟨r, hr, heq⟩ := Option.map_eq_some_iff.mp h
      cases heq
      rw [hnull] at hflag
      obtain ⟨hsets, hbytes⟩ := setsColumn_of_memcpy_flag hr hplaced hsize hflag
      refine ⟨hsets, ?_⟩
      rw [HasText, if_neg (by rw [hnull]; decide)]
      exact ⟨newPage, hbytes, hreplaces⟩

theorem assignPlain_spec (h : assignPlain field value record = some record')
    (hplaced : field.attrOffset.toNatClampNeg + field.attrLen.toNatClampNeg ≤
      nullFlagAt field record)
    (hsize : value.data.length ≤ field.attrLen.toNatClampNeg) :
    SetsColumn field value.isNull record record' ∧ HasBytes field value.data record' ∧
      (value.attrType = .chars → value.data.length < field.attrLen.toNatClampNeg →
        record'[field.attrOffset.toNatClampNeg + value.data.length]? = some 0) := by
  rw [assignPlain] at h
  split_ifs at h with hshort
  · have hlength : (value.data ++ [0]).length = value.data.length + 1 := List.length_append
    have hlt : value.data.length < field.attrLen.toNatClampNeg := by
      have hlen : field.attrLen.toNatClampNeg = field.attrLen.toInt.toNat := rfl
      omega
    obtain ⟨hsets, hbytes⟩ := setsColumn_of_memcpy h hplaced (by omega)
    refine ⟨hsets, fun i hi => ?_, fun _ _ => ?_⟩
    · rw [hbytes i (by omega), List.getElem?_append_left hi]
    · rw [hbytes _ (by omega), List.getElem?_concat_length]
  · obtain ⟨hsets, hbytes⟩ := setsColumn_of_memcpy h hplaced hsize
    refine ⟨hsets, hbytes, fun hchars hlt => absurd ⟨hchars, ?_⟩ hshort⟩
    have hlen : field.attrLen.toNatClampNeg = field.attrLen.toInt.toNat := rfl
    omega

theorem assignField_value (hfits : op.Fits oldData field value s record)
    (h : op.assignField oldData field value s record = some (.ok record', s')) :
    SetsColumn field value.isNull record record' ∧
      HasValue oldData field value s record' s' := by
  obtain ⟨hplaced, hsize, htext, hvector⟩ := hfits
  rw [assignField] at h
  rw [HasValue]
  split at h
  case h_1 htype =>
    obtain ⟨⟨r, texts⟩, hr, heq⟩ := Option.map_eq_some_iff.mp h
    cases heq
    rw [if_pos (.inl htype)] at hsize
    obtain ⟨hsets, hhas⟩ := assignText_spec hr hplaced hsize (htext htype)
    exact ⟨hsets, hhas, rfl⟩
  case h_2 htype =>
    obtain ⟨⟨r, vectors⟩, hr, heq⟩ := Option.map_eq_some_iff.mp h
    cases heq
    rw [if_pos (.inr htype)] at hsize
    obtain ⟨hflag, hreplace⟩ := hvector htype
    obtain ⟨hsets, hhas⟩ := assignVector_spec hr hplaced hsize hflag hreplace
    exact ⟨hsets, hhas, rfl⟩
  case h_3 htexts hvectors =>
    obtain ⟨r, hr, heq⟩ := Option.map_eq_some_iff.mp h
    cases heq
    rw [if_neg (not_or.mpr ⟨htexts, hvectors⟩)] at hsize
    obtain ⟨hsets, hhas⟩ := assignPlain_spec hr hplaced hsize
    exact ⟨hsets, rfl, fun _ => hhas⟩

/-- By induction on the assignments. -/
theorem assigned_of_allFit {values : List (FieldMeta × Value)}
    (hfit : op.AllFit oldData values s record)
    (h : op.assign oldData values s record = some (.ok record', s')) :
    Assigned oldData values s record s' record' := by
  induction values generalizing s record with
  | nil =>
    cases h
    exact .nil _ _
  | cons first rest ih =>
    obtain ⟨field, value⟩ := first
    obtain ⟨hfits, hlater⟩ := hfit
    rw [assign] at h
    split at h
    case h_1 => cases h
    case h_2 => cases h
    case h_3 record₁ s₁ hfirst =>
      obtain ⟨hsets, hvalue⟩ := assignField_value hfits hfirst
      exact .cons hsets hvalue (ih (hlater s₁ record₁ hsets hvalue) h)

/-! ## The loop -/

/-- What holds between two rounds of the loop: the table is consistent, the scan has the rows left,
each once, and the rows that have been updated are others. -/
structure OnTrack (op : UpdatePhysicalOperator) (s₀ : UpdateState) (file₀ : RecordFile)
    (s : UpdateState) (file : RecordFile) (scan : ScanState) (rows done : List StoredRecord) :
    Prop where
  consistent : RowTable.Consistent ⟨s.table, file.records⟩ file
  left : ScanOperator.Left op.child s file scan rows
  records : ∀ r ∈ rows, r ∈ file.records
  distinct : rows.Pairwise fun r r' => r.rid ≠ r'.rid
  updates : op.Updates s₀ file₀ done s
  fresh : ∀ r ∈ rows, r ∈ file₀.records ∧ op.child.Covers s₀ r.data ∧ r ∉ done
  index : ∀ number range, op.child.kind = .indexScan number range →
    s.table.indexes[number]? = s₀.table.indexes[number]?

variable {s₀ : UpdateState} {file₀ : RecordFile} {scan : ScanState}
  {rows rest done : List StoredRecord} {r : StoredRecord} {newData : List UInt8}

/-- The loop stays on track when it goes on with some of the rows. -/
theorem OnTrack.of_suffix (h : OnTrack op s₀ file₀ s file scan rows done) {scan' : ScanState}
    (hsuffix : rest <:+ rows) (hleft : ScanOperator.Left op.child s file scan' rest) :
    OnTrack op s₀ file₀ s file scan' rest done where
  consistent := h.consistent
  left := hleft
  records r hr := h.records r (hsuffix.subset hr)
  distinct := h.distinct.sublist hsuffix.sublist
  updates := h.updates
  fresh r hr := h.fresh r (hsuffix.subset hr)
  index := h.index

/-- The indexes have the columns that they had before the statement, by induction on the
updates. -/
theorem Updates.exists_fields (h : op.Updates s₀ file₀ done s) {index : TableIndex}
    (hindex : index ∈ s.table.indexes) :
    ∃ index₀ ∈ s₀.table.indexes, index.fields = index₀.fields := by
  have hfields : s.table.indexes.map TableIndex.fields = s₀.table.indexes.map TableIndex.fields := by
    clear hindex
    induction h with
    | nil => rfl
    | cons _ _ _ _ hnew hcall ih =>
      obtain ⟨htable, -⟩ := newRecordData_spec hnew
      rw [← ih, ← htable]
      exact RowTable.fields_updateRecord hcall
  obtain ⟨index₀, hindex₀, heq⟩ := List.mem_map.mp (hfields ▸ List.mem_map_of_mem hindex)
  exact ⟨index₀, hindex₀, heq.symm⟩

/-- The rows that are left are examined as they were before the statement. -/
theorem OnTrack.examine_eq (h : OnTrack op s₀ file₀ s file scan rows done)
    (hkeeps : KeepsPlace op s₀ file₀) (hr : r ∈ rows) :
    op.child.examine s r.data = op.child.examine s₀ r.data := by
  obtain ⟨hmem, -, hfresh⟩ := h.fresh r hr
  exact ScanOperator.examine_congr (hkeeps.predicates done s h.updates r hmem hfresh)

theorem OnTrack.given_eq (h : OnTrack op s₀ file₀ s file scan rows done)
    (hkeeps : KeepsPlace op s₀ file₀) : op.child.given s rows = op.child.given s₀ rows :=
  List.filter_congr fun _ hr => by rw [h.examine_eq hkeeps hr]

theorem OnTrack.updateRecord (h : OnTrack op s₀ file₀ s file scan rows done)
    (hkeeps : KeepsPlace op s₀ file₀) (hsuffix : r :: rest <:+ rows) {scan' : ScanState}
    (hleft : ScanOperator.Left op.child s file scan' rest)
    (hgiven : r ∈ op.child.given s₀ rows) {s₁ : UpdateState} {table : RowTable}
    (hnew : op.newRecordData s r.data = some (.ok newData, s₁))
    (hcall : s₁.table.updateRecord r newData = some (.ok (), table)) :
    ∃ file', OnTrack op s₀ file₀ { s₁ with table } file' scan' rest (r :: done) ∧
      file'.records = setData file.records r.rid newData := by
  obtain ⟨hr, hexamine⟩ := ScanOperator.mem_given.mp hgiven
  obtain ⟨hmem₀, hcovers, hfresh⟩ := h.fresh r hr
  have hmatches := ScanOperator.matches_iff.mpr ⟨hcovers, hexamine⟩
  have hmem := h.records r hr
  have hne : ∀ r' ∈ rest, r.rid ≠ r'.rid :=
    (List.pairwise_cons.mp (h.distinct.sublist hsuffix.sublist)).1
  have hrest : rest <:+ rows := (List.suffix_cons r rest).trans hsuffix
  obtain ⟨htable, hsize⟩ := newRecordData_spec hnew
  have hcall' := htable ▸ hcall
  have hsame : ∀ number range index, op.child.kind = .indexScan number range →
      s.table.indexes[number]? = some index → ¬index.Changes r.data newData := by
    intro number range index hkind hindex
    rw [h.index number range hkind] at hindex
    exact hkeeps.keys number range index hkind hindex done s h.updates r hmem₀ hmatches hfresh s₁
      newData hnew
  have hreads : ∀ index ∈ s.table.indexes, index.Reads newData := by
    intro index hindex
    obtain ⟨index₀, hindex₀, hfields⟩ := h.updates.exists_fields hindex
    exact (TableIndex.reads_congr hfields).mpr
      (hkeeps.floats done s h.updates r hmem₀ hmatches hfresh s₁ newData hnew index₀ hindex₀)
  obtain ⟨file', hcons⟩ := RowTable.updateRecord_ok h.consistent hmem hsize hreads hcall'
  have hstate : ({ s₁ with table } : UpdateState).table = table := rfl
  obtain ⟨file₁, hfile₁, hleft', hrecords⟩ := hleft.updateRecord h.consistent.opened
    h.consistent.wellFormed hmem hne hsize hcall' hsame hstate
  obtain rfl : file₁ = file' := Option.some.inj (hfile₁.symm.trans hcons.opened)
  refine ⟨file₁, ?_, hrecords⟩
  constructor
  case consistent => exact hrecords ▸ hcons
  case left => exact hleft'
  case records =>
    intro r' hr'
    rw [hrecords]
    exact mem_setData.mpr (Or.inr ⟨h.records r' (hrest.subset hr'), (hne r' hr').symm⟩)
  case distinct => exact h.distinct.sublist hrest.sublist
  case updates => exact .cons h.updates hmem₀ hmatches hfresh hnew hcall
  case fresh =>
    intro r' hr'
    obtain ⟨hmem', hcovers', hfresh'⟩ := h.fresh r' (hrest.subset hr')
    refine ⟨hmem', hcovers', fun hdone => ?_⟩
    rcases List.mem_cons.mp hdone with rfl | hdone
    · exact hne r' hr' rfl
    · exact hfresh' hdone
  case index =>
    intro number range hkind
    obtain ⟨index, hindex⟩ := h.left.exists_index hkind
    obtain ⟨indexes, _, hindexes, -, rfl⟩ :=
      RowTable.updateRecord_eq_ok h.consistent.opened hcall'
    rw [← h.index number range hkind, hindex]
    exact ScanOperator.getElem?_updateEntryOfIndexes hindexes hindex
      (hsame number range index hkind hindex)

/-- Updates of records one after the other. -/
def setAll (records : List StoredRecord) (updated : List (StoredRecord × List UInt8)) :
    List StoredRecord :=
  updated.foldl (fun records u => setData records u.1.rid u.2) records

/-- The loop updates the rows that the scan gives, in their order.  By induction on the rounds. -/
theorem updateLoop_spec (hkeeps : KeepsPlace op s₀ file₀)
    (h : OnTrack op s₀ file₀ s file scan rows done) {rounds : Nat}
    {updated : List (StoredRecord × List UInt8)}
    (hcall : op.updateLoop rounds s scan = some (.ok (), s', updated)) :
    updated.map Prod.fst = op.child.given s₀ rows ∧ AssignedRows op.values updated s s' ∧
      ∃ file', s'.table.file = some file' ∧ file'.records = setAll file.records updated := by
  induction rounds generalizing s file scan rows done updated with
  | zero => cases hcall
  | succ rounds ih =>
    have hends : ∀ r ∈ rows, ∀ rc, op.child.examine s r.data ≠ .error rc := by
      intro r hr
      obtain ⟨hmem, hcovers, -⟩ := h.fresh r hr
      rw [h.examine_eq hkeeps hr]
      exact hkeeps.ends r hmem hcovers
    rw [updateLoop] at hcall
    split at hcall
    case h_1 => cases hcall
    case h_2 rc hnext =>
      cases hcall
      rcases ScanOperator.next_spec h.consistent.opened hends h.left hnext with
        ⟨-, -, hempty⟩ | ⟨r, rest, scan', hok, -⟩
      · rw [h.given_eq hkeeps] at hempty
        exact ⟨hempty.symm, .nil _, file, h.consistent.opened, rfl⟩
      · cases hok
    case h_3 r scan₁ hnext =>
      rcases ScanOperator.next_spec h.consistent.opened hends h.left hnext with
        ⟨rc, herror, -⟩ | ⟨r', rest, scan', hok, hleft, hgiven, hsuffix⟩
      · cases herror
      cases hok
      have hrest := h.of_suffix ((List.suffix_cons r rest).trans hsuffix) hleft
      rw [h.given_eq hkeeps, hrest.given_eq hkeeps] at hgiven
      split at hcall
      · cases hcall
      split at hcall
      case h_1 => cases hcall
      case h_2 => cases hcall
      case h_3 newData s₁ hnew =>
        split at hcall
        case h_1 => cases hcall
        case h_2 => cases hcall
        case h_3 table hupdate =>
          obtain ⟨⟨result, s₂, later⟩, hloop, heq⟩ := Option.map_eq_some_iff.mp hcall
          cases heq
          obtain ⟨file₁, htrack, hrecords⟩ := h.updateRecord hkeeps hsuffix hleft
            (hgiven ▸ List.mem_cons_self) hnew hupdate
          obtain ⟨hrows, hassigned, file', hfile', hrecords'⟩ := ih htrack hloop
          refine ⟨?_, ?_, file', hfile', ?_⟩
          · rw [List.map_cons, hrows, hgiven]
          · obtain ⟨hmem, hcovers, hfresh⟩ := h.fresh r (hsuffix.subset List.mem_cons_self)
            have hexamine := (ScanOperator.mem_given.mp
              (hgiven ▸ List.mem_cons_self : r ∈ op.child.given s₀ rows)).2
            have hfit := hkeeps.fits done s h.updates r hmem
              (ScanOperator.matches_iff.mpr ⟨hcovers, hexamine⟩) hfresh
            exact .cons (assigned_of_allFit hfit hnew) hassigned
          · rw [hrecords', hrecords]
            rfl

/-- By induction on the updates. -/
theorem mem_setAll {records : List StoredRecord} {updated : List (StoredRecord × List UInt8)}
    (hmem : ∀ u ∈ updated, u.1 ∈ records)
    (hne : (updated.map Prod.fst).Pairwise fun r r' => r.rid ≠ r'.rid) (r : StoredRecord) :
    r ∈ setAll records updated ↔
      (∃ u ∈ updated, r = ⟨u.1.rid, u.2⟩) ∨ r ∈ records ∧ ∀ u ∈ updated, r.rid ≠ u.1.rid := by
  induction updated generalizing records with
  | nil => simp [setAll]
  | cons first later ih =>
    obtain ⟨hfirst, hlater⟩ := List.pairwise_cons.mp hne
    have hfirst' : ∀ u ∈ later, first.1.rid ≠ u.1.rid := fun u hu =>
      hfirst u.1 (List.mem_map_of_mem hu)
    have hmem' : ∀ u ∈ later, u.1 ∈ setData records first.1.rid first.2 := fun u hu =>
      mem_setData.mpr (Or.inr ⟨hmem u (List.mem_cons_of_mem _ hu), (hfirst' u hu).symm⟩)
    have hcons : setAll records (first :: later) =
        setAll (setData records first.1.rid first.2) later := rfl
    rw [hcons, ih hmem' hlater, mem_setData]
    simp only [List.mem_cons, exists_eq_or_imp, forall_eq_or_imp]
    constructor
    · rintro (hu | ⟨⟨r₀, -, -, rfl⟩ | ⟨hr, hrid⟩, hrest⟩)
      · exact Or.inl (Or.inr hu)
      · exact Or.inl (Or.inl rfl)
      · exact Or.inr ⟨hr, hrid, hrest⟩
    · rintro ((rfl | hu) | ⟨hr, hrid, hrest⟩)
      · exact Or.inr ⟨Or.inl ⟨first.1, hmem first List.mem_cons_self, rfl, rfl⟩, hfirst'⟩
      · exact Or.inl hu
      · exact Or.inr ⟨Or.inr ⟨hr, hrid⟩, hrest⟩

/-- An UPDATE that keeps the place of its scan and succeeds has applied the assignments once to
each row that matched before, and to no other. -/
theorem open_updatedOnce {rounds : Nat} {updated : List (StoredRecord × List UInt8)}
    (hcons : RowTable.Consistent ⟨s.table, file.records⟩ file)
    (hsize : file.header.pageCount ≤ BPFileHeader.maxPageNum) (h : KeepsPlace op s file)
    (hopen : op.openUpdate rounds s = some (.ok (), s', updated)) :
    ∃ file', s'.table.file = some file' ∧ UpdatedOnce op s s' file file' updated := by
  rw [openUpdate] at hopen
  split at hopen
  case h_1 => cases hopen
  case h_2 => cases hopen
  case h_3 scan hscan =>
    obtain ⟨rows, hleft, hdistinct, hrows⟩ := ScanOperator.openScan_spec hcons hsize hscan
    have htrack : OnTrack op s file s file scan rows [] :=
      ⟨hcons, hleft, fun r hr => ((hrows r).mp hr).1, hdistinct, .nil,
        fun r hr => ⟨((hrows r).mp hr).1, ((hrows r).mp hr).2, by simp⟩, fun _ _ _ => rfl⟩
    obtain ⟨hgiven, hassigned, file', hfile', hrecords'⟩ := updateLoop_spec h htrack hopen
    have hmatches : ∀ r, r ∈ updated.map Prod.fst ↔
        r ∈ file.records ∧ op.child.Matches s r.data := by
      intro r
      rw [hgiven, ScanOperator.mem_given, hrows, and_assoc, ScanOperator.matches_iff]
    have hpairwise : (updated.map Prod.fst).Pairwise fun r r' => r.rid ≠ r'.rid :=
      hgiven ▸ hdistinct.sublist List.filter_sublist
    have hmem : ∀ u ∈ updated, u.1 ∈ file.records := fun u hu =>
      ((hmatches u.1).mp (List.mem_map_of_mem hu)).1
    refine ⟨file', hfile', ?_, hmatches, hassigned, fun r => ?_⟩
    · exact hpairwise.imp fun hrid heq => hrid (congrArg _ heq)
    · rw [hrecords', mem_setAll hmem hpairwise]
      apply or_congr_right
      apply and_congr_right
      intro hr
      constructor
      · intro hall hm
        obtain ⟨u, hu, rfl⟩ := List.mem_map.mp ((hmatches r).mpr ⟨hr, hm⟩)
        exact hall u hu rfl
      · intro hnot u hu hrid
        obtain rfl := RecordFile.distinct_records r hr u.1 (hmem u hu) hrid
        exact hnot ((hmatches _).mp (List.mem_map_of_mem hu)).2

/-! ### Two rows with a 7 in the column of the index -/

/-- The page of the records 7, 1 and 7, 2 in its first two slots. -/
def sevensPage : RecordPage where
  header := { recordNum := 2, columnNum := 0, recordRealSize := 10, recordSize := 16,
              recordCapacity := 8, colIdxOffset := 32, dataOffset := 32 }
  data i := if i = 28 then 3 else if i = 32 ∨ i = 48 then 7 else if i = 36 then 1 else
    if i = 52 then 2 else 0

def sevensFile : RecordFile where
  header := ⟨2, 2, fun i => i < 2⟩
  pages _ := sevensPage

/-- The tree of an index over an integer column after two insertions. -/
def sevensTree : TreeState (Key (UserKey [.ints])) :=
  (ObHtap.insertRecords (ofAttrs [.ints] (BplusTreeIndex.fileHeader [.ints] false))
    [⟨intKey 7, [false], ⟨1, 0⟩⟩, ⟨intKey 7, [false], ⟨1, 1⟩⟩] TreeState.create).getD
      TreeState.create

def sevensIndex : TableIndex where
  fields := [⟨.ints, 0, 0⟩]
  header := BplusTreeIndex.fileHeader [.ints] false
  tree := sevensTree
  leafCapacity := by decide
  internalCapacity := by decide

def sevens : UpdateState where
  table := { tableMeta := Table.numTable, recordSize := 10, engine := Store.empty,
             file := some sevensFile, indexes := [sevensIndex] }
  texts := .create
  vectors := .create

/-- `UPDATE` of one of the columns to a number `WHERE` the column of the index is 7. -/
def updateSevens (offset fieldId : Int32) (number : Int32) : UpdatePhysicalOperator where
  child := { kind := .indexScan 0 ⟨int32Bytes 7, true, int32Bytes 7, true⟩,
             filter := fun _ _ => .ok true, visitRecord := fun _ => .ok () }
  values := [(⟨"num", .ints, offset, 4, true, fieldId, true, 4⟩, ⟨.ints, int32Bytes number⟩)]
  uninitialized := 0
  stored _ _ := ⟨false, 0, []⟩

theorem sevens_records :
    sevensFile.records =
      [⟨⟨1, 0⟩, IndexedTable.pairRecord 7 1⟩, ⟨⟨1, 1⟩, IndexedTable.pairRecord 7 2⟩] := by
  decide +kernel

theorem sevensTree_holds : Holds (BplusTreeIndex.fileHeader [.ints] false)
    (Key.rank (UserKey.rank [.ints])) sevensTree {⟨intKey 7, ⟨1, 1⟩⟩, ⟨intKey 7, ⟨1, 0⟩⟩} := by
  have hsome : (ObHtap.insertRecords (ofAttrs [.ints] (BplusTreeIndex.fileHeader [.ints] false))
      [⟨intKey 7, [false], ⟨1, 0⟩⟩, ⟨intKey 7, [false], ⟨1, 1⟩⟩] TreeState.create).isSome =
      true := by decide +kernel
  obtain ⟨t₂, h⟩ := Option.isSome_iff_exists.mp hsome
  obtain ⟨t₁, h₁, hrest⟩ := insertRecords_cons h
  obtain ⟨t₂', h₂, hend⟩ := insertRecords_cons hrest
  obtain rfl := Option.some.inj hend
  rw [sevensTree, h, Option.getD_some]
  have hold₁ := (holds_create _ _).insertEntry_ok (by decide) (by decide) (by decide) h₁
  exact hold₁.insertEntry_ok (by decide) (by decide) (by decide) h₂

theorem sevens_consistent :
    RowTable.Consistent ⟨sevens.table, sevensFile.records⟩ sevensFile where
  opened := rfl
  wellFormed _ _ _ :=
    have hpage : sevensPage.WellFormed := ⟨by decide, by decide⟩
    hpage
  rows := rfl
  holds index hindex := by
    obtain rfl := List.mem_singleton.mp hindex
    have hkeys : sevensIndex.keys sevensFile.records =
        {⟨intKey 7, ⟨1, 1⟩⟩, ⟨intKey 7, ⟨1, 0⟩⟩} := by
      rw [sevens_records]
      decide
    refine ⟨fun _ _ => ⟨trivial, trivial⟩, ?_⟩
    rw [hkeys]
    exact sevensTree_holds

/-- An UPDATE of the other column comes across both rows. -/
theorem open_updatedOnce_sevens :
    ∃ rounds s' updated file',
      (updateSevens 4 1 3).openUpdate rounds sevens = some (.ok (), s', updated) ∧
      s'.table.file = some file' ∧
      UpdatedOnce (updateSevens 4 1 3) sevens s' sevensFile file' updated := by
  have hok : ((updateSevens 4 1 3).openUpdate 4 sevens).map (fun r => r.1.isOk) =
      some true := by decide +kernel
  obtain ⟨⟨result, s', updated⟩, hopen, hresult⟩ := Option.map_eq_some_iff.mp hok
  cases result with
  | error rc => cases hresult
  | ok u =>
    have hkeeps : KeepsPlace (updateSevens 4 1 3) sevens sevensFile := by
      refine ⟨fun _ _ _ rc h => (by cases h), fun _ _ _ _ _ _ => rfl, ?_, ?_, ?_, ?_⟩
      · intro done s₁ _ r hr _ _
        rw [sevens_records] at hr
        refine ⟨⟨?_, by decide, (by rintro ⟨⟩), (by rintro ⟨⟩)⟩, fun _ _ _ _ => trivial⟩
        rcases List.mem_pair.mp hr with rfl | rfl <;> decide
      · intro number range index hkind hindex done s₁ _ r hr _ _ s₂ newData hnew
        cases hkind
        obtain rfl := Option.some.inj hindex
        rw [sevens_records] at hr
        rcases List.mem_pair.mp hr with rfl | rfl
        · cases hnew
          decide
        · cases hnew
          decide
      · intro _ _ _ _ _ _ _ _ newData _ index hindex
        obtain rfl := List.mem_singleton.mp hindex
        exact ⟨trivial, trivial⟩
      · intro number range index hkind hindex
        cases hkind
        obtain rfl := Option.some.inj hindex
        exact ⟨⟨trivial, trivial⟩, ⟨trivial, trivial⟩⟩
    obtain ⟨file', hfile', hupdated⟩ :=
      open_updatedOnce sevens_consistent (by decide) hkeeps hopen
    exact ⟨4, s', updated, file', hopen, hfile', hupdated⟩

/-- An UPDATE of the column of the index to 9 moves the entry of the first row behind that of the
second, which the scan then takes to be behind it already. -/
theorem open_not_updatedOnce :
    ¬∀ (op : UpdatePhysicalOperator) (s s' : UpdateState) (file : RecordFile) (rounds : Nat)
        (updated : List (StoredRecord × List UInt8)),
        RowTable.Consistent ⟨s.table, file.records⟩ file →
        file.header.pageCount ≤ BPFileHeader.maxPageNum →
        op.openUpdate rounds s = some (.ok (), s', updated) →
        ∃ file', s'.table.file = some file' ∧ UpdatedOnce op s s' file file' updated := by
  intro hall
  have hrun : ((updateSevens 0 0 9).openUpdate 4 sevens).map
      (fun r => (r.1.isOk, r.2.2.map fun u => u.1.rid)) = some (true, [⟨1, 0⟩]) := by
    decide +kernel
  obtain ⟨⟨result, s', updated⟩, hopen, hresult⟩ := Option.map_eq_some_iff.mp hrun
  obtain ⟨hok, hrids⟩ := Prod.mk.inj hresult
  cases result with
  | error rc => cases hok
  | ok u =>
    obtain ⟨file', -, hupdated⟩ :=
      hall _ _ _ _ _ _ sevens_consistent (by decide) hopen
    have hmatches : (updateSevens 0 0 9).child.Matches sevens (IndexedTable.pairRecord 7 2) :=
      ⟨⟨sevensIndex, rfl, by rw [TableIndex.InRange]; decide⟩, rfl, rfl⟩
    have hsecond := (hupdated.rows ⟨⟨1, 1⟩, IndexedTable.pairRecord 7 2⟩).mpr
      ⟨by rw [sevens_records]; decide, hmatches⟩
    obtain ⟨u, hu, hfst⟩ := List.mem_map.mp hsecond
    have hrid : u.1.rid ∈ [(⟨1, 0⟩ : RID)] := hrids ▸ List.mem_map_of_mem hu
    rw [hfst] at hrid
    exact absurd hrid (by decide)

end UpdatePhysicalOperator

end ObHtap
