import ObHtap.Bplus.Key
import ObHtap.Library.SettedBits
import ObHtap.Record.RecordPage

/-!
# Record files

The pages of a table's records, the operations of `RecordFileHandler` on a record that is there,
and the scan of `RecordFileScanner` over all records.  Page requests within the file are served.
-/

namespace ObHtap

/-- A record with its bytes. -/
structure StoredRecord where
  rid : RID
  data : List UInt8
  deriving DecidableEq

/-- The records after the one with the identifier has got new bytes. -/
def setData (records : List StoredRecord) (rid : RID) (data : List UInt8) : List StoredRecord :=
  records.map fun r => if r.rid = rid then { r with data } else r

/-- No two records have one record identifier. -/
def DistinctRecords (records : List StoredRecord) : Prop :=
  ∀ r ∈ records, ∀ r' ∈ records, r.rid = r'.rid → r = r'

/-! ## Bits and slots of a page -/

namespace RecordPage

variable {page : RecordPage} {slot slot' : Nat} {record : List UInt8}

/-- The bitmap ends before the slots start, and a record fits into its slot. -/
structure WellFormed (page : RecordPage) : Prop where
  bitmap : pageHeaderSize + pageBitmapSize page.header.recordCapacity ≤ page.header.dataOffset
  stride : page.header.recordRealSize ≤ page.header.recordSize

theorem toBitVec_bitMask (slot : Nat) :
    (bitMask slot).toBitVec = BitVec.twoPow 8 (slot % 8) := by
  have h : ∀ i < 8, (1 <<< i.toUInt8 : UInt8).toBitVec = BitVec.twoPow 8 i := by decide
  exact h _ (Nat.mod_lt _ (by decide))

theorem getBit_eq (page : RecordPage) (slot : Nat) :
    page.getBit slot = (page.data (bitmapByte slot)).toBitVec.getLsbD (slot % 8) := by
  have hlt : slot % 8 < 8 := Nat.mod_lt _ (by decide)
  rw [getBit, Bool.eq_iff_iff, decide_eq_true_iff, ne_eq, ← UInt8.toBitVec_inj,
    UInt8.toBitVec_and, toBitVec_bitMask, BitVec.and_twoPow]
  cases (page.data (bitmapByte slot)).toBitVec.getLsbD (slot % 8) with
  | false => simp
  | true =>
    simp only [if_true, iff_true]
    intro hzero
    have hbit := congrArg (fun x => BitVec.getLsbD x (slot % 8)) hzero
    simp [hlt] at hbit

theorem getBit_clearBit :
    (page.clearBit slot).getBit slot' = (page.getBit slot' && decide (slot' ≠ slot)) := by
  have hlt : slot' % 8 < 8 := Nat.mod_lt _ (by decide)
  rw [getBit_eq, getBit_eq]
  by_cases hbyte : bitmapByte slot' = bitmapByte slot
  · have hdata : (page.clearBit slot).data (bitmapByte slot') =
        page.data (bitmapByte slot) &&& ~~~bitMask slot := by
      simp [clearBit, copyTo, hbyte]
    have hne : slot % 8 = slot' % 8 ↔ slot' = slot := by
      unfold bitmapByte at hbyte
      omega
    rw [hdata, hbyte, UInt8.toBitVec_and, UInt8.toBitVec_not, toBitVec_bitMask,
      BitVec.getLsbD_and, BitVec.getLsbD_not, BitVec.getLsbD_twoPow]
    simp [hlt, hne, Nat.mod_lt]
  · have hdata : (page.clearBit slot).data (bitmapByte slot') =
        page.data (bitmapByte slot') := by
      simp only [clearBit, copyTo, List.length_singleton]
      rw [dif_neg]
      omega
    have hne : slot' ≠ slot := fun h => hbyte (by rw [h])
    simp [hdata, hne]

theorem WellFormed.bitmapByte_lt (h : page.WellFormed)
    (hslot : slot < page.header.recordCapacity) : bitmapByte slot < page.header.dataOffset := by
  have := h.bitmap
  unfold pageBitmapSize at this
  unfold bitmapByte
  omega

/-- Bytes outside the range that is copied to stay as they are. -/
theorem copyTo_of_notMem {data : Nat → UInt8} {offset i : Nat} {bytes : List UInt8}
    (h : i < offset ∨ offset + bytes.length ≤ i) : copyTo data offset bytes i = data i := by
  rw [copyTo, dif_neg]
  omega

theorem copyTo_add {data : Nat → UInt8} {offset i : Nat} {bytes : List UInt8}
    (h : i < bytes.length) : copyTo data offset bytes (offset + i) = bytes[i] := by
  rw [copyTo, dif_pos ⟨Nat.le_add_right _ _, by omega⟩]
  congr 1
  omega

theorem recordData_clearBit (h : page.WellFormed) (hslot : slot < page.header.recordCapacity) :
    (page.clearBit slot).recordData slot' = page.recordData slot' := by
  have hbyte := h.bitmapByte_lt hslot
  apply List.map_congr_left
  intro i _
  apply copyTo_of_notMem
  simp only [recordOffset, clearBit, List.length_singleton]
  omega

theorem getBit_setRecordData (h : page.WellFormed) (hslot' : slot' < page.header.recordCapacity) :
    (page.setRecordData slot record).getBit slot' = page.getBit slot' := by
  have hbyte := h.bitmapByte_lt hslot'
  rw [getBit_eq, getBit_eq, setRecordData]
  congr 2
  apply copyTo_of_notMem
  simp only [recordOffset]
  omega

theorem recordData_setRecordData_self (hsize : record.length = page.header.recordRealSize) :
    (page.setRecordData slot record).recordData slot = record := by
  apply List.ext_getElem
  · simp [recordData, setRecordData, hsize]
  · intro i hi hi'
    simp only [recordData, List.getElem_map, List.getElem_range]
    have htake : record.take page.header.recordRealSize = record :=
      List.take_of_length_le (Nat.le_of_eq hsize)
    exact (copyTo_add (by rw [htake]; exact hi')).trans (by simp only [htake])

theorem recordData_setRecordData_ne (h : page.WellFormed) (hne : slot' ≠ slot) :
    (page.setRecordData slot record).recordData slot' = page.recordData slot' := by
  apply List.map_congr_left
  intro i hi
  have hi := List.mem_range.mp hi
  have hstride := h.stride
  apply copyTo_of_notMem
  simp only [recordOffset, setRecordData, List.length_take] at hi ⊢
  -- the slots lie one after the other
  rcases Nat.lt_or_gt_of_ne hne with hlt | hgt
  · left
    have := Nat.mul_le_mul_left page.header.recordSize hlt
    rw [Nat.mul_succ] at this
    omega
  · right
    have := Nat.mul_le_mul_left page.header.recordSize hgt
    rw [Nat.mul_succ] at this
    omega

/-- The records of a page in the slots from one on. -/
def recordsFrom (page : RecordPage) (pageNum start : Nat) : List StoredRecord :=
  (settedFrom page.getBit page.header.recordCapacity start).map fun slot =>
    ⟨⟨pageNum, slot⟩, page.recordData slot⟩

theorem recordsFrom_pageNum {pageNum start : Nat} {r : StoredRecord}
    (h : r ∈ page.recordsFrom pageNum start) : r.rid.pageNum = pageNum := by
  obtain ⟨slot, -, rfl⟩ := List.mem_map.mp h
  rfl

@[simp] theorem getBit_addRecordNum (n : Int) :
    (page.addRecordNum n).getBit slot = page.getBit slot := rfl

@[simp] theorem recordData_addRecordNum (n : Int) :
    (page.addRecordNum n).recordData slot = page.recordData slot := rfl

theorem recordsFrom_deleted (h : page.WellFormed) (hslot : slot < page.header.recordCapacity)
    (n : Int) (pageNum : Nat) :
    ((page.clearBit slot).addRecordNum n).recordsFrom pageNum 0 =
      (page.recordsFrom pageNum 0).filter fun r => r.rid ≠ ⟨pageNum, slot⟩ := by
  have hbits : settedFrom ((page.clearBit slot).addRecordNum n).getBit
      page.header.recordCapacity 0 =
      (settedFrom page.getBit page.header.recordCapacity 0).filter fun s => s ≠ slot := by
    rw [settedFrom, settedFrom, List.filter_filter]
    apply List.filter_congr
    intro s _
    rw [getBit_addRecordNum, getBit_clearBit, Bool.and_comm]
  rw [recordsFrom, recordsFrom, List.filter_map]
  change List.map _ (settedFrom _ page.header.recordCapacity 0) = _
  rw [hbits]
  apply congr
  · apply congrArg
    funext s
    rw [recordData_addRecordNum, recordData_clearBit h hslot]
  · apply List.filter_congr
    intro s _
    simp

theorem recordsFrom_updated (h : page.WellFormed)
    (hsize : record.length = page.header.recordRealSize) (pageNum start : Nat) :
    (page.setRecordData slot record).recordsFrom pageNum start =
      setData (page.recordsFrom pageNum start) ⟨pageNum, slot⟩ record := by
  have hbits : settedFrom (page.setRecordData slot record).getBit page.header.recordCapacity
      start = settedFrom page.getBit page.header.recordCapacity start :=
    settedFrom_congr fun s hs => getBit_setRecordData h hs
  rw [recordsFrom, recordsFrom, setData, List.map_map]
  change List.map _ (settedFrom _ page.header.recordCapacity start) = _
  rw [hbits]
  apply List.map_congr_left
  intro s _
  by_cases hs : s = slot
  · subst hs
    simp [recordData_setRecordData_self hsize]
  · simp [hs, recordData_setRecordData_ne h hs]

/-- `RowRecordPageHandler::get_record`. -/
def getRecord (page : RecordPage) (slotNum : Nat) : Except RC (List UInt8) :=
  if page.header.recordCapacity ≤ slotNum then .error .recordInvalidRid
  else if page.getBit slotNum then .ok (page.recordData slotNum)
  else .error .recordNotExist

end RecordPage

/-! ## The file -/

/-- The pages of a file by their number. -/
structure RecordFile where
  header : BPFileHeader
  pages : Nat → RecordPage

namespace RecordFile

/-- `DiskBufferPool::get_this_page`: a page within the file, allocated or not. -/
def getThisPage (file : RecordFile) (pageNum : Nat) : Except RC RecordPage :=
  if pageNum < file.header.pageCount then .ok (file.pages pageNum) else .error .ioerrRead

def setPage (file : RecordFile) (pageNum : Nat) (page : RecordPage) : RecordFile :=
  { file with pages := Function.update file.pages pageNum page }

/-- `RecordFileHandler::get_record`. -/
def getRecord (file : RecordFile) (rid : RID) : Except RC (List UInt8) := do
  let page ← file.getThisPage rid.pageNum
  page.getRecord rid.slotNum

/-- An operation on the page of a record. -/
def onPage (file : RecordFile) (pageNum : Nat)
    (operation : RecordPage → Except Fault (RecordPage × RecordLog)) : Except Fault RecordFile :=
  match file.getThisPage pageNum with
  | .error rc => .error (.rc rc)
  | .ok page =>
    match operation page with
    | .error e => .error e
    | .ok (page', _) => .ok (file.setPage pageNum page')

/-- `RecordFileHandler::update_record`. -/
def updateRecord (file : RecordFile) (rid : RID) (record : List UInt8) : Except Fault RecordFile :=
  file.onPage rid.pageNum (RowRecordPageHandler.updateRecord rid.slotNum record)

/-- `RecordFileHandler::delete_record`. -/
def deleteRecord (file : RecordFile) (rid : RID) : Except Fault RecordFile :=
  file.onPage rid.pageNum (RowRecordPageHandler.deleteRecord rid.slotNum)

/-- The records of the file in the order of their identifiers.  Page 0 has the header. -/
def records (file : RecordFile) : List StoredRecord :=
  (settedFrom file.header.bitmap file.header.pageCount 1).flatMap fun pageNum =>
    (file.pages pageNum).recordsFrom pageNum 0

/-- All pages that have been allocated for records are well-formed. -/
def WellFormed (file : RecordFile) : Prop :=
  ∀ pageNum, 1 ≤ pageNum → file.header.Allocated pageNum → (file.pages pageNum).WellFormed

variable {file file' : RecordFile} {rid : RID} {data newData : List UInt8}

theorem mem_records {r : StoredRecord} : r ∈ file.records ↔
    1 ≤ r.rid.pageNum ∧ file.header.Allocated r.rid.pageNum ∧
      r.rid.slotNum < (file.pages r.rid.pageNum).header.recordCapacity ∧
      (file.pages r.rid.pageNum).getBit r.rid.slotNum = true ∧
      r.data = (file.pages r.rid.pageNum).recordData r.rid.slotNum := by
  simp only [records, List.mem_flatMap, RecordPage.recordsFrom, List.mem_map, mem_settedFrom,
    BPFileHeader.Allocated]
  constructor
  · rintro ⟨p, ⟨hle, hlt, hbit⟩, slot, ⟨-, hslot, hset⟩, rfl⟩
    exact ⟨hle, ⟨hlt, hbit⟩, hslot, hset, rfl⟩
  · rintro ⟨hle, ⟨hlt, hbit⟩, hslot, hset, hdata⟩
    exact ⟨r.rid.pageNum, ⟨hle, hlt, hbit⟩, r.rid.slotNum, ⟨Nat.zero_le _, hslot, hset⟩,
      by rw [← hdata]⟩

theorem distinct_records : DistinctRecords file.records := by
  intro r hr r' hr' hrid
  have hdata := (mem_records.mp hr).2.2.2.2
  have hdata' := (mem_records.mp hr').2.2.2.2
  rw [← hrid] at hdata'
  obtain ⟨rid, data⟩ := r
  obtain ⟨rid', data'⟩ := r'
  obtain rfl : rid = rid' := hrid
  exact congrArg (StoredRecord.mk rid) (hdata.trans hdata'.symm)

theorem pairwise_records : file.records.Pairwise fun r r' => r.rid ≠ r'.rid := by
  rw [records, List.pairwise_flatMap]
  constructor
  · intro p _
    rw [RecordPage.recordsFrom, List.pairwise_map]
    apply nodup_settedFrom.imp
    intro slot slot' hne heq
    exact hne (congrArg RID.slotNum heq)
  · apply nodup_settedFrom.imp
    intro p p' hne r hr r' hr' heq
    apply hne
    rw [← RecordPage.recordsFrom_pageNum hr, ← RecordPage.recordsFrom_pageNum hr', heq]

theorem getRecord_of_mem (h : ⟨rid, data⟩ ∈ file.records) : file.getRecord rid = .ok data := by
  obtain ⟨-, halloc, hslot, hset, hdata⟩ := mem_records.mp h
  have hpage : file.getThisPage rid.pageNum = .ok (file.pages rid.pageNum) := if_pos halloc.1
  rw [getRecord, hpage]
  change RecordPage.getRecord _ _ = _
  rw [RecordPage.getRecord, if_neg (Nat.not_le.mpr hslot), if_pos hset]
  exact congrArg Except.ok hdata.symm

@[simp] theorem setPage_self (pageNum : Nat) (page : RecordPage) :
    (file.setPage pageNum page).pages pageNum = page := Function.update_self ..

@[simp] theorem setPage_ne {pageNum pageNum' : Nat} (h : pageNum' ≠ pageNum) (page : RecordPage) :
    (file.setPage pageNum page).pages pageNum' = file.pages pageNum' :=
  Function.update_of_ne h ..

theorem WellFormed.setPage (h : file.WellFormed) {pageNum : Nat} {page : RecordPage}
    (hpage : page.WellFormed) : (file.setPage pageNum page).WellFormed := by
  intro p hp halloc
  by_cases heq : p = pageNum
  · rw [heq, setPage_self]
    exact hpage
  · rw [setPage_ne heq]
    exact h p hp halloc

theorem records_setPage_filter {pageNum : Nat} {page : RecordPage} {P : StoredRecord → Bool}
    (hpage : page.recordsFrom pageNum 0 = ((file.pages pageNum).recordsFrom pageNum 0).filter P)
    (hother : ∀ r : StoredRecord, r.rid.pageNum ≠ pageNum → P r = true) :
    (file.setPage pageNum page).records = file.records.filter P := by
  rw [records, records, List.filter_flatMap]
  apply List.flatMap_congr
  intro p _
  by_cases hp : p = pageNum
  · rw [hp, setPage_self, hpage]
  · rw [setPage_ne hp]
    apply Eq.symm
    apply List.filter_eq_self.mpr
    intro r hr
    exact hother r (RecordPage.recordsFrom_pageNum hr ▸ hp)

theorem records_setPage_map {pageNum : Nat} {page : RecordPage} {f : StoredRecord → StoredRecord}
    (hpage : page.recordsFrom pageNum 0 = ((file.pages pageNum).recordsFrom pageNum 0).map f)
    (hother : ∀ r : StoredRecord, r.rid.pageNum ≠ pageNum → f r = r) :
    (file.setPage pageNum page).records = file.records.map f := by
  rw [records, records, List.map_flatMap]
  apply List.flatMap_congr
  intro p _
  by_cases hp : p = pageNum
  · rw [hp, setPage_self, hpage]
  · rw [setPage_ne hp]
    have hid : ∀ r ∈ (file.pages p).recordsFrom p 0, f r = id r := fun r hr =>
      hother r (RecordPage.recordsFrom_pageNum hr ▸ hp)
    rw [List.map_congr_left hid, List.map_id]

theorem onPage_ok {pageNum : Nat}
    {operation : RecordPage → Except Fault (RecordPage × RecordLog)}
    (h : file.onPage pageNum operation = .ok file') :
    ∃ page' log, operation (file.pages pageNum) = .ok (page', log) ∧
      file' = file.setPage pageNum page' := by
  rw [onPage, getThisPage] at h
  by_cases hlt : pageNum < file.header.pageCount
  · simp only [if_pos hlt] at h
    split at h
    case h_1 => cases h
    case h_2 page' log hop =>
      cases h
      exact ⟨page', log, hop, rfl⟩
  · simp only [if_neg hlt] at h
    cases h

theorem deleteRecord_spec (hfile : file.WellFormed) (h : ⟨rid, data⟩ ∈ file.records)
    (hcall : file.deleteRecord rid = .ok file') :
    file'.WellFormed ∧ file'.records = file.records.filter fun r => r.rid ≠ rid := by
  obtain ⟨hpage, halloc, hslot, -⟩ := mem_records.mp h
  have hw := hfile _ hpage halloc
  obtain ⟨page', log, hop, rfl⟩ := onPage_ok hcall
  rw [RowRecordPageHandler.deleteRecord] at hop
  split at hop
  · cases hop
  split at hop
  case isFalse => cases hop
  case isTrue =>
    cases hop
    refine ⟨hfile.setPage ⟨hw.bitmap, hw.stride⟩, ?_⟩
    apply records_setPage_filter
    · exact RecordPage.recordsFrom_deleted hw hslot _ _
    · intro r hr
      exact decide_eq_true fun hrid => hr (by rw [hrid])

theorem updateRecord_ok (hcall : file.updateRecord rid newData = .ok file') :
    file' = file.setPage rid.pageNum
      ((file.pages rid.pageNum).setRecordData rid.slotNum newData) := by
  obtain ⟨page', log, hop, rfl⟩ := onPage_ok hcall
  rw [RowRecordPageHandler.updateRecord] at hop
  split at hop
  · cases hop
  split at hop
  · cases hop
    rfl
  · cases hop

theorem length_of_mem_records (h : ⟨rid, data⟩ ∈ file.records) :
    data.length = (file.pages rid.pageNum).header.recordRealSize := by
  obtain ⟨-, -, -, -, hdata⟩ := mem_records.mp h
  rw [show data = _ from hdata, RecordPage.recordData, List.length_map, List.length_range]

/-- One record has new bytes, as many as before, and the others are as they were. -/
theorem updateRecord_spec (hfile : file.WellFormed) (h : ⟨rid, data⟩ ∈ file.records)
    (hsize : newData.length = data.length) (hcall : file.updateRecord rid newData = .ok file') :
    file'.WellFormed ∧ file'.records = setData file.records rid newData := by
  obtain ⟨hpage, halloc, -⟩ := mem_records.mp h
  have hw := hfile _ hpage halloc
  have hlength := hsize.trans (length_of_mem_records h)
  rw [updateRecord_ok hcall]
  refine ⟨hfile.setPage ⟨hw.bitmap, hw.stride⟩, ?_⟩
  apply records_setPage_map
  · exact RecordPage.recordsFrom_updated hw hlength _ 0
  · intro r hr
    exact if_neg fun hrid => hr (by rw [hrid])

end RecordFile

end ObHtap
