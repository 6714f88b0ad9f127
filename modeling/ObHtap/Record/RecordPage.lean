import ObHtap.Buffer.FileHeader
import ObHtap.Common.RC

/-!
# Record pages in row format

A record page starts with a header, then comes a bitmap of the slots in use, then the slots.
The bitmap and the slots are bytes of the page: `delete_record` does not compare the slot number
with the capacity and reads what is there.
-/

namespace ObHtap

/-- `PAGE_HEADER_SIZE`: the seven integers of `PageHeader`. -/
def pageHeaderSize : Nat := 28

/-- `align8`. -/
def align8 (size : Nat) : Nat := (size + 7) / 8 * 8

/-- `page_record_capacity`: the quotient by `record_size + 0.125`, rounded down. -/
def pageRecordCapacity (pageSize recordSize fixedSize : Nat) : Nat :=
  (pageSize - pageHeaderSize - fixedSize - 1) * 8 / (recordSize * 8 + 1)

/-- `page_bitmap_size`. -/
def pageBitmapSize (recordCapacity : Nat) : Nat := (recordCapacity + 7) / 8

structure PageHeader where
  recordNum : Int
  columnNum : Nat
  recordRealSize : Nat
  recordSize : Nat
  recordCapacity : Nat
  colIdxOffset : Nat
  dataOffset : Nat
  deriving DecidableEq

/-- `data` are the bytes of the page behind the header, by their offset in the page. -/
structure RecordPage where
  header : PageHeader
  data : Nat → UInt8

/-- Copies bytes to an offset. -/
def copyTo (data : Nat → UInt8) (offset : Nat) (bytes : List UInt8) : Nat → UInt8 :=
  fun i => if h : offset ≤ i ∧ i - offset < bytes.length then bytes[i - offset] else data i

namespace RecordPage

/-! ## The bitmap -/

/-- The byte of the page that has the bit of a slot. -/
def bitmapByte (slotNum : Nat) : Nat := pageHeaderSize + slotNum / 8

/-- The mask of a slot in its byte. -/
def bitMask (slotNum : Nat) : UInt8 := 1 <<< (slotNum % 8).toUInt8

/-- `Bitmap::get_bit`. -/
def getBit (page : RecordPage) (slotNum : Nat) : Bool :=
  page.data (bitmapByte slotNum) &&& bitMask slotNum ≠ 0

/-- `Bitmap::set_bit`. -/
def setBit (page : RecordPage) (slotNum : Nat) : RecordPage :=
  { page with
    data := copyTo page.data (bitmapByte slotNum)
      [page.data (bitmapByte slotNum) ||| bitMask slotNum] }

/-- `Bitmap::clear_bit`. -/
def clearBit (page : RecordPage) (slotNum : Nat) : RecordPage :=
  { page with
    data := copyTo page.data (bitmapByte slotNum)
      [page.data (bitmapByte slotNum) &&& ~~~ bitMask slotNum] }

/-- `Bitmap::next_unsetted_bit(0)` over the capacity of the page. -/
def nextUnsettedBit (page : RecordPage) : Option Nat :=
  (List.range page.header.recordCapacity).find? fun i => !page.getBit i

/-! ## The slots -/

/-- The offset of the bytes that `get_record_data` points to. -/
def recordOffset (page : RecordPage) (slotNum : Nat) : Nat :=
  page.header.dataOffset + page.header.recordSize * slotNum

/-- The bytes of a slot. -/
def recordData (page : RecordPage) (slotNum : Nat) : List UInt8 :=
  (List.range page.header.recordRealSize).map fun i => page.data (page.recordOffset slotNum + i)

/-- Copies the bytes of a record to a slot. -/
def setRecordData (page : RecordPage) (slotNum : Nat) (record : List UInt8) : RecordPage :=
  { page with
    data := copyTo page.data (page.recordOffset slotNum)
      (record.take page.header.recordRealSize) }

def addRecordNum (page : RecordPage) (n : Int) : RecordPage :=
  { page with header := { page.header with recordNum := page.header.recordNum + n } }

end RecordPage

/-! ## Log records -/

/-- A log record of `RecordLogHandler` for a page in row format, with what its replay reads. -/
inductive RecordLog where
  | initPage (recordSize : Nat)
  | insert (slotNum : Nat) (data : List UInt8)
  | delete (slotNum : Nat)
  | update (slotNum : Nat) (data : List UInt8)
  deriving DecidableEq

/-! ## `RowRecordPageHandler`

A successful operation has a page and the log record that it appends. -/

namespace RowRecordPageHandler

/-- `fix_record_capacity`. -/
def fixRecordCapacity (dataOffset recordSize : Nat) : Nat → Nat
  | 0 => 0
  | capacity + 1 =>
    if bpPageDataSize < dataOffset + (capacity + 1) * recordSize then
      fixRecordCapacity dataOffset recordSize capacity
    else capacity + 1

/-- `init_empty_page`, without a column index. -/
def initEmptyPage (recordSize : Nat) (page : RecordPage) :
    Except Fault (RecordPage × RecordLog) :=
  let capacity := pageRecordCapacity bpPageDataSize (align8 recordSize) 0
  let dataOffset := align8 (pageHeaderSize + pageBitmapSize capacity)
  let header : PageHeader :=
    { recordNum := 0
      columnNum := 0
      recordRealSize := recordSize
      recordSize := align8 recordSize
      recordCapacity := fixRecordCapacity dataOffset (align8 recordSize) capacity
      colIdxOffset := dataOffset
      dataOffset }
  if bpPageDataSize < header.dataOffset + header.recordCapacity * header.recordSize then
    .error .abort
  else
    .ok (⟨header, copyTo page.data pageHeaderSize
      (List.replicate (pageBitmapSize header.recordCapacity) 0)⟩, .initPage recordSize)

/-- `insert_record`.  Without a free slot the bit at -1 would be set. -/
def insertRecord (record : List UInt8) (page : RecordPage) :
    Except Fault (RecordPage × RecordLog) :=
  if page.header.recordNum = page.header.recordCapacity then .error (.rc .recordNomem)
  else
    match page.nextUnsettedBit with
    | none => .error .abort
    | some index =>
      .ok (((page.setBit index).addRecordNum 1).setRecordData index record,
        .insert index (record.take page.header.recordRealSize))

/-- `delete_record` of a slot from 0 on.  The bit of the slot has to be in the page. -/
def deleteRecord (slotNum : Nat) (page : RecordPage) : Except Fault (RecordPage × RecordLog) :=
  if bpPageDataSize ≤ RecordPage.bitmapByte slotNum then .error .abort
  else if page.getBit slotNum then
    .ok ((page.clearBit slotNum).addRecordNum (-1), .delete slotNum)
  else .error (.rc .recordNotExist)

/-- `update_record`. -/
def updateRecord (slotNum : Nat) (record : List UInt8) (page : RecordPage) :
    Except Fault (RecordPage × RecordLog) :=
  if page.header.recordCapacity ≤ slotNum then .error (.rc .invalidArgument)
  else if page.getBit slotNum then
    .ok (page.setRecordData slotNum record,
      .update slotNum (record.take page.header.recordRealSize))
  else .error (.rc .recordNotExist)

end RowRecordPageHandler

end ObHtap
