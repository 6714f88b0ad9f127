import ObHtap.Common.Bitmap
import ObHtap.Library.LittleEndian
import ObHtap.Record.RecordPage
import Mathlib.Algebra.Group.Int.Defs

/-!
# Record pages as bytes

The calls of `RowRecordPageHandler` on the bytes of a page, header included.  A slot number is any
integer: the places of its bit and of its record are computed from it, wherever that leads.  An
access outside of the page, or a shift by a negative number, ends the program.
-/

namespace ObHtap

/-- The bytes of a page behind `lsn` and `check_sum`. -/
abbrev PageBytes := Nat → UInt8

namespace PageBytes

/-- `memcpy` to an offset, from the memory at a pointer. -/
def copy (data : PageBytes) (offset count : Nat) (source : Nat → UInt8) : PageBytes :=
  fun i => if offset ≤ i ∧ i < offset + count then source (i - offset) else data i

def setByte (data : PageBytes) (address : Nat) (byte : UInt8) : PageBytes :=
  Function.update data address byte

/-! ## The header -/

def int32At (data : PageBytes) (offset : Nat) : Int :=
  (bytesInt32 ((List.range 4).map fun i => data (offset + i))).toInt

def recordNum (data : PageBytes) : Int := data.int32At 0
def recordRealSize (data : PageBytes) : Int := data.int32At 8
def recordSize (data : PageBytes) : Int := data.int32At 12
def recordCapacity (data : PageBytes) : Int := data.int32At 16
def dataOffset (data : PageBytes) : Int := data.int32At 24

/-- Writes an integer. -/
def setInt32 (data : PageBytes) (offset : Nat) (value : Int) : PageBytes :=
  data.copy offset 4 fun i => (int32Bytes (Int32.ofInt value)).getD i 0

def setRecordNum (data : PageBytes) (n : Int) : PageBytes := data.setInt32 0 n

/-- `bitmap_`. -/
def bitmap (data : PageBytes) : Nat → UInt8 := fun i => data (pageHeaderSize + i)

/-! ## The places of a slot -/

/-- The byte of a slot in the bitmap and the bit of the byte.  C rounds to zero. -/
def bitPlace (slotNum : Int) : Except Fault (Nat × Nat) :=
  let address : Int := pageHeaderSize + slotNum.tdiv 8
  if 0 ≤ slotNum.tmod 8 ∧ 0 ≤ address ∧ address < bpPageDataSize then
    .ok (address.toNat, (slotNum.tmod 8).toNat)
  else .error .abort

/-- `Bitmap::get_bit`. -/
def getBit (data : PageBytes) (slotNum : Int) : Except Fault Bool := do
  let (address, i) ← bitPlace slotNum
  return Bitmap.bit (data address) i

/-- `Bitmap::set_bit`. -/
def setBit (data : PageBytes) (slotNum : Int) : Except Fault PageBytes := do
  let (address, i) ← bitPlace slotNum
  return data.setByte address (data address ||| Bitmap.mask i)

/-- `Bitmap::clear_bit`. -/
def clearBit (data : PageBytes) (slotNum : Int) : Except Fault PageBytes := do
  let (address, i) ← bitPlace slotNum
  return data.setByte address (data address &&& ~~~ Bitmap.mask i)

/-- `get_record_data`, for the bytes of a record. -/
def recordPlace (data : PageBytes) (slotNum : Int) : Except Fault Nat :=
  let address := data.dataOffset + data.recordSize * slotNum
  if 0 ≤ address ∧ 0 ≤ data.recordRealSize ∧ address + data.recordRealSize ≤ bpPageDataSize then
    .ok address.toNat
  else .error .abort

/-- Copies a record to its place. -/
def setRecordData (data : PageBytes) (slotNum : Int) (record : Nat → UInt8) :
    Except Fault PageBytes := do
  let address ← data.recordPlace slotNum
  return data.copy address data.recordRealSize.toNat record

/-! ## `RowRecordPageHandler` -/

/-- `insert_record`, with the slot of the record. -/
def insertRecord (data : PageBytes) (record : Nat → UInt8) : Except Fault (PageBytes × Int) :=
  if data.recordNum = data.recordCapacity then .error (.rc .recordNomem)
  else do
    let index : Int :=
      match Bitmap.nextUnsettedBit data.bitmap data.recordCapacity.toNat 0 with
      | some i => i
      | none => -1
    let data ← data.setBit index
    let data := data.setRecordNum (data.recordNum + 1)
    let data ← data.setRecordData index record
    return (data, index)

/-- `recover_insert_record`. -/
def recoverInsertRecord (data : PageBytes) (slotNum : Int) (record : Nat → UInt8) :
    Except Fault PageBytes :=
  if data.recordCapacity ≤ slotNum then .error (.rc .recordInvalidRid)
  else do
    let used ← data.getBit slotNum
    if used then data.setRecordData slotNum record
    else
      let data ← data.setBit slotNum
      let data := data.setRecordNum (data.recordNum + 1)
      data.setRecordData slotNum record

/-- `delete_record`. -/
def deleteRecord (data : PageBytes) (slotNum : Int) : Except Fault PageBytes := do
  let used ← data.getBit slotNum
  if used then
    let data ← data.clearBit slotNum
    return data.setRecordNum (data.recordNum - 1)
  else .error (.rc .recordNotExist)

/-- `update_record`. -/
def updateRecord (data : PageBytes) (slotNum : Int) (record : Nat → UInt8) :
    Except Fault PageBytes :=
  if data.recordCapacity ≤ slotNum then .error (.rc .invalidArgument)
  else do
    let used ← data.getBit slotNum
    if used then data.setRecordData slotNum record else .error (.rc .recordNotExist)

/-- `get_record`, with the bytes of the record. -/
def getRecord (data : PageBytes) (slotNum : Int) : Except Fault (List UInt8) :=
  if data.recordCapacity ≤ slotNum then .error (.rc .recordInvalidRid)
  else do
    let used ← data.getBit slotNum
    if used then
      let address ← data.recordPlace slotNum
      return (List.range data.recordRealSize.toNat).map fun i => data (address + i)
    else .error (.rc .recordNotExist)

/-! ## Bytes that a write does not reach -/

variable {data : PageBytes} {offset count i : Nat} {source : Nat → UInt8} {value : Int}

theorem copy_of_notMem (h : i < offset ∨ offset + count ≤ i) :
    data.copy offset count source i = data i := by
  rw [copy, if_neg]
  omega

theorem copy_add (h : i < count) : data.copy offset count source (offset + i) = source i := by
  rw [copy, if_pos (by omega), Nat.add_sub_cancel_left]

theorem int32At_congr {data' : PageBytes} (h : ∀ i < 4, data' (offset + i) = data (offset + i)) :
    data'.int32At offset = data.int32At offset := by
  unfold int32At
  congr 2
  apply List.map_congr_left
  intro i hi
  exact h i (List.mem_range.mp hi)

/-- A copy behind the header leaves the header as it is. -/
theorem int32At_copy (h : i + 4 ≤ offset) :
    (data.copy offset count source).int32At i = data.int32At i :=
  int32At_congr fun k hk => copy_of_notMem (Or.inl (by omega))

theorem int32At_setByte {address : Nat} {byte : UInt8} (h : i + 4 ≤ address) :
    (data.setByte address byte).int32At i = data.int32At i := by
  apply int32At_congr
  intro k hk
  apply Function.update_of_ne
  omega

theorem int32At_setInt32_self (hmin : -2 ^ 31 ≤ value) (hmax : value < 2 ^ 31) :
    (data.setInt32 offset value).int32At offset = value := by
  have hbytes : (List.range 4).map (fun i => data.setInt32 offset value (offset + i)) =
      int32Bytes (Int32.ofInt value) := by
    apply List.ext_getElem
    · simp
    · intro i hi hi'
      simp only [List.getElem_map, List.getElem_range]
      rw [length_int32Bytes] at hi'
      rw [setInt32, copy_add hi', List.getD_eq_getElem?_getD, List.getElem?_eq_getElem,
        Option.getD_some]
  rw [int32At, hbytes, bytesInt32_int32Bytes]
  exact Int32.toInt_ofInt_of_le hmin hmax

theorem int32At_setInt32_ne (h : i + 4 ≤ offset ∨ offset + 4 ≤ i) :
    (data.setInt32 offset value).int32At i = data.int32At i := by
  apply int32At_congr
  intro k hk
  apply copy_of_notMem
  omega

/-- The number of records is written before the bitmap. -/
theorem setRecordNum_of_le (h : 4 ≤ i) : data.setRecordNum value i = data i := by
  unfold setRecordNum setInt32
  exact copy_of_notMem (Or.inr (by omega))

/-- Writes integers one after the other. -/
def setInts (data : PageBytes) (offset : Nat) : List Int → PageBytes
  | [] => data
  | value :: values => (setInts data (offset + 4) values).setInt32 offset value

theorem setInts_of_le {values : List Int} (h : offset + 4 * values.length ≤ i) :
    data.setInts offset values i = data i := by
  induction values generalizing offset with
  | nil => rfl
  | cons value values ih =>
    rw [List.length_cons] at h
    rw [setInts, setInt32, copy_of_notMem (Or.inr (by omega)), ih (by omega)]

theorem int32At_setInts {values : List Int} {k : Nat}
    (hrange : ∀ value ∈ values, -2 ^ 31 ≤ value ∧ value < 2 ^ 31) (h : values[k]? = some value) :
    (data.setInts offset values).int32At (offset + 4 * k) = value := by
  induction values generalizing offset k with
  | nil => cases h
  | cons first values ih =>
    rw [List.forall_mem_cons] at hrange
    cases k with
    | zero =>
      obtain rfl := Option.some.inj h
      exact int32At_setInt32_self hrange.1.1 hrange.1.2
    | succ k =>
      have hnext : offset + 4 * (k + 1) = offset + 4 + 4 * k := by omega
      rw [setInts, int32At_setInt32_ne (Or.inr (by omega)), hnext]
      exact ih hrange.2 h

end PageBytes

/-- The integers of `PageHeader`. -/
def PageHeader.fields (header : PageHeader) : List Int :=
  [header.recordNum, header.columnNum, header.recordRealSize, header.recordSize,
    header.recordCapacity, header.colIdxOffset, header.dataOffset]

/-- The header in front of the bytes behind it. -/
def RecordPage.toBytes (page : RecordPage) : PageBytes :=
  PageBytes.setInts page.data 0 page.header.fields

theorem RecordPage.toBytes_of_le {page : RecordPage} {i : Nat} (h : pageHeaderSize ≤ i) :
    page.toBytes i = page.data i :=
  PageBytes.setInts_of_le h

end ObHtap
