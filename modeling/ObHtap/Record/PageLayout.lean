import ObHtap.Library.LittleEndian
import ObHtap.Record.RecordPage
import ObHtap.Table.TableMeta
import Mathlib.Tactic.Linarith

/-!
# The layout of a record page

Behind the header of a record page come the bitmap of its slots, the column index of the column
format, and the slots.  How many slots there are is told by a division that does not know of the
alignments, and then corrected.
-/

namespace ObHtap

/-! ## `init_empty_page` -/

open RowRecordPageHandler

/-- The header that both overloads write: `record_capacity` and the offsets, before and after
`fix_record_capacity`. -/
def emptyHeader (recordSize columnNum : Nat) : PageHeader :=
  let capacity := pageRecordCapacity bpPageDataSize (align8 recordSize) (columnNum * 4)
  let colIdxOffset := align8 (pageHeaderSize + pageBitmapSize capacity)
  let dataOffset := colIdxOffset + columnNum * 4
  { recordNum := 0
    columnNum
    recordRealSize := recordSize
    recordSize := align8 recordSize
    recordCapacity := fixRecordCapacity dataOffset (align8 recordSize) capacity
    colIdxOffset
    dataOffset }

/-- The page with an empty bitmap and the given bytes as its column index; the assertion is that
the records stay in the page. -/
def initPageWith (header : PageHeader) (columnIndex : List UInt8) (page : RecordPage) :
    Except Fault RecordPage :=
  if bpPageDataSize < header.dataOffset + header.recordCapacity * header.recordSize then
    .error .abort
  else
    let data := copyTo page.data pageHeaderSize
      (List.replicate (pageBitmapSize header.recordCapacity) 0)
    .ok ⟨header, copyTo data header.colIdxOffset columnIndex⟩

/-- `column_index`: where the columns end, from the lengths of the fields. -/
def columnIndex (capacity : Nat) : Nat → List Nat → List UInt8
  | _, [] => []
  | start, len :: lens =>
    int32Bytes (Int32.ofNat (len * capacity + start)) ++
      columnIndex capacity (len * capacity + start) lens

/-- The columns of a page: those of the table for a page in column format. -/
def pageColumns (storageFormat : StorageFormat) (lens : Option (List Nat)) : List Nat :=
  match storageFormat with
  | .paxFormat => lens.getD []
  | _ => []

/-- `init_empty_page` with the meta data of the table, here the lengths of its fields. -/
def initEmptyPageOf (storageFormat : StorageFormat) (lens : Option (List Nat)) (recordSize : Nat)
    (page : RecordPage) : Except Fault RecordPage :=
  let columns := pageColumns storageFormat lens
  let header := emptyHeader recordSize columns.length
  initPageWith header (columnIndex header.recordCapacity 0 columns) page

/-- `init_empty_page` of the replay, with the column index of the log entry. -/
def initEmptyPageFrom (columnNum : Nat) (colIdxData : List UInt8) (recordSize : Nat)
    (page : RecordPage) : Except Fault RecordPage :=
  initPageWith (emptyHeader recordSize columnNum) (colIdxData.take (columnNum * 4)) page

/-! ## The layout -/

/-- Bitmap, column index and slots come one after the other and do not overlap, inside of the
page. -/
structure LaidOut (header : PageHeader) : Prop where
  capacity : 1 ≤ header.recordCapacity
  bitmap : pageHeaderSize + pageBitmapSize header.recordCapacity ≤ header.colIdxOffset
  columns : header.colIdxOffset + header.columnNum * 4 ≤ header.dataOffset
  slots : ∀ i j, i < j → header.dataOffset + header.recordSize * i + header.recordRealSize ≤
    header.dataOffset + header.recordSize * j
  inside : ∀ i < header.recordCapacity,
    header.dataOffset + header.recordSize * i + header.recordRealSize ≤ bpPageDataSize

/-- A page can be laid out for one record or more. -/
def RecordFits (recordSize columnNum : Nat) : Prop :=
  ∃ capacity, 1 ≤ capacity ∧ align8 (pageHeaderSize + pageBitmapSize capacity) + columnNum * 4 +
    capacity * align8 recordSize ≤ bpPageDataSize

/-! ## The capacity -/

theorem align8_spec (size : Nat) : size ≤ align8 size ∧ align8 size < size + 8 ∧
    8 ∣ align8 size := by
  unfold align8
  refine ⟨by omega, by omega, Dvd.intro_left _ rfl⟩

/-- The correction ends at the first capacity whose records stay in the page. -/
theorem fixRecordCapacity_spec (dataOffset recordSize capacity : Nat)
    (hempty : dataOffset ≤ bpPageDataSize) :
    fixRecordCapacity dataOffset recordSize capacity ≤ capacity ∧
      dataOffset + fixRecordCapacity dataOffset recordSize capacity * recordSize ≤
        bpPageDataSize ∧
      ∀ n ≤ capacity, dataOffset + n * recordSize ≤ bpPageDataSize →
        n ≤ fixRecordCapacity dataOffset recordSize capacity := by
  induction capacity with
  | zero => exact ⟨Nat.le_refl _, by simpa [fixRecordCapacity] using hempty, fun n hn _ => hn⟩
  | succ capacity ih =>
    obtain ⟨hle, hin, hmax⟩ := ih
    unfold fixRecordCapacity
    split_ifs with hover
    · refine ⟨Nat.le_succ_of_le hle, hin, fun n hn hfit => ?_⟩
      rcases Nat.le_succ_iff.mp hn with hn | rfl
      · exact hmax n hn hfit
      · exact absurd hfit (Nat.not_le.mpr hover)
    · exact ⟨Nat.le_refl _, Nat.not_lt.mp hover, fun n hn _ => hn⟩

theorem RecordFits.one {recordSize columnNum : Nat} (h : RecordFits recordSize columnNum) :
    32 + columnNum * 4 + align8 recordSize ≤ bpPageDataSize := by
  obtain ⟨capacity, hpos, hfit⟩ := h
  have halign : 32 ≤ align8 (pageHeaderSize + pageBitmapSize capacity) := by
    unfold align8 pageHeaderSize pageBitmapSize
    omega
  have hsize : 1 * align8 recordSize ≤ capacity * align8 recordSize := Nat.mul_le_mul_right _ hpos
  omega

/-- Before the correction: there is a record in the capacity, and the offset of the records leaves
room for one. -/
theorem capacity_bounds {recordSize columnNum : Nat} (hpos : 0 < recordSize)
    (hfit : RecordFits recordSize columnNum) :
    1 ≤ pageRecordCapacity bpPageDataSize (align8 recordSize) (columnNum * 4) ∧
      align8 (pageHeaderSize + pageBitmapSize
        (pageRecordCapacity bpPageDataSize (align8 recordSize) (columnNum * 4))) +
          columnNum * 4 + align8 recordSize ≤ bpPageDataSize := by
  obtain ⟨hle, hlt, hdvd⟩ := align8_spec recordSize
  have hone := hfit.one
  set r := align8 recordSize with hr
  set k := pageRecordCapacity bpPageDataSize r (columnNum * 4) with hk
  have h8 : 8 ≤ r := Nat.le_of_dvd (by omega) hdvd
  -- what is left for the bitmap and the records, times 8
  have hroom : (bpPageDataSize - pageHeaderSize - columnNum * 4 - 1) * 8 =
      (32723 - columnNum * 4) * 8 := by
    unfold bpPageDataSize pageHeaderSize
    omega
  have hpage : bpPageDataSize = 32752 := rfl
  have hk' : k = (32723 - columnNum * 4) * 8 / (r * 8 + 1) := by
    rw [hk, pageRecordCapacity, hroom]
  have hmul : k * (r * 8 + 1) ≤ (32723 - columnNum * 4) * 8 := by
    rw [hk']
    exact Nat.div_mul_le_self _ _
  have hk1 : 1 ≤ k := by
    rw [hk', Nat.one_le_div_iff (by omega)]
    omega
  refine ⟨hk1, ?_⟩
  have h65 : k * 65 ≤ (32723 - columnNum * 4) * 8 :=
    (Nat.mul_le_mul_left k (by omega)).trans hmul
  unfold align8 pageHeaderSize pageBitmapSize
  rcases Nat.lt_or_ge k 2 with hk2 | hk2
  · have : k = 1 := by omega
    rw [this]
    omega
  · -- two records and more: a record takes at most half of the room
    have hhalf : 2 * (r * 8 + 1) ≤ (32723 - columnNum * 4) * 8 :=
      (Nat.mul_le_mul_right _ hk2).trans hmul
    omega

theorem emptyHeader_laidOut {recordSize columnNum : Nat} (hpos : 0 < recordSize)
    (hfit : RecordFits recordSize columnNum) : LaidOut (emptyHeader recordSize columnNum) ∧
      (emptyHeader recordSize columnNum).dataOffset +
        (emptyHeader recordSize columnNum).recordCapacity *
          (emptyHeader recordSize columnNum).recordSize ≤ bpPageDataSize := by
  obtain ⟨hcap, hroom⟩ := capacity_bounds hpos hfit
  obtain ⟨hle, -, -⟩ := align8_spec recordSize
  set header := emptyHeader recordSize columnNum with hheader
  set k := pageRecordCapacity bpPageDataSize (align8 recordSize) (columnNum * 4)
  have hoffset : header.dataOffset = align8 (pageHeaderSize + pageBitmapSize k) + columnNum * 4 :=
    rfl
  have hsize : header.recordSize = align8 recordSize := rfl
  have hreal : header.recordRealSize = recordSize := rfl
  obtain ⟨hfixle, hin, hmax⟩ := fixRecordCapacity_spec header.dataOffset header.recordSize k
    (by omega)
  have hfixed : header.recordCapacity =
      fixRecordCapacity header.dataOffset header.recordSize k := rfl
  rw [← hfixed] at hfixle hin hmax
  refine ⟨?_, hin⟩
  constructor
  · exact hmax 1 hcap (by omega)
  · have hbitmap : pageBitmapSize header.recordCapacity ≤ pageBitmapSize k :=
      Nat.div_le_div_right (by omega)
    exact (Nat.add_le_add_left hbitmap _).trans (align8_spec _).1
  · exact Nat.le_refl _
  · intro i j hij
    have hstep := Nat.mul_le_mul_left header.recordSize hij
    rw [Nat.mul_succ] at hstep
    omega
  · intro i hi
    have hstep := Nat.mul_le_mul_left header.recordSize hi
    rw [Nat.mul_succ, Nat.mul_comm header.recordSize header.recordCapacity] at hstep
    omega

/-- For every record size and number of columns with which a record fits in a page, both overloads
lay out the page, and with the same header. -/
theorem initEmptyPage_laidOut (recordSize columnNum : Nat) (hpos : 0 < recordSize)
    (hfit : RecordFits recordSize columnNum) (colIdxData : List UInt8) (page : RecordPage) :
    ∃ replayed, initEmptyPageFrom columnNum colIdxData recordSize page = .ok replayed ∧
      LaidOut replayed.header ∧ replayed.header.recordRealSize = recordSize ∧
      replayed.header.columnNum = columnNum ∧
      ∀ storageFormat lens, (pageColumns storageFormat lens).length = columnNum →
        ∃ page', initEmptyPageOf storageFormat lens recordSize page = .ok page' ∧
          page'.header = replayed.header := by
  obtain ⟨hlaid, hin⟩ := emptyHeader_laidOut hpos hfit
  have hinit : ∀ columnIndex, ∃ page', initPageWith (emptyHeader recordSize columnNum) columnIndex
      page = .ok page' ∧ page'.header = emptyHeader recordSize columnNum :=
    fun columnIndex => ⟨_, if_neg (Nat.not_lt.mpr hin), rfl⟩
  obtain ⟨replayed, hreplayed, hheader⟩ := hinit (colIdxData.take (columnNum * 4))
  rw [← hheader] at hlaid
  refine ⟨replayed, hreplayed, hlaid, by rw [hheader]; rfl, by rw [hheader]; rfl, ?_⟩
  intro storageFormat lens hcolumns
  rw [hheader]
  simp only [initEmptyPageOf, hcolumns]
  exact hinit _

/-- Records of 20 bytes in three columns. -/
theorem initEmptyPage_laidOut_twenty :
    ∃ replayed, initEmptyPageFrom 3 [] 20 ⟨emptyHeader 1 0, fun _ => 0⟩ = .ok replayed ∧
      LaidOut replayed.header ∧ replayed.header.recordRealSize = 20 ∧
      replayed.header.columnNum = 3 ∧
      ∀ storageFormat lens, (pageColumns storageFormat lens).length = 3 →
        ∃ page', initEmptyPageOf storageFormat lens 20 ⟨emptyHeader 1 0, fun _ => 0⟩ = .ok page' ∧
          page'.header = replayed.header :=
  initEmptyPage_laidOut 20 3 (by decide) ⟨1, by decide, by decide⟩ [] _

end ObHtap
