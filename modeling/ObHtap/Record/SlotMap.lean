import ObHtap.Library.Loop
import ObHtap.Library.PartialRun
import ObHtap.Record.PageBytes
import ObHtap.Record.PageLayout
import Mathlib.Data.Finset.Card

/-!
# A record page as a map of slots

What a page in row format is for: each slot below the capacity holds the bytes of a record or is
free.  The calls of `RowRecordPageHandler` keep to this as long as the bit of a slot number is
looked for inside of the bitmap; only some of them compare the number with the capacity, and none
with zero.
-/

namespace ObHtap

open PageBytes

/-- The layout of a page: the slots come behind the bitmap and end in the page. -/
structure SlotLayout where
  capacity : Nat
  recordRealSize : Nat
  recordSize : Nat
  dataOffset : Nat
  bitmap_le : pageHeaderSize + pageBitmapSize capacity ≤ dataOffset
  stride : recordRealSize ≤ recordSize
  inside : dataOffset + recordSize * capacity ≤ bpPageDataSize

inductive PageCall where
  | insertRecord (record : Nat → UInt8)
  | recoverInsertRecord (slotNum : Int) (record : Nat → UInt8)
  | updateRecord (slotNum : Int) (record : Nat → UInt8)
  | deleteRecord (slotNum : Int)
  | getRecord (slotNum : Int)

namespace PageBytes

/-- The page after a call that returns; a call with an error has not changed it. -/
def afterCall (data : PageBytes) : Except Fault PageBytes → Option PageBytes
  | .ok data' => some data'
  | .error (.rc _) => some data
  | .error _ => none

def step (data : PageBytes) : PageCall → Option PageBytes
  | .insertRecord record => data.afterCall ((data.insertRecord record).map Prod.fst)
  | .recoverInsertRecord slotNum record =>
    data.afterCall (data.recoverInsertRecord slotNum record)
  | .updateRecord slotNum record => data.afterCall (data.updateRecord slotNum record)
  | .deleteRecord slotNum => data.afterCall (data.deleteRecord slotNum)
  | .getRecord slotNum => data.afterCall ((data.getRecord slotNum).map fun _ => data)

end PageBytes

/-- A call has returned an error. -/
def PageBytes.Rejected {α : Type} (outcome : Except Fault α) : Prop := ∃ rc, outcome = .error (.rc rc)

namespace SlotLayout

variable (layout : SlotLayout) (data data' : PageBytes)

/-- The slots whose bit is set. -/
def used : Finset Nat :=
  (Finset.range layout.capacity).filter fun slot => Bitmap.getBit data.bitmap slot = true

/-- The bytes of a slot. -/
def bytes (slot : Nat) : List UInt8 :=
  (List.range layout.recordRealSize).map fun i =>
    data (layout.dataOffset + layout.recordSize * slot + i)

/-- The map that the page stands for. -/
def slots (slot : Nat) : Option (List UInt8) :=
  if slot ∈ layout.used data then some (layout.bytes data slot) else none

/-- The header of a page has the layout. -/
structure LaysOut : Prop where
  capacity : data.recordCapacity = layout.capacity
  realSize : data.recordRealSize = layout.recordRealSize
  size : data.recordSize = layout.recordSize
  offset : data.dataOffset = layout.dataOffset

/-- A page with the layout whose `record_num` is the number of the slots in use. -/
structure Holds : Prop extends layout.LaysOut data where
  count : data.recordNum = (layout.used data).card

/-! ## What the calls are to do -/

/-- One slot has got a value, or has become free, and no other has changed. -/
structure Changes (slot : Nat) (value : Option (List UInt8)) : Prop where
  holds : layout.Holds data'
  slots_eq : layout.slots data' = Function.update (layout.slots data) slot value
  bytes_eq : ∀ other < layout.capacity, other ≠ slot →
    layout.bytes data' other = layout.bytes data other

/-- The number of a slot in use. -/
def Live (slotNum : Int) : Prop := 0 ≤ slotNum ∧ slotNum.toNat ∈ layout.used data

instance (slotNum : Int) : Decidable (layout.Live data slotNum) :=
  inferInstanceAs (Decidable (_ ∧ _))

/-- The bytes of a record at a pointer. -/
def recordAt (record : Nat → UInt8) : List UInt8 := (List.range layout.recordRealSize).map record

/-- The calls of a map of slots. -/
def MeetsSpec : PageCall → Prop
  | .insertRecord record =>
    if (layout.used data).card = layout.capacity then Rejected (data.insertRecord record)
    else ∃ (slot : Nat) (data' : PageBytes), data.insertRecord record = .ok (data', slot) ∧
      slot < layout.capacity ∧ layout.slots data slot = none ∧
      layout.Changes data data' slot (some (layout.recordAt record))
  | .recoverInsertRecord slotNum record =>
    if 0 ≤ slotNum ∧ slotNum < layout.capacity then
      ∃ data', data.recoverInsertRecord slotNum record = .ok data' ∧
        layout.Changes data data' slotNum.toNat (some (layout.recordAt record))
    else Rejected (data.recoverInsertRecord slotNum record)
  | .updateRecord slotNum record =>
    if layout.Live data slotNum then
      ∃ data', data.updateRecord slotNum record = .ok data' ∧
        layout.Changes data data' slotNum.toNat (some (layout.recordAt record))
    else Rejected (data.updateRecord slotNum record)
  | .deleteRecord slotNum =>
    if layout.Live data slotNum then
      ∃ data', data.deleteRecord slotNum = .ok data' ∧
        layout.Changes data data' slotNum.toNat none
    else Rejected (data.deleteRecord slotNum)
  | .getRecord slotNum =>
    if layout.Live data slotNum then
      data.getRecord slotNum = .ok (layout.bytes data slotNum.toNat)
    else Rejected (data.getRecord slotNum)

/-- The bit that is read in the place of the slot's lies in the page and is clear. -/
def BitClear (slotNum : Int) : Prop := data.getBit slotNum = .ok false

/-- The bit of the slot is looked for in the bitmap, or is found clear somewhere else in the page;
the replay of an insert takes no negative number. -/
def Harmless : PageCall → Prop
  | .insertRecord _ => True
  | .recoverInsertRecord slotNum _ => 0 ≤ slotNum
  | .updateRecord slotNum _ | .getRecord slotNum => 0 ≤ slotNum ∨ BitClear data slotNum
  | .deleteRecord slotNum =>
    (0 ≤ slotNum ∧ slotNum < layout.capacity) ∨ BitClear data slotNum

/-! ## The places of a slot below the capacity -/

variable {layout data data'} {slot other : Nat} {slotNum : Int} {record : Nat → UInt8}

theorem mem_used : slot ∈ layout.used data ↔
    slot < layout.capacity ∧ Bitmap.getBit data.bitmap slot = true := by
  rw [used, Finset.mem_filter, Finset.mem_range]

theorem bitmapByte_lt (h : slot < layout.capacity) :
    pageHeaderSize + slot / 8 < layout.dataOffset := by
  have hle := layout.bitmap_le
  unfold pageBitmapSize at hle
  omega

theorem recordPlace_add_le (h : slot < other) :
    layout.dataOffset + layout.recordSize * slot + layout.recordRealSize ≤
      layout.dataOffset + layout.recordSize * other := by
  have hstep := Nat.mul_le_mul_left layout.recordSize h
  have hstride := layout.stride
  rw [Nat.mul_succ] at hstep
  omega

theorem dataOffset_le : layout.dataOffset ≤ bpPageDataSize :=
  (Nat.le_add_right _ _).trans layout.inside

theorem bitPlace_of_lt (h : slot < layout.capacity) :
    bitPlace slot = .ok (pageHeaderSize + slot / 8, slot % 8) := by
  have hlt := (bitmapByte_lt h).trans_le dataOffset_le
  have hdiv : (slot : Int).tdiv 8 = (slot / 8 : Nat) := rfl
  have hmod : (slot : Int).tmod 8 = (slot % 8 : Nat) := rfl
  unfold bitPlace
  simp only [hdiv, hmod]
  rw [if_pos (by omega)]
  rfl

theorem getBit_of_lt (h : slot < layout.capacity) :
    data.getBit slot = .ok (Bitmap.getBit data.bitmap slot) := by
  unfold PageBytes.getBit
  rw [bitPlace_of_lt h]
  rfl

theorem setBit_of_lt (h : slot < layout.capacity) : data.setBit slot =
    .ok (data.setByte (pageHeaderSize + slot / 8)
      (data (pageHeaderSize + slot / 8) ||| Bitmap.mask (slot % 8))) := by
  unfold PageBytes.setBit
  rw [bitPlace_of_lt h]
  rfl

theorem clearBit_of_lt (h : slot < layout.capacity) : data.clearBit slot =
    .ok (data.setByte (pageHeaderSize + slot / 8)
      (data (pageHeaderSize + slot / 8) &&& ~~~ Bitmap.mask (slot % 8))) := by
  unfold PageBytes.clearBit
  rw [bitPlace_of_lt h]
  rfl

theorem recordPlace_of_lt (hlays : layout.LaysOut data) (h : slot < layout.capacity) :
    data.recordPlace slot = .ok (layout.dataOffset + layout.recordSize * slot) := by
  have hin := (recordPlace_add_le h).trans layout.inside
  unfold recordPlace
  rw [hlays.offset, hlays.size, hlays.realSize]
  norm_cast
  rw [if_pos (by omega), Int.toNat_natCast]

theorem setRecordData_of_lt (hlays : layout.LaysOut data) (h : slot < layout.capacity) :
    data.setRecordData slot record = .ok (data.copy
      (layout.dataOffset + layout.recordSize * slot) layout.recordRealSize record) := by
  unfold setRecordData
  rw [recordPlace_of_lt hlays h, hlays.realSize]
  rfl

/-! ## What the writes do to the map -/

theorem slots_of_mem (h : slot ∈ layout.used data) :
    layout.slots data slot = some (layout.bytes data slot) := if_pos h

theorem slots_eq_none (h : slot ∉ layout.used data) : layout.slots data slot = none := if_neg h

theorem card_used_le : (layout.used data).card ≤ layout.capacity := by
  have hle := Finset.card_filter_le (Finset.range layout.capacity)
    fun slot => Bitmap.getBit data.bitmap slot = true
  rwa [Finset.card_range] at hle

theorem capacity_lt : layout.capacity < 2 ^ 20 := by
  have hle := layout.bitmap_le.trans dataOffset_le
  unfold pageBitmapSize pageHeaderSize bpPageDataSize at hle
  omega

/-- A change of one slot is told by the slots in use and the bytes. -/
theorem changes_of_used {value : Option (List UInt8)} (hholds : layout.Holds data')
    (hused : ∀ other < layout.capacity, other ≠ slot →
      (other ∈ layout.used data' ↔ other ∈ layout.used data))
    (hslot : layout.slots data' slot = value)
    (hbytes : ∀ other < layout.capacity, other ≠ slot →
      layout.bytes data' other = layout.bytes data other) :
    layout.Changes data data' slot value := by
  refine ⟨hholds, ?_, hbytes⟩
  funext other
  by_cases hother : other = slot
  · rw [hother, hslot, Function.update_self]
  · rw [Function.update_of_ne hother]
    by_cases hlt : other < layout.capacity
    · unfold slots
      rw [hbytes other hlt hother]
      exact if_congr (hused other hlt hother) rfl rfl
    · rw [slots_eq_none fun h => hlt (mem_used.mp h).1,
        slots_eq_none fun h => hlt (mem_used.mp h).1]

theorem Changes.trans {data'' : PageBytes} {value value' : Option (List UInt8)}
    (h : layout.Changes data data' slot value) (h' : layout.Changes data' data'' slot value') :
    layout.Changes data data'' slot value' := by
  refine ⟨h'.holds, ?_, fun other hlt hne => ?_⟩
  · rw [h'.slots_eq, h.slots_eq, Function.update_idem]
  · rw [h'.bytes_eq other hlt hne, h.bytes_eq other hlt hne]

/-- Bytes behind the bitmap are the same after a write in front of the slots. -/
theorem bytes_congr (h : ∀ i, layout.dataOffset ≤ i → data' i = data i) (slot : Nat) :
    layout.bytes data' slot = layout.bytes data slot := by
  apply List.map_congr_left
  intro i _
  apply h
  omega

/-- The header with a new number of records, and a byte of the bitmap. -/
theorem marked_spec (hlays : layout.LaysOut data) (h : slot < layout.capacity) (byte : UInt8)
    {n : Int} (hmin : -2 ^ 31 ≤ n) (hmax : n < 2 ^ 31) :
    let marked := (data.setByte (pageHeaderSize + slot / 8) byte).setRecordNum n
    layout.LaysOut marked ∧ marked.recordNum = n ∧
      marked.bitmap = Function.update data.bitmap (slot / 8) byte ∧
      ∀ other, layout.bytes marked other = layout.bytes data other := by
  intro marked
  have hheader : ∀ offset, 4 ≤ offset → offset + 4 ≤ pageHeaderSize →
      marked.int32At offset = data.int32At offset := by
    intro offset hlow hhigh
    exact (int32At_setInt32_ne (Or.inr hlow)).trans (int32At_setByte (by omega))
  refine ⟨⟨?_, ?_, ?_, ?_⟩, int32At_setInt32_self hmin hmax, ?_, ?_⟩
  · exact (hheader 16 (by decide) (by decide)).trans hlays.capacity
  · exact (hheader 8 (by decide) (by decide)).trans hlays.realSize
  · exact (hheader 12 (by decide) (by decide)).trans hlays.size
  · exact (hheader 24 (by decide) (by decide)).trans hlays.offset
  · funext i
    have hmarked : marked (pageHeaderSize + i) =
        data.setByte (pageHeaderSize + slot / 8) byte (pageHeaderSize + i) :=
      setRecordNum_of_le (by unfold pageHeaderSize; omega)
    unfold bitmap
    rw [hmarked, setByte, Function.update_apply, Function.update_apply]
    simp only [Nat.add_left_cancel_iff]
  · intro other
    apply bytes_congr
    intro i hi
    have hlt := bitmapByte_lt h
    have hmarked : marked i = data.setByte (pageHeaderSize + slot / 8) byte i :=
      setRecordNum_of_le (by unfold pageHeaderSize at hlt; omega)
    rw [hmarked, setByte, Function.update_of_ne (by omega)]

theorem Holds.take (hholds : layout.Holds data) (h : slot < layout.capacity)
    (hfree : slot ∉ layout.used data) :
    layout.Changes data ((data.setByte (pageHeaderSize + slot / 8)
      (data (pageHeaderSize + slot / 8) ||| Bitmap.mask (slot % 8))).setRecordNum
        (data.recordNum + 1)) slot (some (layout.bytes data slot)) := by
  have hcount := hholds.count
  have hcard : (layout.used data).card < 2 ^ 20 := card_used_le.trans_lt capacity_lt
  obtain ⟨hlays, hnum, hbitmap, hbytes⟩ := marked_spec hholds.toLaysOut h
    (data (pageHeaderSize + slot / 8) ||| Bitmap.mask (slot % 8))
    (n := data.recordNum + 1) (by omega) (by omega)
  set marked := (data.setByte (pageHeaderSize + slot / 8)
    (data (pageHeaderSize + slot / 8) ||| Bitmap.mask (slot % 8))).setRecordNum
      (data.recordNum + 1)
  have hbit : ∀ other, Bitmap.getBit marked.bitmap other =
      (Bitmap.getBit data.bitmap other || decide (other = slot)) := by
    intro other
    rw [hbitmap]
    exact Bitmap.getBit_setBit
  have hused : layout.used marked = insert slot (layout.used data) := by
    ext other
    rw [Finset.mem_insert, mem_used, mem_used, hbit, Bool.or_eq_true, decide_eq_true_iff]
    constructor
    · rintro ⟨hlt, hset | rfl⟩
      · exact Or.inr ⟨hlt, hset⟩
      · exact Or.inl rfl
    · rintro (rfl | ⟨hlt, hset⟩)
      · exact ⟨h, Or.inr rfl⟩
      · exact ⟨hlt, Or.inl hset⟩
  have hmem : slot ∈ layout.used marked := by
    rw [hused]
    exact Finset.mem_insert_self _ _
  apply changes_of_used
  · refine ⟨hlays, ?_⟩
    rw [hnum, hused, Finset.card_insert_of_notMem hfree, hcount]
    rfl
  · intro other _ hne
    rw [hused, Finset.mem_insert, or_iff_right hne]
  · rw [slots_of_mem hmem, hbytes]
  · exact fun other _ _ => hbytes other

theorem Holds.free (hholds : layout.Holds data) (hmem : slot ∈ layout.used data) :
    layout.Changes data ((data.setByte (pageHeaderSize + slot / 8)
      (data (pageHeaderSize + slot / 8) &&& ~~~ Bitmap.mask (slot % 8))).setRecordNum
        (data.recordNum - 1)) slot none := by
  have hcount := hholds.count
  have hcard : (layout.used data).card < 2 ^ 20 := card_used_le.trans_lt capacity_lt
  have hpos := Finset.card_pos.mpr ⟨slot, hmem⟩
  obtain ⟨hlays, hnum, hbitmap, hbytes⟩ := marked_spec hholds.toLaysOut (mem_used.mp hmem).1
    (data (pageHeaderSize + slot / 8) &&& ~~~ Bitmap.mask (slot % 8))
    (n := data.recordNum - 1) (by omega) (by omega)
  set marked := (data.setByte (pageHeaderSize + slot / 8)
    (data (pageHeaderSize + slot / 8) &&& ~~~ Bitmap.mask (slot % 8))).setRecordNum
      (data.recordNum - 1)
  have hbit : ∀ other, Bitmap.getBit marked.bitmap other =
      (Bitmap.getBit data.bitmap other && decide (other ≠ slot)) := by
    intro other
    rw [hbitmap]
    exact Bitmap.getBit_clearBit
  have hused : layout.used marked = (layout.used data).erase slot := by
    ext other
    rw [Finset.mem_erase, mem_used, mem_used, hbit, Bool.and_eq_true, decide_eq_true_iff]
    constructor
    · rintro ⟨hlt, hset, hne⟩
      exact ⟨hne, hlt, hset⟩
    · rintro ⟨hne, hlt, hset⟩
      exact ⟨hlt, hset, hne⟩
  apply changes_of_used
  · refine ⟨hlays, ?_⟩
    rw [hnum, hused, Finset.card_erase_of_mem hmem, hcount]
    omega
  · intro other _ hne
    rw [hused, Finset.mem_erase, and_iff_right hne]
  · apply slots_eq_none
    rw [hused]
    exact Finset.notMem_erase _ _
  · exact fun other _ _ => hbytes other

theorem Holds.put (hholds : layout.Holds data) (hmem : slot ∈ layout.used data)
    (record : Nat → UInt8) :
    layout.Changes data (data.copy (layout.dataOffset + layout.recordSize * slot)
      layout.recordRealSize record) slot (some (layout.recordAt record)) := by
  have hlow := layout.bitmap_le
  have hheader : ∀ offset, offset + 4 ≤ pageHeaderSize →
      (data.copy (layout.dataOffset + layout.recordSize * slot) layout.recordRealSize
        record).int32At offset = data.int32At offset :=
    fun offset hoffset => int32At_copy (by omega)
  have hbit : ∀ other < layout.capacity,
      Bitmap.getBit (data.copy (layout.dataOffset + layout.recordSize * slot)
        layout.recordRealSize record).bitmap other = Bitmap.getBit data.bitmap other := by
    intro other hlt
    have hbyte := bitmapByte_lt hlt
    unfold Bitmap.getBit bitmap
    rw [copy_of_notMem (Or.inl (by omega))]
  have hused : layout.used (data.copy (layout.dataOffset + layout.recordSize * slot)
      layout.recordRealSize record) = layout.used data := by
    ext other
    rw [mem_used, mem_used]
    exact and_congr_right fun hlt => by rw [hbit other hlt]
  apply changes_of_used
  · refine ⟨⟨?_, ?_, ?_, ?_⟩, ?_⟩
    · exact (hheader 16 (by decide)).trans hholds.capacity
    · exact (hheader 8 (by decide)).trans hholds.realSize
    · exact (hheader 12 (by decide)).trans hholds.size
    · exact (hheader 24 (by decide)).trans hholds.offset
    · rw [hused]
      exact (hheader 0 (by decide)).trans hholds.count
  · intro other _ _
    rw [hused]
  · rw [slots_of_mem (by rwa [hused])]
    apply congrArg
    apply List.map_congr_left
    intro i hi
    exact copy_add (List.mem_range.mp hi)
  · intro other _ hne
    apply List.map_congr_left
    intro i hi
    have hi := List.mem_range.mp hi
    apply copy_of_notMem
    rcases Nat.lt_or_gt_of_ne hne with hlt | hgt
    · have hle := @recordPlace_add_le layout _ _ hlt
      omega
    · have hle := @recordPlace_add_le layout _ _ hgt
      omega

/-! ## Slot numbers below zero -/

theorem not_rejected_bind {α β : Type} {x : Except Fault α} {f : α → Except Fault β}
    (hx : ¬ Rejected x) (hf : ∀ a, x = .ok a → ¬ Rejected (f a)) : ¬ Rejected (x >>= f) := by
  rintro ⟨rc, h⟩
  cases x with
  | error fault =>
    cases h
    exact hx ⟨rc, rfl⟩
  | ok a => exact hf a rfl ⟨rc, h⟩

theorem not_rejected_ok {α : Type} (a : α) : ¬ Rejected (.ok a : Except Fault α) := by
  rintro ⟨rc, h⟩
  cases h

theorem not_rejected_bitPlace (slotNum : Int) : ¬ Rejected (bitPlace slotNum) := by
  unfold bitPlace
  rintro ⟨rc, h⟩
  dsimp only at h
  split at h <;> cases h

theorem not_rejected_getBit (data : PageBytes) (slotNum : Int) :
    ¬ Rejected (data.getBit slotNum) :=
  not_rejected_bind (not_rejected_bitPlace slotNum) fun _ _ => not_rejected_ok _

theorem not_rejected_recordPlace (data : PageBytes) (slotNum : Int) :
    ¬ Rejected (data.recordPlace slotNum) := by
  unfold recordPlace
  rintro ⟨rc, h⟩
  dsimp only at h
  split at h <;> cases h

theorem not_rejected_setRecordData (data : PageBytes) (slotNum : Int) (record : Nat → UInt8) :
    ¬ Rejected (data.setRecordData slotNum record) :=
  not_rejected_bind (not_rejected_recordPlace data slotNum) fun _ _ => not_rejected_ok _

/-- A call that looks at the bit of a slot first and does without an error of its own what follows
is refused exactly where the bit is clear. -/
theorem rejected_iff_bitClear {α : Type} {rc : RC} {next : Except Fault α}
    (hnext : ¬ Rejected next) :
    Rejected (data.getBit slotNum >>= fun used => if used then next else .error (.rc rc)) ↔
      BitClear data slotNum := by
  have hbit := not_rejected_getBit data slotNum
  unfold BitClear
  cases hget : data.getBit slotNum with
  | error fault =>
    rw [hget] at hbit
    refine iff_of_false ?_ (by simp)
    rintro ⟨rc', h⟩
    cases h
    exact hbit ⟨rc', rfl⟩
  | ok used =>
    cases used with
    | false => exact iff_of_true ⟨rc, rfl⟩ rfl
    | true => exact iff_of_false hnext (by simp)

theorem not_live_of_neg (h : slotNum < 0) : ¬ layout.Live data slotNum :=
  fun hlive => absurd hlive.1 (by omega)

theorem not_live_of_le (h : (layout.capacity : Int) ≤ slotNum) : ¬ layout.Live data slotNum := by
  rintro ⟨hpos, hmem⟩
  have := (mem_used.mp hmem).1
  omega

theorem live_iff (h : slot < layout.capacity) :
    layout.Live data slot ↔ Bitmap.getBit data.bitmap slot = true := by
  unfold Live
  rw [Int.toNat_natCast, mem_used]
  constructor
  · exact fun hlive => hlive.2.2
  · exact fun hbit => ⟨by omega, h, hbit⟩

/-! ## One call -/

variable {call : PageCall}

/-- A page that is not full has a free slot, and the search finds one. -/
theorem exists_nextUnsettedBit (h : (layout.used data).card ≠ layout.capacity) :
    ∃ slot, Bitmap.nextUnsettedBit data.bitmap layout.capacity 0 = some slot ∧
      slot < layout.capacity ∧ slot ∉ layout.used data := by
  rw [Bitmap.nextUnsettedBit_eq]
  cases hfind : (List.range' 0 (layout.capacity - 0)).find?
      fun i => !Bitmap.getBit data.bitmap i with
  | none =>
    refine absurd ?_ h
    have hall := List.find?_eq_none.mp hfind
    have hused : layout.used data = Finset.range layout.capacity := by
      apply Finset.filter_true_of_mem
      intro slot hslot
      have hmem : slot ∈ List.range' 0 (layout.capacity - 0) :=
        List.mem_range'_1.mpr ⟨Nat.zero_le _, by simpa using hslot⟩
      simpa using hall slot hmem
    rw [hused, Finset.card_range]
  | some slot =>
    have hlt := List.mem_range'_1.mp (List.mem_of_find?_eq_some hfind)
    have hfree := List.find?_some hfind
    refine ⟨slot, rfl, by omega, fun hmem => ?_⟩
    rw [(mem_used.mp hmem).2] at hfree
    cases hfree

theorem Holds.fill (hholds : layout.Holds data) (h : slot < layout.capacity)
    (hfree : slot ∉ layout.used data) (record : Nat → UInt8) :
    ∃ marked data', data.setBit slot = .ok marked ∧
      (marked.setRecordNum (marked.recordNum + 1)).setRecordData slot record = .ok data' ∧
      layout.Changes data data' slot (some (layout.recordAt record)) := by
  have htaken := hholds.take h hfree
  have hmem : slot ∈ layout.used ((data.setByte (pageHeaderSize + slot / 8)
      (data (pageHeaderSize + slot / 8) ||| Bitmap.mask (slot % 8))).setRecordNum
        (data.recordNum + 1)) := by
    by_contra hnot
    have hslot := congrFun htaken.slots_eq slot
    rw [slots_eq_none hnot, Function.update_self] at hslot
    cases hslot
  have hcount : (data.setByte (pageHeaderSize + slot / 8)
      (data (pageHeaderSize + slot / 8) ||| Bitmap.mask (slot % 8))).recordNum =
        data.recordNum := int32At_setByte (by unfold pageHeaderSize; omega)
  refine ⟨_, _, setBit_of_lt h, ?_, htaken.trans (htaken.holds.put hmem record)⟩
  rw [hcount]
  exact setRecordData_of_lt htaken.holds.toLaysOut h

theorem Holds.insertRecord (hholds : layout.Holds data) (record : Nat → UInt8) :
    layout.MeetsSpec data (.insertRecord record) := by
  unfold MeetsSpec PageBytes.insertRecord
  split_ifs with hfull hnum hnum
  · exact ⟨_, rfl⟩
  · rw [hholds.count, hholds.capacity, hfull] at hnum
    exact absurd rfl hnum
  · rw [hholds.count, hholds.capacity] at hnum
    exact absurd (Int.ofNat_inj.mp hnum) hfull
  · obtain ⟨slot, hnext, hlt, hfree⟩ := exists_nextUnsettedBit hfull
    obtain ⟨marked, data', hset, hput, hchanges⟩ := hholds.fill hlt hfree record
    rw [hholds.capacity, Int.toNat_natCast, hnext]
    refine ⟨slot, data', ?_, hlt, slots_eq_none hfree, hchanges⟩
    simp only [hset, ok_bind, hput]
    rfl

theorem Holds.recoverInsertRecord_iff (hholds : layout.Holds data) :
    layout.MeetsSpec data (.recoverInsertRecord slotNum record) ↔ 0 ≤ slotNum := by
  unfold MeetsSpec PageBytes.recoverInsertRecord
  dsimp only
  rw [hholds.capacity]
  rcases lt_or_ge slotNum 0 with hneg | hpos
  · -- neither the bit nor the record of such a number is checked
    rw [if_neg (by omega), if_neg (by omega)]
    refine iff_of_false ?_ (by omega)
    apply not_rejected_bind (not_rejected_getBit data slotNum)
    intro used _
    cases used with
    | true => exact not_rejected_setRecordData data slotNum record
    | false =>
      apply not_rejected_bind
      · exact not_rejected_bind (not_rejected_bitPlace slotNum) fun _ _ => not_rejected_ok _
      · exact fun _ _ => not_rejected_setRecordData _ slotNum record
  · obtain ⟨slot, rfl⟩ := Int.eq_ofNat_of_zero_le hpos
    refine iff_of_true ?_ hpos
    by_cases hlt : slot < layout.capacity
    · rw [if_pos (by omega), if_neg (by omega), getBit_of_lt hlt, Int.toNat_natCast]
      cases hbit : Bitmap.getBit data.bitmap slot with
      | true =>
        refine ⟨_, ?_, hholds.put (mem_used.mpr ⟨hlt, hbit⟩) record⟩
        rw [ok_bind, if_pos rfl]
        exact setRecordData_of_lt hholds.toLaysOut hlt
      | false =>
        have hfree : slot ∉ layout.used data := fun hmem => by simp [mem_used, hbit] at hmem
        obtain ⟨marked, data', hset, hput, hchanges⟩ := hholds.fill hlt hfree record
        refine ⟨data', ?_, hchanges⟩
        rw [ok_bind, if_neg Bool.false_ne_true, hset, ok_bind]
        exact hput
    · rw [if_neg (by omega), if_pos (by omega)]
      exact ⟨_, rfl⟩

theorem Holds.updateRecord_iff (hholds : layout.Holds data) :
    layout.MeetsSpec data (.updateRecord slotNum record) ↔
      0 ≤ slotNum ∨ BitClear data slotNum := by
  unfold MeetsSpec PageBytes.updateRecord
  dsimp only
  rw [hholds.capacity]
  rcases lt_or_ge slotNum 0 with hneg | hpos
  · rw [if_neg (not_live_of_neg hneg), if_neg (by omega), or_iff_right (by omega)]
    exact rejected_iff_bitClear (not_rejected_setRecordData data slotNum record)
  · obtain ⟨slot, rfl⟩ := Int.eq_ofNat_of_zero_le hpos
    refine iff_of_true ?_ (Or.inl hpos)
    by_cases hlt : slot < layout.capacity
    · rw [if_neg (by omega : ¬ (layout.capacity : Int) ≤ slot), getBit_of_lt hlt,
        Int.toNat_natCast]
      cases hbit : Bitmap.getBit data.bitmap slot with
      | true =>
        rw [if_pos ((live_iff hlt).mpr hbit)]
        refine ⟨_, ?_, hholds.put (mem_used.mpr ⟨hlt, hbit⟩) record⟩
        rw [ok_bind, if_pos rfl]
        exact setRecordData_of_lt hholds.toLaysOut hlt
      | false =>
        rw [if_neg fun hlive => by simp [(live_iff hlt).mp hlive] at hbit]
        exact ⟨_, rfl⟩
    · rw [if_neg (not_live_of_le (by omega)), if_pos (by omega)]
      exact ⟨_, rfl⟩

theorem Holds.deleteRecord_iff (hholds : layout.Holds data) :
    layout.MeetsSpec data (.deleteRecord slotNum) ↔
      (0 ≤ slotNum ∧ slotNum < layout.capacity) ∨ BitClear data slotNum := by
  have hclear : ¬ Rejected ((data.clearBit slotNum) >>= fun data =>
      (.ok (data.setRecordNum (data.recordNum - 1)) : Except Fault PageBytes)) := by
    apply not_rejected_bind
    · exact not_rejected_bind (not_rejected_bitPlace slotNum) fun _ _ => not_rejected_ok _
    · exact fun _ _ => not_rejected_ok _
  unfold MeetsSpec PageBytes.deleteRecord
  dsimp only
  by_cases hin : 0 ≤ slotNum ∧ slotNum < layout.capacity
  · obtain ⟨hpos, hlt⟩ := hin
    obtain ⟨slot, rfl⟩ := Int.eq_ofNat_of_zero_le hpos
    have hlt : slot < layout.capacity := by omega
    refine iff_of_true ?_ (Or.inl ⟨hpos, by omega⟩)
    rw [getBit_of_lt hlt, Int.toNat_natCast]
    cases hbit : Bitmap.getBit data.bitmap slot with
    | true =>
      rw [if_pos ((live_iff hlt).mpr hbit)]
      refine ⟨_, ?_, hholds.free (mem_used.mpr ⟨hlt, hbit⟩)⟩
      rw [ok_bind, if_pos rfl, clearBit_of_lt hlt, ok_bind]
      have hcount : (data.setByte (pageHeaderSize + slot / 8) (data (pageHeaderSize + slot / 8) &&&
          ~~~ Bitmap.mask (slot % 8))).recordNum = data.recordNum :=
        int32At_setByte (by unfold pageHeaderSize; omega)
      rw [← hcount]
      rfl
    | false =>
      rw [if_neg fun hlive => by simp [(live_iff hlt).mp hlive] at hbit]
      exact ⟨_, rfl⟩
  · have hdead : ¬ layout.Live data slotNum := by
      rcases lt_or_ge slotNum 0 with hneg | hpos
      · exact not_live_of_neg hneg
      · exact not_live_of_le (by omega)
    rw [if_neg hdead, or_iff_right hin]
    exact rejected_iff_bitClear hclear

theorem Holds.getRecord_iff (hholds : layout.Holds data) :
    layout.MeetsSpec data (.getRecord slotNum) ↔ 0 ≤ slotNum ∨ BitClear data slotNum := by
  have hbytes : ¬ Rejected (data.recordPlace slotNum >>= fun address =>
      (.ok ((List.range data.recordRealSize.toNat).map fun i => data (address + i)) :
        Except Fault (List UInt8))) := by
    apply not_rejected_bind
    · exact not_rejected_recordPlace data slotNum
    · exact fun _ _ => not_rejected_ok _
  unfold MeetsSpec PageBytes.getRecord
  dsimp only
  rw [hholds.capacity]
  rcases lt_or_ge slotNum 0 with hneg | hpos
  · rw [if_neg (not_live_of_neg hneg), if_neg (by omega), or_iff_right (by omega)]
    exact rejected_iff_bitClear hbytes
  · obtain ⟨slot, rfl⟩ := Int.eq_ofNat_of_zero_le hpos
    refine iff_of_true ?_ (Or.inl hpos)
    by_cases hlt : slot < layout.capacity
    · rw [if_neg (by omega : ¬ (layout.capacity : Int) ≤ slot), getBit_of_lt hlt,
        Int.toNat_natCast]
      cases hbit : Bitmap.getBit data.bitmap slot with
      | true =>
        rw [if_pos ((live_iff hlt).mpr hbit)]
        rw [ok_bind, if_pos rfl, recordPlace_of_lt hholds.toLaysOut hlt, ok_bind,
          hholds.realSize]
        rfl
      | false =>
        rw [if_neg fun hlive => by simp [(live_iff hlt).mp hlive] at hbit]
        exact ⟨_, rfl⟩
    · rw [if_neg (not_live_of_le (by omega)), if_pos (by omega)]
      exact ⟨_, rfl⟩

theorem Holds.meetsSpec_iff (hholds : layout.Holds data) (call : PageCall) :
    layout.MeetsSpec data call ↔ layout.Harmless data call := by
  cases call with
  | insertRecord record => exact iff_of_true (hholds.insertRecord record) trivial
  | recoverInsertRecord slotNum record => exact hholds.recoverInsertRecord_iff
  | updateRecord slotNum record => exact hholds.updateRecord_iff
  | deleteRecord slotNum => exact hholds.deleteRecord_iff
  | getRecord slotNum => exact hholds.getRecord_iff

/-! ## Runs -/

theorem Holds.afterCall_of_changes {value : Option (List UInt8)} {data'' : PageBytes}
    (hchanges : layout.Changes data data' slot value)
    (h : data.afterCall (.ok data') = some data'') : layout.Holds data'' := by
  obtain rfl := Option.some.inj h
  exact hchanges.holds

theorem Holds.afterCall_of_rejected {outcome : Except Fault PageBytes} (hholds : layout.Holds data)
    (hrejected : Rejected outcome) (h : data.afterCall outcome = some data') :
    layout.Holds data' := by
  obtain ⟨rc, rfl⟩ := hrejected
  obtain rfl := Option.some.inj h
  exact hholds

/-- A call that meets the specification leaves a page whose `record_num` is right. -/
theorem Holds.step (hholds : layout.Holds data) (hmeets : layout.MeetsSpec data call)
    (hstep : data.step call = some data') : layout.Holds data' := by
  cases call with
  | insertRecord record =>
    simp only [MeetsSpec] at hmeets
    simp only [PageBytes.step] at hstep
    split_ifs at hmeets
    · obtain ⟨rc, h⟩ := hmeets
      rw [h] at hstep
      exact hholds.afterCall_of_rejected ⟨rc, rfl⟩ hstep
    · obtain ⟨slot, data'', h, -, -, hchanges⟩ := hmeets
      rw [h] at hstep
      exact Holds.afterCall_of_changes hchanges hstep
  | recoverInsertRecord | updateRecord | deleteRecord =>
    simp only [MeetsSpec] at hmeets
    simp only [PageBytes.step] at hstep
    split_ifs at hmeets
    · obtain ⟨data'', h, hchanges⟩ := hmeets
      rw [h] at hstep
      exact Holds.afterCall_of_changes hchanges hstep
    · exact hholds.afterCall_of_rejected hmeets hstep
  | getRecord slotNum =>
    simp only [MeetsSpec] at hmeets
    simp only [PageBytes.step] at hstep
    split_ifs at hmeets
    · rw [hmeets] at hstep
      obtain rfl := Option.some.inj hstep
      exact hholds
    · obtain ⟨rc, h⟩ := hmeets
      rw [h] at hstep
      exact hholds.afterCall_of_rejected ⟨rc, rfl⟩ hstep

/-- In every run on a page each call does what it is to do exactly if none of them takes a slot
number whose bit is looked for outside of the bitmap and is not found clear there. -/
theorem slotMap_iff (hholds : layout.Holds data) (calls : List PageCall) :
    (∀ t ∈ taken PageBytes.step data calls, layout.MeetsSpec t.1 t.2) ↔
      ∀ t ∈ taken PageBytes.step data calls, layout.Harmless t.1 t.2 :=
  forall_taken_iff (fun _ call hholds => hholds.meetsSpec_iff call)
    (fun _ _ _ hholds hmeets hstep => hholds.step hmeets hstep) hholds calls

/-! ## New pages -/

/-- The layout of a page that has been initialized. -/
def ofEmptyHeader {recordSize columnNum : Nat} (hpos : 0 < recordSize)
    (hfit : RecordFits recordSize columnNum) : SlotLayout where
  capacity := (emptyHeader recordSize columnNum).recordCapacity
  recordRealSize := recordSize
  recordSize := align8 recordSize
  dataOffset := (emptyHeader recordSize columnNum).dataOffset
  bitmap_le := by
    have hlaid := (emptyHeader_laidOut hpos hfit).1
    exact hlaid.bitmap.trans ((Nat.le_add_right _ _).trans hlaid.columns)
  stride := (align8_spec recordSize).1
  inside := by
    have hin := (emptyHeader_laidOut hpos hfit).2
    rwa [Nat.mul_comm] at hin

theorem holds_initPageWith {recordSize columnNum : Nat} {columnIndex : List UInt8}
    {page page' : RecordPage} (hpos : 0 < recordSize) (hfit : RecordFits recordSize columnNum)
    (h : initPageWith (emptyHeader recordSize columnNum) columnIndex page = .ok page') :
    (ofEmptyHeader hpos hfit).Holds page'.toBytes ∧
      (ofEmptyHeader hpos hfit).used page'.toBytes = ∅ := by
  obtain ⟨hlaid, hin⟩ := emptyHeader_laidOut hpos hfit
  set layout := ofEmptyHeader hpos hfit with hlayout
  set header := emptyHeader recordSize columnNum with hheader
  have hpage : bpPageDataSize = 32752 := rfl
  have hcap := layout.capacity_lt
  have hcolumns := hlaid.columns
  have hone := hlaid.inside 0 hlaid.capacity
  have hsize := (align8_spec recordSize).2.1
  have hheader' : page'.header = header := by
    unfold initPageWith at h
    split_ifs at h
    cases h
    rfl
  have hrange : ∀ value ∈ page'.header.fields, -2 ^ 31 ≤ value ∧ value < 2 ^ 31 := by
    have hcapacity : header.recordCapacity = layout.capacity := rfl
    have hreal : header.recordRealSize = recordSize := rfl
    have hstride : header.recordSize = align8 recordSize := rfl
    have hcount : header.recordNum = 0 := rfl
    intro value hvalue
    simp only [hheader', PageHeader.fields, hcount, hcapacity, hreal, hstride, List.mem_cons,
      List.not_mem_nil, or_false] at hvalue
    omega
  have hdata : ∀ i, pageHeaderSize ≤ i → i < pageHeaderSize + pageBitmapSize layout.capacity →
      page'.data i = 0 := by
    intro i hlow hhigh
    have hcolIdx := hlaid.bitmap
    unfold initPageWith at h
    split_ifs at h
    cases h
    have hlength : i - pageHeaderSize < (List.replicate (pageBitmapSize layout.capacity)
        (0 : UInt8)).length := by
      rw [List.length_replicate]
      omega
    dsimp only
    rw [copyTo, dif_neg (fun h => absurd (hhigh.trans_le hcolIdx) (Nat.not_lt.mpr h.1)), copyTo,
      dif_pos ⟨hlow, hlength⟩, List.getElem_replicate]
  have hused : layout.used page'.toBytes = ∅ := by
    apply Finset.filter_false_of_mem
    intro slot hslot
    have hlt := Finset.mem_range.mp hslot
    unfold Bitmap.getBit bitmap
    rw [RecordPage.toBytes_of_le (Nat.le_add_right _ _), hdata _ (Nat.le_add_right _ _)
      (by unfold pageBitmapSize; omega)]
    simp [Bitmap.bit]
  refine ⟨⟨⟨?_, ?_, ?_, ?_⟩, ?_⟩, hused⟩
  · exact int32At_setInts (k := 4) hrange (by rw [hheader']; rfl)
  · exact int32At_setInts (k := 2) hrange (by rw [hheader']; rfl)
  · exact int32At_setInts (k := 3) hrange (by rw [hheader']; rfl)
  · exact int32At_setInts (k := 6) hrange (by rw [hheader']; rfl)
  · rw [hused]
    exact int32At_setInts (k := 0) hrange (by rw [hheader']; rfl)

/-- An empty page for records of 20000 bytes, with one slot. -/
def oneSlot : Except Fault RecordPage :=
  initPageWith (emptyHeader 20000 0) [] ⟨emptyHeader 20000 0, fun _ => 0⟩

theorem recordFits_oneSlot : RecordFits 20000 0 := ⟨1, by decide, by decide⟩

/-- A record is inserted, read under the number of its slot and not found under another, and
deleted. -/
theorem slotMap_oneSlot : ∃ page, oneSlot = .ok page ∧ ∀ t ∈ taken PageBytes.step page.toBytes
    [.insertRecord fun _ => 7, .getRecord 0, .getRecord 9, .deleteRecord 0],
    (ofEmptyHeader (by decide) recordFits_oneSlot).MeetsSpec t.1 t.2 := by
  refine ⟨_, rfl, ?_⟩
  apply (slotMap_iff (holds_initPageWith (by decide) recordFits_oneSlot rfl).1 _).mpr
  intro t ht
  have hcall := mem_of_mem_taken ht
  obtain ⟨data, call⟩ := t
  simp only [List.mem_cons, List.not_mem_nil, or_false] at hcall
  rcases hcall with rfl | rfl | rfl | rfl
  · trivial
  · exact Or.inl (by decide)
  · exact Or.inl (by decide)
  · exact Or.inl ⟨by decide, by decide⟩

/-- Behind a bitmap of one slot at address 28 the bit of slot 32 is the first bit of the record in
slot 0. -/
theorem deletes_beyond (hempty : layout.used data = ∅) (hcap : layout.capacity = 1)
    (hoffset : layout.dataOffset = 32) (hreal : 0 < layout.recordRealSize) :
    ¬ ∀ t ∈ taken PageBytes.step data [.insertRecord fun _ => 255, .deleteRecord 32],
      layout.MeetsSpec t.1 t.2 := by
  intro hall
  obtain ⟨hinsert, hrest⟩ := List.forall_mem_cons.mp hall
  simp only [MeetsSpec, hempty, hcap, Finset.card_empty, Nat.zero_ne_one, if_false] at hinsert
  obtain ⟨slot, data', hok, hlt, -, hchanges⟩ := hinsert
  obtain rfl : slot = 0 := Nat.lt_one_iff.mp hlt
  -- the record begins where the bit is looked for
  have hbyte : data' 32 = 255 := by
    have hslot := congrFun hchanges.slots_eq 0
    rw [Function.update_self] at hslot
    have hmem : 0 ∈ layout.used data' := by
      by_contra hnot
      rw [slots_eq_none hnot] at hslot
      cases hslot
    rw [slots_of_mem hmem] at hslot
    have hfirst := congrArg (fun bytes => bytes[0]?) (Option.some.inj hslot)
    simpa [bytes, recordAt, List.getElem?_range hreal, List.getElem?_replicate, hreal,
      hoffset] using hfirst
  simp only [PageBytes.step, hok] at hrest
  have hmeets : layout.MeetsSpec data' (.deleteRecord 32) :=
    hrest (data', .deleteRecord 32) List.mem_cons_self
  have hdelete := (hchanges.holds.meetsSpec_iff _).mp hmeets
  rcases hdelete with ⟨-, hin⟩ | hclear
  · rw [hcap] at hin
    exact absurd hin (by decide)
  · have hplace : bitPlace 32 = .ok (32, 0) := by decide
    simp only [BitClear, PageBytes.getBit, hplace] at hclear
    have hbit := Except.ok.inj hclear
    rw [hbyte] at hbit
    exact absurd hbit (by decide)

theorem deleteRecord_beyond : ∃ page, oneSlot = .ok page ∧
    ¬ ∀ t ∈ taken PageBytes.step page.toBytes [.insertRecord fun _ => 255, .deleteRecord 32],
      (ofEmptyHeader (by decide) recordFits_oneSlot).MeetsSpec t.1 t.2 := by
  obtain ⟨-, hempty⟩ :=
    holds_initPageWith (by decide) recordFits_oneSlot (rfl : oneSlot = .ok _)
  exact ⟨_, rfl, deletes_beyond hempty (by decide) (by decide) (by decide)⟩

end SlotLayout

end ObHtap
