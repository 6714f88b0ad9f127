import ObHtap.Buffer.DoubleWriteReads
import ObHtap.Library.Crc

/-!
# The checksum of a page

`crc32` takes in a byte at a time, from a table.  It is the check of the reflected polynomial
`0xEDB88320`, so a copy in the double write buffer that was damaged in one place is not loaded.
-/

namespace ObHtap

/-- The polynomial of `crc_table`. -/
def crcPolynomial : BitVec 32 := 0xEDB88320

/-- The bits of a byte, the lowest first. -/
def byteBits (byte : UInt8) : List Bool := (List.range 8).map byte.toBitVec.getLsbD

/-- The bits of a buffer. -/
def bufferBits (buffer : List UInt8) : List Bool := buffer.flatMap byteBits

@[simp] theorem length_byteBits (byte : UInt8) : (byteBits byte).length = 8 := rfl

theorem word_byteBits (byte : UInt8) :
    Crc.word 32 (byteBits byte) = byte.toUInt32.toBitVec := by
  apply BitVec.eq_of_getLsbD_eq
  intro i hi
  rw [Crc.getLsbD_word, byteBits, List.getElem?_map]
  by_cases hbyte : i < 8
  · simp [hi, hbyte]
  · simp [hi, hbyte, BitVec.getLsbD_of_ge byte.toBitVec i (by omega)]

theorem shift_toBitVec (crc : UInt32) :
    (if crc &&& 1 = 1 then (crc >>> 1) ^^^ 0xEDB88320 else crc >>> 1).toBitVec =
      Crc.shift crcPolynomial crc.toBitVec := by
  have hbit : crc &&& 1 = 1 ↔ crc.toBitVec.getLsbD 0 = true := by
    rw [← UInt32.toBitVec_inj, UInt32.toBitVec_and]
    show crc.toBitVec &&& 1#32 = 1#32 ↔ _
    rw [BitVec.and_one_eq_setWidth_ofBool_getLsbD]
    cases crc.toBitVec.getLsbD 0 <;> decide
  unfold Crc.shift
  by_cases h : crc &&& 1 = 1
  · rw [if_pos h, if_pos (hbit.mp h)]
    rfl
  · rw [if_neg h, if_neg fun hc => h (hbit.mpr hc)]
    rfl

theorem crcTable_toBitVec (i : UInt32) :
    (crcTable i).toBitVec = (Crc.shift crcPolynomial)^[8] i.toBitVec := by
  unfold crcTable
  generalize 8 = n
  induction n with
  | zero => rfl
  | succ n ih =>
    rw [Nat.repeat, shift_toBitVec, ih, Function.iterate_succ_apply']

/-- The lowest byte of the register. -/
theorem and_toBitVec (crc : UInt32) :
    (crc &&& 0xff).toBitVec = crc.toBitVec ^^^ (crc.toBitVec >>> 8 <<< 8) := by
  have hmask : ∀ i, (0xff : BitVec 32).getLsbD i = decide (i < 8) := by
    intro i
    show (BitVec.ofNat 32 (2 ^ 8 - 1)).getLsbD i = _
    rw [BitVec.getLsbD_ofNat, Nat.testBit_two_pow_sub_one]
    by_cases hi : i < 8
    · simp [hi, show i < 32 by omega]
    · simp [hi]
  apply BitVec.eq_of_getLsbD_eq
  intro i hi
  rw [UInt32.toBitVec_and, BitVec.getLsbD_and]
  show (crc.toBitVec.getLsbD i && (0xff : BitVec 32).getLsbD i) = _
  rw [hmask]
  by_cases hlow : i < 8
  · simp [hlow]
  · simp [hlow, hi, show 8 + (i - 8) = i by omega]

/-- An entry of the table stands for the bits of a byte. -/
theorem crcTable_step (crc : UInt32) (byte : UInt8) :
    (crcTable ((crc ^^^ byte.toUInt32) &&& 0xff) ^^^ (crc >>> 8)).toBitVec =
      Crc.feedAll crcPolynomial crc.toBitVec (byteBits byte) := by
  -- the byte is not seen in the upper part of the register
  have hhigh : (crc ^^^ byte.toUInt32).toBitVec >>> 8 = (crc >>> 8).toBitVec := by
    apply BitVec.eq_of_getLsbD_eq
    intro i _
    have hbyte : byte.toUInt32.toBitVec.getLsbD (8 + i) = false := by
      rw [← word_byteBits, Crc.getLsbD_word, List.getElem?_eq_none (by simp)]
      simp
    rw [UInt32.toBitVec_xor, BitVec.getLsbD_ushiftRight, BitVec.getLsbD_xor, hbyte, Bool.xor_false]
    exact (BitVec.getLsbD_ushiftRight crc.toBitVec 8 i).symm
  rw [Crc.feedAll_eq_iterate _ _ (by simp), length_byteBits, word_byteBits, ← UInt32.toBitVec_xor,
    Crc.iterate_shift_split, ← and_toBitVec, ← crcTable_toBitVec, hhigh, UInt32.toBitVec_xor]

/-- **The table gives the check**: `crc32` is the register after all bits of the buffer. -/
theorem crc32_toBitVec (buffer : List UInt8) :
    (crc32 buffer).toBitVec =
      Crc.feedAll crcPolynomial (BitVec.allOnes 32) (bufferBits buffer) := by
  unfold crc32
  have hfold : ∀ crc : UInt32, (buffer.foldl (fun crc byte =>
      crcTable ((crc ^^^ byte.toUInt32) &&& 0xff) ^^^ (crc >>> 8)) crc).toBitVec =
        Crc.feedAll crcPolynomial crc.toBitVec (bufferBits buffer) := by
    induction buffer with
    | nil => exact fun _ => rfl
    | cons byte buffer ih =>
      intro crc
      rw [List.foldl_cons, ih, crcTable_step, ← Crc.feedAll_append]
      rfl
  exact hfold 0xffffffff

/-! ## Damage -/

/-- The buffers differ, and only within `n` bits that follow one another. -/
def Burst (n : Nat) (buffer damaged : List UInt8) : Prop :=
  ∃ before bits bits' after, bufferBits buffer = before ++ bits ++ after ∧
    bufferBits damaged = before ++ bits' ++ after ∧ bits.length = bits'.length ∧
      bits.length ≤ n ∧ bits ≠ bits'

/-- Buffers that differ within 32 bits have different checksums. -/
theorem crc32_ne_of_burst {buffer damaged : List UInt8} (h : Burst 32 buffer damaged) :
    crc32 buffer ≠ crc32 damaged := by
  obtain ⟨before, bits, bits', after, hbuffer, hdamaged, hlen, hshort, hne⟩ := h
  intro heq
  have hbits : Crc.feedAll crcPolynomial (BitVec.allOnes 32) (before ++ bits ++ after) =
      Crc.feedAll crcPolynomial (BitVec.allOnes 32) (before ++ bits' ++ after) := by
    rw [← hbuffer, ← hdamaged, ← crc32_toBitVec, ← crc32_toBitVec, heq]
  exact hne (Crc.eq_of_feedAll_eq (by decide) hlen hshort (by decide) hbits)

/-- What is loaded has the right checksum. -/
theorem loadSlots_checked {disk : Disk} {is : List Nat} {pages pages' : List DoubleWritePage}
    (h : DoubleWriteBuffer.loadSlots disk is pages = .ok pages')
    (hpages : ∀ p ∈ pages, p.page.Checked) : ∀ p ∈ pages', p.page.Checked := by
  induction is generalizing pages with
  | nil =>
    obtain rfl := Except.ok.inj h
    exact hpages
  | cons i is ih =>
    rw [DoubleWriteBuffer.loadSlots] at h
    cases hslot : disk.slots i with
    | none =>
      rw [hslot] at h
      cases h
    | some page =>
      rw [hslot] at h
      simp only at h
      split_ifs at h with hinsert
      · apply ih h
        simp only [List.forall_mem_append, List.forall_mem_singleton]
        exact ⟨hpages, hinsert.1⟩
      · exact ih h hpages

/-- **A damaged copy is not loaded**: where the data of an image in a slot differ from what was
written within 32 bits that follow one another, `load_pages` leaves the copy out. -/
theorem damaged_not_loaded {maxPages : Int} {disk : Disk} {buffer : DoubleWriteBuffer}
    (hload : DoubleWriteBuffer.loadPages maxPages disk = .ok buffer) {page : Page}
    {copy : DoubleWritePage} (hchecked : page.Checked) (hsum : copy.page.checkSum = page.checkSum)
    (hburst : Burst 32 page.data.toList copy.page.data.toList) : copy ∉ buffer.pages := by
  intro hmem
  have hcopy : copy.page.Checked := by
    unfold DoubleWriteBuffer.loadPages at hload
    cases hslots : DoubleWriteBuffer.loadSlots disk (List.range disk.pageCnt) [] with
    | error rc =>
      rw [hslots] at hload
      cases hload
    | ok pages =>
      rw [hslots] at hload
      obtain rfl := Except.ok.inj hload
      exact loadSlots_checked hslots (by simp) copy hmem
  apply crc32_ne_of_burst hburst
  rw [show crc32 page.data.toList = page.checkSum from hchecked, ← hsum]
  exact hcopy.symm

/-- An image of zeros, but for its first bit. -/
def flippedImage : Page := { zeroImage 1 with data := Page.zero.data.set 0 1 }

/-- The first byte of a buffer of zeros. -/
theorem toList_zero {n : Nat} (h : 0 < n) :
    (Vector.replicate n (0 : UInt8)).toList = 0 :: List.replicate (n - 1) 0 := by
  cases n with
  | zero => cases h
  | succ n => rw [Vector.toList_replicate, List.replicate_succ, Nat.add_sub_cancel]

theorem toList_flippedImage : flippedImage.data.toList = (zeroImage 1).data.toList.set 0 1 := by
  have hpos : 0 < bpPageDataSize := by decide
  unfold flippedImage zeroImage
  exact Vector.toList_set hpos

/-- Buffers that differ in the lowest bit of the first byte. -/
theorem burst_lowest (rest : List UInt8) : Burst 32 (0 :: rest) (1 :: rest) := by
  refine ⟨[], [false], [true], (byteBits 0).tail ++ bufferBits rest, ?_, ?_, rfl, by decide,
    by decide⟩
  · rfl
  · rfl

theorem burst_flippedImage : Burst 32 (zeroImage 1).data.toList flippedImage.data.toList := by
  have hzero : (zeroImage 1).data.toList = 0 :: List.replicate (bpPageDataSize - 1) 0 :=
    toList_zero (by decide)
  rw [toList_flippedImage, hzero, List.set_cons_zero]
  exact burst_lowest _

theorem flippedImage_not_loaded :
    ∃ buffer, DoubleWriteBuffer.loadPages 16
        ⟨fun _ => [], fun _ => some ⟨⟨1, 1⟩, 0, true, flippedImage⟩, 1⟩ = .ok buffer ∧
      (⟨⟨1, 1⟩, 0, true, flippedImage⟩ : DoubleWritePage) ∉ buffer.pages := by
  have hpresent : ∀ i < 1, ((fun _ => some ⟨⟨1, 1⟩, 0, true, flippedImage⟩ :
      Nat → Option DoubleWritePage) i).isSome := fun _ _ => rfl
  obtain ⟨pages, hload, -⟩ := @loadPages_loaded
    ⟨fun _ => [], fun _ => some ⟨⟨1, 1⟩, 0, true, flippedImage⟩, 1⟩ 16 hpresent
  exact ⟨_, hload, damaged_not_loaded hload (checked_zeroImage 1) rfl burst_flippedImage⟩

end ObHtap
