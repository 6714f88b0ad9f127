import ObHtap.Library.SettedBits
import Mathlib.Data.List.Find
import Mathlib.Data.List.Range
import Mathlib.Logic.Function.Basic

/-!
# Bitmaps

A bitmap is searched byte by byte: bytes that have no bit of the kind looked for are skipped, the
first byte is read from the middle on, and what is found behind the last bit does not count.
-/

namespace ObHtap.Bitmap

/-- `1 << i`, for a bit of a byte. -/
def mask (i : Nat) : UInt8 := 1 <<< i.toUInt8

/-- The test of a bit of a byte. -/
def bit (byte : UInt8) (i : Nat) : Bool := byte &&& mask i ≠ 0

/-- `Bitmap::get_bit`. -/
def getBit (bitmap : Nat → UInt8) (index : Nat) : Bool := bit (bitmap (index / 8)) (index % 8)

/-- `Bitmap::set_bit`. -/
def setBit (bitmap : Nat → UInt8) (index : Nat) : Nat → UInt8 :=
  Function.update bitmap (index / 8) (bitmap (index / 8) ||| mask (index % 8))

/-- `Bitmap::clear_bit`. -/
def clearBit (bitmap : Nat → UInt8) (index : Nat) : Nat → UInt8 :=
  Function.update bitmap (index / 8) (bitmap (index / 8) &&& ~~~ mask (index % 8))

/-! ## The searches -/

/-- The first bit of a byte with a value. -/
def findFirst (value : Bool) (byte : UInt8) (start : Nat) : Option Nat :=
  (List.range' start (8 - start)).find? fun i => bit byte i == value

/-- `find_first_zero`. -/
def findFirstZero (byte : UInt8) (start : Nat) : Option Nat := findFirst false byte start

/-- `find_first_setted`. -/
def findFirstSetted (byte : UInt8) (start : Nat) : Option Nat := findFirst true byte start

/-- `bytes`. -/
def bytes (size : Nat) : Nat := if size % 8 = 0 then size / 8 else size / 8 + 1

/-- The loop of both searches over the bytes that are left; a byte equal to `skip` is not looked
at. -/
def nextFrom (find : UInt8 → Nat → Option Nat) (skip : UInt8) (bitmap : Nat → UInt8) :
    Nat → Nat → Nat → Option Nat
  | 0, _, _ => none
  | left + 1, iter, startInByte =>
    match if bitmap iter ≠ skip then find (bitmap iter) startInByte else none with
    | some indexInByte => some (iter * 8 + indexInByte)
    | none => nextFrom find skip bitmap left (iter + 1) 0

/-- A search from a position on, in the bytes of the bitmap. -/
def next (find : UInt8 → Nat → Option Nat) (skip : UInt8) (bitmap : Nat → UInt8)
    (size start : Nat) : Option Nat :=
  (nextFrom find skip bitmap (bytes size - start / 8) (start / 8) (start % 8)).filter (· < size)

/-- `Bitmap::next_unsetted_bit`. -/
def nextUnsettedBit (bitmap : Nat → UInt8) (size start : Nat) : Option Nat :=
  next findFirstZero 255 bitmap size start

/-- `Bitmap::next_setted_bit`. -/
def nextSettedBit (bitmap : Nat → UInt8) (size start : Nat) : Option Nat :=
  next findFirstSetted 0 bitmap size start

/-! ## Bits -/

theorem toBitVec_mask {i : Nat} (h : i < 8) : (mask i).toBitVec = BitVec.twoPow 8 i := by
  have hall : ∀ i < 8, (1 <<< i.toUInt8 : UInt8).toBitVec = BitVec.twoPow 8 i := by decide
  exact hall i h

theorem bit_eq (byte : UInt8) {i : Nat} (h : i < 8) : bit byte i = byte.toBitVec.getLsbD i := by
  rw [bit, Bool.eq_iff_iff, decide_eq_true_iff, ne_eq, ← UInt8.toBitVec_inj,
    UInt8.toBitVec_and, toBitVec_mask h, BitVec.and_twoPow]
  cases byte.toBitVec.getLsbD i with
  | false => simp
  | true =>
    simp only [if_true, iff_true]
    intro hzero
    have hbit := congrArg (fun x => BitVec.getLsbD x i) hzero
    simp [h] at hbit

theorem bit_or_mask (byte : UInt8) {i j : Nat} (hi : i < 8) (hj : j < 8) :
    bit (byte ||| mask i) j = (bit byte j || decide (j = i)) := by
  rw [bit_eq _ hj, bit_eq _ hj, UInt8.toBitVec_or, toBitVec_mask hi, BitVec.getLsbD_or,
    BitVec.getLsbD_twoPow]
  simp [hi, eq_comm]

theorem bit_and_not_mask (byte : UInt8) {i j : Nat} (hi : i < 8) (hj : j < 8) :
    bit (byte &&& ~~~ mask i) j = (bit byte j && decide (j ≠ i)) := by
  rw [bit_eq _ hj, bit_eq _ hj, UInt8.toBitVec_and, UInt8.toBitVec_not, toBitVec_mask hi,
    BitVec.getLsbD_and, BitVec.getLsbD_not, BitVec.getLsbD_twoPow]
  simp [hi, hj, eq_comm]

variable {bitmap : Nat → UInt8} {i j : Nat}

/-- Two positions in one byte are told apart by their place in it. -/
theorem mod_eq_iff (h : j / 8 = i / 8) : j % 8 = i % 8 ↔ j = i := by
  omega

theorem getBit_setBit : getBit (setBit bitmap i) j = (getBit bitmap j || decide (j = i)) := by
  have hi : i % 8 < 8 := Nat.mod_lt _ (by decide)
  have hj : j % 8 < 8 := Nat.mod_lt _ (by decide)
  unfold getBit setBit
  by_cases hbyte : j / 8 = i / 8
  · rw [hbyte, Function.update_self, bit_or_mask _ hi hj]
    simp only [mod_eq_iff hbyte]
  · have hne : j ≠ i := fun h => hbyte (by rw [h])
    rw [Function.update_of_ne hbyte, decide_eq_false hne, Bool.or_false]

theorem getBit_clearBit : getBit (clearBit bitmap i) j = (getBit bitmap j && decide (j ≠ i)) := by
  have hi : i % 8 < 8 := Nat.mod_lt _ (by decide)
  have hj : j % 8 < 8 := Nat.mod_lt _ (by decide)
  unfold getBit clearBit
  by_cases hbyte : j / 8 = i / 8
  · rw [hbyte, Function.update_self, bit_and_not_mask _ hi hj]
    simp only [ne_eq, mod_eq_iff hbyte]
  · have hne : j ≠ i := fun h => hbyte (by rw [h])
    rw [Function.update_of_ne hbyte, decide_eq_true hne, Bool.and_true]

/-! ## The searches find the next bit -/

/-- A byte that is skipped has no bit with the value. -/
theorem findFirst_skip (value : Bool) (start : Nat) :
    findFirst value (if value then 0 else 255) start = none := by
  apply List.find?_eq_none.mpr
  intro i hi
  have hlt : i < 8 := by
    have := List.mem_range'_1.mp hi
    omega
  have hall : ∀ value : Bool, ∀ i < 8,
      (bit (if value then 0 else 255) i == value) = false := by decide
  rw [hall value i hlt]
  exact Bool.false_ne_true

/-- By induction on the bytes that are left. -/
theorem nextFrom_eq (value : Bool) (bitmap : Nat → UInt8) (left iter startInByte : Nat)
    (hstart : startInByte < 8) :
    nextFrom (findFirst value) (if value then 0 else 255) bitmap left iter startInByte =
      (List.range' (iter * 8 + startInByte) (left * 8 - startInByte)).find?
        fun i => getBit bitmap i == value := by
  induction left generalizing iter startInByte with
  | zero => simp [nextFrom]
  | succ left ih =>
    -- the rest of the byte, and the bytes behind it
    have hsplit : List.range' (iter * 8 + startInByte) ((left + 1) * 8 - startInByte) =
        (List.range' startInByte (8 - startInByte)).map (iter * 8 + ·) ++
          List.range' ((iter + 1) * 8 + 0) (left * 8 - 0) := by
      have hnext : (iter + 1) * 8 + 0 =
          iter * 8 + startInByte + 1 * (8 - startInByte) := by omega
      rw [List.map_add_range', hnext, List.range'_append]
      congr 1
      omega
    have hbyte : (if bitmap iter ≠ (if value then 0 else 255) then
        findFirst value (bitmap iter) startInByte else none) =
          findFirst value (bitmap iter) startInByte := by
      by_cases hskip : bitmap iter = if value then 0 else 255
      · rw [if_neg (not_not.mpr hskip), hskip, findFirst_skip]
      · rw [if_pos hskip]
    have hfind : ((List.range' startInByte (8 - startInByte)).map (iter * 8 + ·)).find?
        (fun i => getBit bitmap i == value) =
          (findFirst value (bitmap iter) startInByte).map (iter * 8 + ·) := by
      rw [List.find?_map, findFirst]
      apply congrArg
      apply List.find?_congr
      intro i hi
      have hlt : i < 8 := by
        have := List.mem_range'_1.mp hi
        omega
      have hdiv : (iter * 8 + i) / 8 = iter := by omega
      have hmod : (iter * 8 + i) % 8 = i := by omega
      simp only [Function.comp_apply, getBit, hdiv, hmod]
    rw [nextFrom, hbyte, hsplit, List.find?_append, hfind, ih (iter + 1) 0 (by decide)]
    cases findFirst value (bitmap iter) startInByte <;> rfl

theorem le_bytes (size : Nat) : size ≤ bytes size * 8 := by
  unfold bytes
  split_ifs <;> omega

theorem next_eq (value : Bool) (bitmap : Nat → UInt8) (size start : Nat) :
    next (findFirst value) (if value then 0 else 255) bitmap size start =
      (List.range' start (size - start)).find? fun i => getBit bitmap i == value := by
  have hmod : start % 8 < 8 := Nat.mod_lt _ (by decide)
  have hstart : start / 8 * 8 + start % 8 = start := by omega
  have hle := le_bytes size
  -- the bits up to the end of the last byte, cut off at the size
  have hleft : List.range' start ((bytes size - start / 8) * 8 - start % 8) =
      List.range' start (size - start) ++ List.range' (start + 1 * (size - start))
        ((bytes size - start / 8) * 8 - start % 8 - (size - start)) := by
    rw [List.range'_append]
    congr 1
    omega
  rw [next, nextFrom_eq value bitmap _ _ _ hmod, hstart, hleft, List.find?_append]
  cases hfind : (List.range' start (size - start)).find? fun i => getBit bitmap i == value with
  | some i =>
    have hi := List.mem_range'_1.mp (List.mem_of_find?_eq_some hfind)
    have hlt : i < size := by omega
    simp [hlt]
  | none =>
    rw [Option.none_or, Option.filter_eq_none_iff]
    intro i hi
    have := List.mem_range'_1.mp (List.mem_of_find?_eq_some hi)
    simp only [decide_eq_true_eq, not_lt]
    omega

theorem nextSettedBit_eq (bitmap : Nat → UInt8) (size start : Nat) :
    nextSettedBit bitmap size start = ObHtap.nextSettedBit (getBit bitmap) size start := by
  refine (next_eq true bitmap size start).trans ?_
  simp [ObHtap.nextSettedBit]

theorem nextUnsettedBit_eq (bitmap : Nat → UInt8) (size start : Nat) :
    nextUnsettedBit bitmap size start =
      (List.range' start (size - start)).find? fun i => !getBit bitmap i := by
  refine (next_eq false bitmap size start).trans ?_
  simp

end ObHtap.Bitmap
