import Mathlib.Algebra.Group.Nat.Defs
import Mathlib.Data.List.Basic
import Mathlib.Tactic.SplitIfs

/-!
# Ring buffers

`RingBuffer` (`ring_buffer.cpp`) keeps bytes in an array that is used in a circle.  What is in it is
a queue: `write` appends as many bytes as there is room for, `buffer` gives the first bytes as far
as they lie one behind the other, and `forward` removes bytes from the front.
-/

namespace ObHtap

structure RingBuffer where
  cells : Nat → UInt8
  capacity : Nat
  dataSize : Nat
  writePos : Nat
  size_le : dataSize ≤ capacity
  write_lt : writePos < capacity

namespace RingBuffer

/-- A new buffer. -/
def create (capacity : Nat) (h : 0 < capacity) : RingBuffer :=
  ⟨fun _ => 0, capacity, 0, 0, Nat.zero_le _, h⟩

def remain (b : RingBuffer) : Nat := b.capacity - b.dataSize

def readPos (b : RingBuffer) : Nat := (b.writePos + b.capacity - b.dataSize) % b.capacity

def clear (b : RingBuffer) : RingBuffer :=
  { b with
    dataSize := 0
    writePos := 0
    size_le := Nat.zero_le _
    write_lt := Nat.zero_lt_of_lt b.write_lt }

/-- The bytes that `RingBuffer::buffer` gives. -/
def buffer (b : RingBuffer) : List UInt8 :=
  if b.dataSize = 0 then []
  else if b.readPos < b.writePos then
    (List.range (b.writePos - b.readPos)).map fun i => b.cells (b.readPos + i)
  else (List.range (b.capacity - b.readPos)).map fun i => b.cells (b.readPos + i)

/-- `RingBuffer::forward`; a size that is out of range has no effect. -/
def forward (b : RingBuffer) (size : Nat) : RingBuffer :=
  { b with
    dataSize := if b.dataSize < size then b.dataSize else b.dataSize - size
    size_le := by
      have hle := b.size_le
      split <;> omega }

/-- The places for `write` that lie one behind the other. -/
def tmpBufSize (b : RingBuffer) : Nat :=
  if b.readPos ≤ b.writePos then b.capacity - b.writePos else b.readPos - b.writePos

/-- One `memcpy` of `RingBuffer::write`. -/
def copy (b : RingBuffer) (data : List UInt8) (h : data.length ≤ b.remain) : RingBuffer where
  cells i :=
    if b.writePos ≤ i ∧ i < b.writePos + data.length then data.getD (i - b.writePos) 0
    else b.cells i
  capacity := b.capacity
  dataSize := b.dataSize + data.length
  writePos := (b.writePos + data.length) % b.capacity
  size_le := by
    have hle := b.size_le
    unfold remain at h
    omega
  write_lt := Nat.mod_lt _ (Nat.zero_lt_of_lt b.write_lt)

variable {b : RingBuffer} {data : List UInt8} {size : Nat}

theorem readPos_eq (b : RingBuffer) : b.readPos =
    if b.dataSize ≤ b.writePos then b.writePos - b.dataSize
    else b.writePos + b.capacity - b.dataSize := by
  have hle := b.size_le
  have hlt := b.write_lt
  unfold readPos
  split
  · have heq : b.writePos + b.capacity - b.dataSize = b.writePos - b.dataSize + b.capacity := by
      omega
    rw [heq, Nat.add_mod_right]
    exact Nat.mod_eq_of_lt (by omega)
  · exact Nat.mod_eq_of_lt (by omega)

theorem tmpBufSize_le (h : 0 < b.remain) : b.tmpBufSize ≤ b.remain := by
  have hle := b.size_le
  have hlt := b.write_lt
  have hread := b.readPos_eq
  unfold remain at h
  unfold tmpBufSize remain
  split at hread <;> split <;> omega

theorem length_take_tmpBufSize_le (h : data ≠ [] ∧ 0 < b.remain) :
    (data.take b.tmpBufSize).length ≤ b.remain :=
  Nat.le_trans (List.length_take_le _ _) (tmpBufSize_le h.2)

theorem tmpBufSize_pos (b : RingBuffer) : 0 < b.tmpBufSize := by
  have hle := b.size_le
  have hlt := b.write_lt
  have hread := b.readPos_eq
  unfold tmpBufSize
  split at hread <;> split <;> omega

theorem writePos_add_tmpBufSize_le (b : RingBuffer) :
    b.writePos + b.tmpBufSize ≤ b.capacity := by
  have hle := b.size_le
  have hlt := b.write_lt
  have hread := b.readPos_eq
  unfold tmpBufSize
  split at hread <;> split <;> omega

/-- `RingBuffer::write`, in so many rounds at most, with the number of bytes written. -/
def write : Nat → RingBuffer → List UInt8 → RingBuffer × Nat
  | 0, b, _ => (b, 0)
  | rounds + 1, b, data =>
    if h : data ≠ [] ∧ 0 < b.remain then
      let (b', size) := write rounds
        (b.copy (data.take b.tmpBufSize) (length_take_tmpBufSize_le h))
        (data.drop b.tmpBufSize)
      (b', (data.take b.tmpBufSize).length + size)
    else (b, 0)

/-! ## The bytes in a buffer -/

/-- The place of the byte that is behind so many others. -/
def place (b : RingBuffer) (i : Nat) : Nat :=
  if b.readPos + i < b.capacity then b.readPos + i else b.readPos + i - b.capacity

/-- The bytes in the buffer, from the first one on. -/
def contents (b : RingBuffer) : List UInt8 :=
  (List.range b.dataSize).map fun i => b.cells (b.place i)

@[simp] theorem length_contents (b : RingBuffer) : b.contents.length = b.dataSize := by
  rw [contents, List.length_map, List.length_range]

theorem getElem?_contents {i : Nat} (h : i < b.dataSize) :
    b.contents[i]? = some (b.cells (b.place i)) := by
  rw [contents, List.getElem?_map, List.getElem?_range h]
  rfl

@[simp] theorem contents_clear (b : RingBuffer) : b.clear.contents = [] := rfl

theorem readPos_copy (h : data.length ≤ b.remain) :
    (b.copy data h).readPos = b.readPos := by
  have hle := b.size_le
  have hlt := b.write_lt
  have hold := b.readPos_eq
  have hnew := (b.copy data h).readPos_eq
  unfold remain at h
  have hpos : (b.copy data h).writePos = if b.writePos + data.length < b.capacity then
      b.writePos + data.length else b.writePos + data.length - b.capacity := by
    change (b.writePos + data.length) % b.capacity = _
    split
    · exact Nat.mod_eq_of_lt ‹_›
    · rw [Nat.mod_eq_sub_mod (by omega)]
      exact Nat.mod_eq_of_lt (by omega)
  rw [hpos] at hnew
  change _ = if b.dataSize + data.length ≤ _ then _ - (b.dataSize + data.length) else
    _ + b.capacity - (b.dataSize + data.length) at hnew
  rw [hnew, hold]
  split_ifs <;> omega

/-- What is copied without going round is behind the bytes that are there. -/
theorem contents_copy (h : data.length ≤ b.remain) (hin : b.writePos + data.length ≤ b.capacity) :
    (b.copy data h).contents = b.contents ++ data := by
  have hle := b.size_le
  have hlt := b.write_lt
  have hread := b.readPos_eq
  have hroom := h
  unfold remain at hroom
  apply List.ext_getElem?
  intro i
  have hplace : (b.copy data h).place i = b.place i := by
    unfold place
    rw [readPos_copy]
    rfl
  rcases Nat.lt_or_ge i b.dataSize with hold | hnew
  · rw [List.getElem?_append_left (by rwa [length_contents]), getElem?_contents hold,
      getElem?_contents (Nat.lt_of_lt_of_le hold (Nat.le_add_right _ _)), hplace]
    have hout : ¬ (b.writePos ≤ b.place i ∧ b.place i < b.writePos + data.length) := by
      unfold place
      split at hread <;> split <;> omega
    exact congrArg some (if_neg hout)
  · rw [List.getElem?_append_right (by rwa [length_contents]), length_contents]
    rcases Nat.lt_or_ge i (b.dataSize + data.length) with hlast | hend
    · rw [getElem?_contents (b := b.copy data h) hlast, hplace]
      have hpos : b.place i = b.writePos + (i - b.dataSize) := by
        unfold place
        split at hread <;> split <;> omega
      have hdata : i - b.dataSize < data.length := by omega
      rw [List.getElem?_eq_getElem hdata]
      apply congrArg some
      change (if _ then _ else _) = _
      rw [hpos, if_pos (by omega), Nat.add_sub_cancel_left, List.getD_eq_getElem?_getD,
        List.getElem?_eq_getElem hdata]
      rfl
    · rw [List.getElem?_eq_none (by rw [length_contents]; exact hend),
        List.getElem?_eq_none (by omega)]

/-! ## Writing and reading -/

/-- The bytes for which there is room are written, by induction on the rounds. -/
theorem write_spec {rounds : Nat} (h : data.length ≤ rounds) :
    (write rounds b data).1.contents = b.contents ++ data.take b.remain ∧
      (write rounds b data).2 = min data.length b.remain ∧
      (write rounds b data).1.capacity = b.capacity := by
  induction rounds generalizing b data with
  | zero =>
    obtain rfl : data = [] := List.eq_nil_of_length_eq_zero (Nat.le_zero.mp h)
    rw [write, List.take_nil, List.append_nil, List.length_nil, Nat.zero_min]
    exact ⟨rfl, rfl, rfl⟩
  | succ rounds ih =>
    rw [write]
    by_cases hmore : data ≠ [] ∧ 0 < b.remain
    · rw [dif_pos hmore]
      obtain ⟨hne, hroom⟩ := hmore
      have hchunk : (data.take b.tmpBufSize).length ≤ b.remain :=
        Nat.le_trans (List.length_take_le _ _) (tmpBufSize_le hroom)
      have hpos := b.tmpBufSize_pos
      have hfits := tmpBufSize_le hroom
      have hdata := List.length_pos_iff.mpr hne
      have hin : b.writePos + (data.take b.tmpBufSize).length ≤ b.capacity :=
        Nat.le_trans (Nat.add_le_add_left (List.length_take_le _ _) _)
          b.writePos_add_tmpBufSize_le
      have hremain : (b.copy (data.take b.tmpBufSize) hchunk).remain =
          b.remain - (data.take b.tmpBufSize).length := Nat.sub_sub _ _ _ ▸ rfl
      obtain ⟨hcontents, hsize, hcapacity⟩ := @ih (b.copy (data.take b.tmpBufSize) hchunk)
        (data.drop b.tmpBufSize) (by rw [List.length_drop]; omega)
      refine ⟨?_, ?_, hcapacity⟩
      · refine hcontents.trans ?_
        rw [contents_copy hchunk hin, List.append_assoc, hremain, List.length_take]
        congr 1
        rcases Nat.le_total b.tmpBufSize data.length with hlong | hshort
        · rw [Nat.min_eq_left hlong, ← List.take_add, Nat.add_sub_cancel' hfits]
        · rw [List.take_of_length_le hshort, List.drop_of_length_le hshort, List.take_nil,
            List.append_nil, List.take_of_length_le (Nat.le_trans hshort hfits)]
      · change _ + _ = _
        rw [hsize, hremain, List.length_drop, List.length_take]
        omega
    · rw [dif_neg hmore]
      -- there is nothing to write, or no room
      rcases not_and_or.mp hmore with hnil | hfull
      · rw [not_not.mp hnil, List.take_nil, List.append_nil, List.length_nil, Nat.zero_min]
        exact ⟨rfl, rfl, rfl⟩
      · rw [Nat.eq_zero_of_not_pos hfull, List.take_zero, List.append_nil, Nat.min_zero]
        exact ⟨rfl, rfl, rfl⟩

theorem contents_eq_nil (h : b.dataSize = 0) : b.contents = [] := by
  rw [contents, h]
  rfl

/-- What `buffer` gives is in front, and it gives something if there is something. -/
theorem buffer_spec (b : RingBuffer) : b.buffer = b.contents.take b.buffer.length ∧
    (0 < b.dataSize → 0 < b.buffer.length) := by
  have hle := b.size_le
  have hlt := b.write_lt
  have hread := b.readPos_eq
  unfold buffer
  split
  · next hzero => exact ⟨(List.take_zero).symm, fun hpos => absurd hzero (Nat.ne_of_gt hpos)⟩
  · have hfront (n : Nat) (hn : n ≤ b.dataSize) (hin : b.readPos + n ≤ b.capacity) :
        (List.range n).map (fun i => b.cells (b.readPos + i)) = b.contents.take n := by
      rw [contents, ← List.map_take, List.take_range, Nat.min_eq_left hn]
      apply List.map_congr_left
      intro i hi
      rw [place, if_pos (by rw [List.mem_range] at hi; omega)]
    split
    · rw [List.length_map, List.length_range]
      refine ⟨hfront _ ?_ ?_, fun _ => ?_⟩
      · split at hread <;> omega
      · omega
      · omega
    · rw [List.length_map, List.length_range]
      refine ⟨hfront _ ?_ ?_, fun _ => ?_⟩
      · split at hread <;> omega
      · split at hread <;> omega
      · split at hread <;> omega

theorem take_buffer (h : size ≤ b.buffer.length) :
    b.buffer.take size = b.contents.take size := by
  have hfront := b.buffer_spec.1
  generalize b.buffer.length = n at h hfront
  rw [hfront, List.take_take, Nat.min_eq_left h]

theorem length_buffer_le (b : RingBuffer) : b.buffer.length ≤ b.dataSize := by
  have hfront := congrArg List.length b.buffer_spec.1
  rw [List.length_take, length_contents] at hfront
  omega

theorem contents_forward (h : size ≤ b.dataSize) :
    (b.forward size).contents = b.contents.drop size := by
  have hle := b.size_le
  have hlt := b.write_lt
  have hold := b.readPos_eq
  have hnew := (b.forward size).readPos_eq
  have hsize : (b.forward size).dataSize = b.dataSize - size := if_neg (Nat.not_lt.mpr h)
  rw [hsize] at hnew
  change _ = if _ ≤ b.writePos then b.writePos - _ else b.writePos + b.capacity - _ at hnew
  apply List.ext_getElem?
  intro i
  rw [List.getElem?_drop]
  rcases Nat.lt_or_ge i (b.dataSize - size) with hin | hout
  · rw [getElem?_contents (by rwa [hsize]), getElem?_contents (by omega)]
    apply congrArg some
    change b.cells _ = _
    congr 1
    unfold place
    change (if _ < b.capacity then _ else _ - b.capacity) = _
    split at hold <;> split at hnew <;> split <;> split <;> omega
  · rw [List.getElem?_eq_none (by rw [length_contents, hsize]; exact hout),
      List.getElem?_eq_none (by rw [length_contents]; omega)]

end RingBuffer

end ObHtap
