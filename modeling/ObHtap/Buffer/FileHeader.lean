import Mathlib.Algebra.Group.Nat.Defs
import Mathlib.Data.List.Basic
import Mathlib.Data.Nat.Basic

/-!
# The header of a buffer pool file

The first page of a file counts its pages and keeps a bitmap of the allocated ones.  The
functions here are the changes that allocating and disposing of a page make to the header.
-/

namespace ObHtap

/-- Log sequence numbers.  They start at 1; 0 stands for no log entry. -/
abbrev LSN := Nat

/-- `BP_PAGE_DATA_SIZE`: a page without its page number, LSN and checksum. -/
def bpPageDataSize : Nat := 2 ^ 15 - 4 - 8 - 4

/-- `BPFileHeader`.  The bits from `MAX_PAGE_NUM` on belong to no page. -/
structure BPFileHeader where
  pageCount : Nat
  allocatedPages : Int
  bitmap : Nat → Bool

namespace BPFileHeader

/-- `MAX_PAGE_NUM`. -/
def maxPageNum : Nat := (bpPageDataSize - 4 - 4) * 8

/-- `Bitmap::set_bit`. -/
def setBit (hdr : BPFileHeader) (index : Nat) : Nat → Bool :=
  fun i => if i = index then true else hdr.bitmap i

/-- `Bitmap::clear_bit`. -/
def clearBit (hdr : BPFileHeader) (index : Nat) : Nat → Bool :=
  fun i => if i = index then false else hdr.bitmap i

/-- The page that `allocate_page` uses again: the first one with a clear bit, looked for only
when the counters say that there is one. -/
def freePage (hdr : BPFileHeader) : Option Nat :=
  if hdr.allocatedPages < hdr.pageCount then
    (List.range hdr.pageCount).find? fun i => !hdr.bitmap i
  else none

/-- The header after `allocate_page` has used page `i` again. -/
def reuse (hdr : BPFileHeader) (i : Nat) : BPFileHeader :=
  { hdr with allocatedPages := hdr.allocatedPages + 1, bitmap := hdr.setBit i }

/-- The header after `allocate_page` has appended a page. -/
def extend (hdr : BPFileHeader) : BPFileHeader :=
  { pageCount := hdr.pageCount + 1
    allocatedPages := hdr.allocatedPages + 1
    bitmap := hdr.setBit hdr.pageCount }

/-- The header after `dispose_page`.  The bit is cleared without a look at it. -/
def dispose (hdr : BPFileHeader) (pageNum : Nat) : BPFileHeader :=
  { hdr with allocatedPages := hdr.allocatedPages - 1, bitmap := hdr.clearBit pageNum }

/-- The page number that `allocate_page` hands out, with the header after it. -/
def allocate (hdr : BPFileHeader) : Nat × BPFileHeader :=
  match hdr.freePage with
  | some i => (i, hdr.reuse i)
  | none => (hdr.pageCount, hdr.extend)

/-- The page is part of the file and its bit is set. -/
def Allocated (hdr : BPFileHeader) (pageNum : Nat) : Prop :=
  pageNum < hdr.pageCount ∧ hdr.bitmap pageNum = true

instance (hdr : BPFileHeader) (pageNum : Nat) : Decidable (hdr.Allocated pageNum) :=
  inferInstanceAs (Decidable (_ ∧ _))

theorem freePage_eq_some {hdr : BPFileHeader} {i : Nat} (h : hdr.freePage = some i) :
    i < hdr.pageCount ∧ hdr.bitmap i = false := by
  unfold freePage at h
  split_ifs at h
  have hmem := List.mem_of_find?_eq_some h
  have hbit := List.find?_some h
  exact ⟨by simpa using hmem, by simpa using hbit⟩

theorem not_allocated_allocate (hdr : BPFileHeader) : ¬ hdr.Allocated hdr.allocate.1 := by
  unfold allocate
  cases hfree : hdr.freePage with
  | none => simp [Allocated]
  | some i => simp [Allocated, (freePage_eq_some hfree).2]

theorem allocated_allocate {hdr : BPFileHeader} {pageNum : Nat} :
    hdr.allocate.2.Allocated pageNum ↔ hdr.Allocated pageNum ∨ pageNum = hdr.allocate.1 := by
  unfold allocate
  cases hfree : hdr.freePage with
  | none =>
    simp only [Allocated, extend, setBit]
    split_ifs <;> grind
  | some i =>
    have := (freePage_eq_some hfree).1
    simp only [Allocated, reuse, setBit]
    split_ifs <;> grind

theorem allocated_reuse {hdr : BPFileHeader} {i pageNum : Nat} (h : hdr.freePage = some i) :
    (hdr.reuse i).Allocated pageNum ↔ hdr.Allocated pageNum ∨ pageNum = i := by
  have hallocate := @allocated_allocate hdr pageNum
  unfold allocate at hallocate
  rwa [h] at hallocate

theorem allocated_extend {hdr : BPFileHeader} {pageNum : Nat} (h : hdr.freePage = none) :
    hdr.extend.Allocated pageNum ↔ hdr.Allocated pageNum ∨ pageNum = hdr.pageCount := by
  have hallocate := @allocated_allocate hdr pageNum
  unfold allocate at hallocate
  rwa [h] at hallocate

theorem allocated_dispose {hdr : BPFileHeader} {pageNum disposed : Nat} :
    (hdr.dispose disposed).Allocated pageNum ↔ hdr.Allocated pageNum ∧ pageNum ≠ disposed := by
  simp only [Allocated, dispose, clearBit]
  split_ifs <;> grind

theorem pageCount_le_allocate (hdr : BPFileHeader) :
    hdr.pageCount ≤ hdr.allocate.2.pageCount := by
  unfold allocate
  cases hdr.freePage with
  | none => exact Nat.le_succ _
  | some i => exact Nat.le_refl _

end BPFileHeader

end ObHtap
