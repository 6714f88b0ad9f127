import Mathlib.Data.BitVec
import Mathlib.Data.List.Induction
import Mathlib.Logic.Function.Iterate

/-!
# Cyclic redundancy checks

A register takes in the bits of a message, the lowest bit of a byte first.  The register is linear
in the message and in what it was before.  If the polynomial has its highest bit, the bits of a
difference that is no longer than the register can't cancel out.
-/

namespace ObHtap

namespace Crc

variable {w : Nat} {poly crc crc' : BitVec w} {bit bit' : Bool} {bits bits' : List Bool}

/-- The register moves down, and the polynomial is added for a bit that falls out. -/
def shift (poly crc : BitVec w) : BitVec w :=
  if crc.getLsbD 0 then (crc >>> 1) ^^^ poly else crc >>> 1

/-- A bit in the lowest place. -/
def lowest (w : Nat) (bit : Bool) : BitVec w := (BitVec.ofBool bit).setWidth w

/-- The register takes in a bit. -/
def feed (poly crc : BitVec w) (bit : Bool) : BitVec w := shift poly (crc ^^^ lowest w bit)

def feedAll (poly crc : BitVec w) (bits : List Bool) : BitVec w := bits.foldl (feed poly) crc

/-- The bits as they stand in a register, the first in the lowest place. -/
def word (w : Nat) : List Bool → BitVec w
  | [] => 0
  | bit :: bits => lowest w bit ^^^ (word w bits <<< 1)

theorem getLsbD_shift (poly crc : BitVec w) (i : Nat) :
    (shift poly crc).getLsbD i = (crc.getLsbD (i + 1) ^^ (crc.getLsbD 0 && poly.getLsbD i)) := by
  unfold shift
  split_ifs with h
  · simp [h, Nat.add_comm]
  · simp [h, Nat.add_comm]

theorem getLsbD_lowest (w : Nat) (bit : Bool) (i : Nat) :
    (lowest w bit).getLsbD i = (decide (i < w) && decide (i = 0) && bit) := by
  unfold lowest
  rw [BitVec.getLsbD_setWidth, BitVec.getLsbD_ofBool, Bool.and_assoc]

/-! ## Linearity -/

theorem shift_xor (poly crc crc' : BitVec w) :
    shift poly (crc ^^^ crc') = shift poly crc ^^^ shift poly crc' := by
  apply BitVec.eq_of_getLsbD_eq
  intro i _
  simp only [getLsbD_shift, BitVec.getLsbD_xor]
  cases crc.getLsbD (i + 1) <;> cases crc'.getLsbD (i + 1) <;> cases crc.getLsbD 0 <;>
    cases crc'.getLsbD 0 <;> cases poly.getLsbD i <;> rfl

theorem lowest_xor (w : Nat) (bit bit' : Bool) :
    lowest w (bit ^^ bit') = lowest w bit ^^^ lowest w bit' := by
  apply BitVec.eq_of_getLsbD_eq
  intro i _
  simp only [getLsbD_lowest, BitVec.getLsbD_xor]
  cases bit <;> cases bit' <;> simp

theorem lowest_false (w : Nat) : lowest w false = 0 := by
  apply BitVec.eq_of_getLsbD_eq
  intro i _
  simp [getLsbD_lowest]

theorem feed_xor (poly crc crc' : BitVec w) (bit bit' : Bool) :
    feed poly (crc ^^^ crc') (bit ^^ bit') = feed poly crc bit ^^^ feed poly crc' bit' := by
  unfold feed
  rw [lowest_xor, ← shift_xor]
  congr 1
  ac_rfl

theorem feedAll_xor (poly crc crc' : BitVec w) (h : bits.length = bits'.length) :
    feedAll poly (crc ^^^ crc') (List.zipWith (· ^^ ·) bits bits') =
      feedAll poly crc bits ^^^ feedAll poly crc' bits' := by
  induction bits generalizing bits' crc crc' with
  | nil =>
    cases bits' with
    | nil => rfl
    | cons bit' bits' => cases h
  | cons bit bits ih =>
    cases bits' with
    | nil => cases h
    | cons bit' bits' =>
      rw [List.zipWith_cons_cons, feedAll, List.foldl_cons, feed_xor]
      exact ih _ _ (Nat.succ.inj h)

theorem feedAll_append (poly crc : BitVec w) (bits bits' : List Bool) :
    feedAll poly crc (bits ++ bits') = feedAll poly (feedAll poly crc bits) bits' :=
  List.foldl_append

theorem feedAll_zero (poly : BitVec w) (h : ∀ bit ∈ bits, bit = false) :
    feedAll poly 0 bits = 0 := by
  induction bits with
  | nil => rfl
  | cons bit bits ih =>
    rw [List.forall_mem_cons] at h
    have hfeed : feed poly 0 bit = 0 := by
      rw [feed, h.1, lowest_false]
      apply BitVec.eq_of_getLsbD_eq
      intro i _
      simp [getLsbD_shift]
    rw [feedAll, List.foldl_cons, hfeed]
    exact ih h.2

/-! ## Differences -/

section Highest

variable (hpoly : poly.getLsbD (w - 1) = true)

include hpoly

/-- The bit that falls out is seen in the highest place. -/
theorem getLsbD_zero_of_shift {k : Nat} (hk : k < w)
    (h : ∀ i, k ≤ i → (shift poly crc).getLsbD i = false) : crc.getLsbD 0 = false := by
  have hlast := h (w - 1) (by omega)
  rw [getLsbD_shift, hpoly, BitVec.getLsbD_of_ge crc (w - 1 + 1) (by omega), Bool.and_true,
    Bool.false_xor] at hlast
  exact hlast

theorem getLsbD_of_shift {k : Nat} (hk : k < w)
    (h : ∀ i, k ≤ i → (shift poly crc).getLsbD i = false) (i : Nat) (hi : k + 1 ≤ i) :
    crc.getLsbD i = false := by
  have hbit := h (i - 1) (by omega)
  rw [getLsbD_shift, getLsbD_zero_of_shift hpoly hk h, Bool.false_and, Bool.xor_false,
    show i - 1 + 1 = i by omega] at hbit
  exact hbit

theorem shift_injective (hw : 0 < w) (h : shift poly crc = shift poly crc') : crc = crc' := by
  have hzero : ∀ i, (shift poly (crc ^^^ crc')).getLsbD i = false := by
    intro i
    rw [shift_xor, h, BitVec.xor_self, BitVec.getLsbD_zero]
  have hxor : crc ^^^ crc' = 0 := by
    apply BitVec.eq_of_getLsbD_eq
    intro i _
    show (crc ^^^ crc').getLsbD i = (0#w).getLsbD i
    rw [BitVec.getLsbD_zero]
    cases i with
    | zero => exact getLsbD_zero_of_shift hpoly hw fun i _ => hzero i
    | succ i => exact getLsbD_of_shift hpoly hw (fun i _ => hzero i) _ (by omega)
  exact BitVec.xor_eq_zero_iff.mp hxor

theorem feed_injective (hw : 0 < w) (h : feed poly crc bit = feed poly crc' bit) : crc = crc' := by
  have hxor := shift_injective hpoly hw h
  rwa [BitVec.xor_left_inj] at hxor

theorem feedAll_injective (hw : 0 < w) (h : feedAll poly crc bits = feedAll poly crc' bits) :
    crc = crc' := by
  induction bits generalizing crc crc' with
  | nil => exact h
  | cons bit bits ih => exact feed_injective hpoly hw (ih h)

/-- Bits that leave the upper part of the register as it is are zeros. -/
theorem eq_false_of_feedAll {k : Nat} (hlen : bits.length + k ≤ w)
    (h : ∀ i, k ≤ i → (feedAll poly 0 bits).getLsbD i = false) : ∀ bit ∈ bits, bit = false := by
  induction bits using List.reverseRecOn generalizing k with
  | nil => simp
  | append_singleton bits bit ih =>
    rw [List.length_append, List.length_singleton] at hlen
    rw [feedAll_append] at h
    have hk : k < w := by omega
    have hzero := getLsbD_zero_of_shift hpoly hk h
    have hbits := ih (k := k + 1) (by omega) fun i hi => by
      have hbit := getLsbD_of_shift hpoly hk h i hi
      rw [BitVec.getLsbD_xor, getLsbD_lowest, decide_eq_false (show i ≠ 0 by omega),
        Bool.and_false, Bool.false_and, Bool.xor_false] at hbit
      exact hbit
    rw [feedAll_zero poly hbits, BitVec.getLsbD_xor, getLsbD_lowest] at hzero
    simp only [BitVec.ofNat_eq_ofNat, BitVec.getLsbD_zero, Bool.false_xor, decide_true,
      Bool.and_true, show 0 < w by omega, Bool.true_and] at hzero
    rw [List.forall_mem_append, List.forall_mem_singleton]
    exact ⟨hbits, hzero⟩

/-- Messages that differ in a stretch that is no longer than the register leave different
registers. -/
theorem eq_of_feedAll_eq {before after : List Bool} (hlen : bits.length = bits'.length)
    (hshort : bits.length ≤ w) (hw : 0 < w)
    (h : feedAll poly crc (before ++ bits ++ after) = feedAll poly crc (before ++ bits' ++ after)) :
    bits = bits' := by
  simp only [feedAll_append] at h
  have hsame := feedAll_injective hpoly hw h
  have hxor := feedAll_xor poly (feedAll poly crc before) (feedAll poly crc before) hlen
  rw [hsame, BitVec.xor_self, BitVec.xor_self] at hxor
  have hdiff : (List.zipWith (· ^^ ·) bits bits').length + 0 ≤ w := by
    rw [List.length_zipWith, ← hlen, Nat.min_self]
    exact hshort
  have hfalse := eq_false_of_feedAll hpoly hdiff fun i _ => by
    show (feedAll poly (0#w) _).getLsbD i = false
    rw [hxor, BitVec.getLsbD_zero]
  apply List.ext_getElem hlen
  intro i hi hi'
  have hmem := hfalse _ (List.getElem_mem (l := List.zipWith (· ^^ ·) bits bits') (n := i)
    (by rw [List.length_zipWith]; omega))
  rw [List.getElem_zipWith] at hmem
  simpa using hmem

end Highest

/-! ## Several bits at a time -/

theorem iterate_shift_xor (poly crc crc' : BitVec w) (k : Nat) :
    (shift poly)^[k] (crc ^^^ crc') = (shift poly)^[k] crc ^^^ (shift poly)^[k] crc' := by
  induction k generalizing crc crc' with
  | zero => rfl
  | succ k ih => rw [Function.iterate_succ_apply, shift_xor, ih, Function.iterate_succ_apply,
      Function.iterate_succ_apply]

/-- A register whose lowest bits are zeros moves down. -/
theorem iterate_shift_of_low {k : Nat} (h : ∀ i < k, crc.getLsbD i = false) :
    (shift poly)^[k] crc = crc >>> k := by
  induction k with
  | zero => simp
  | succ k ih =>
    rw [Function.iterate_succ_apply', ih fun i hi => h i (by omega)]
    apply BitVec.eq_of_getLsbD_eq
    intro i _
    rw [getLsbD_shift]
    simp only [BitVec.getLsbD_ushiftRight, Nat.add_zero, h k (Nat.lt_succ_self k), Bool.false_and,
      Bool.xor_false]
    congr 1
    omega

/-- A register takes its lowest bits in apart from the others. -/
theorem iterate_shift_split (poly crc : BitVec w) (k : Nat) :
    (shift poly)^[k] crc = (shift poly)^[k] (crc ^^^ (crc >>> k <<< k)) ^^^ (crc >>> k) := by
  have hlow : ∀ i < k, (crc >>> k <<< k).getLsbD i = false := by
    intro i hi
    simp [BitVec.getLsbD_shiftLeft, hi]
  have hhigh : crc >>> k <<< k >>> k = crc >>> k := by
    apply BitVec.eq_of_getLsbD_eq
    intro i _
    by_cases hki : k + i < w
    · simp [hki]
    · simp [hki, BitVec.getLsbD_of_ge crc (k + i) (by omega)]
  rw [iterate_shift_xor, iterate_shift_of_low hlow, hhigh, BitVec.xor_assoc, BitVec.xor_self,
    BitVec.xor_zero]

theorem getLsbD_word (bits : List Bool) (i : Nat) :
    (word w bits).getLsbD i = (decide (i < w) && bits[i]?.getD false) := by
  induction bits generalizing i with
  | nil =>
    show (0#w).getLsbD i = _
    simp
  | cons bit bits ih =>
    rw [word, BitVec.getLsbD_xor, getLsbD_lowest, BitVec.getLsbD_shiftLeft, ih]
    cases i with
    | zero => simp
    | succ i =>
      by_cases hi : i + 1 < w
      · simp [hi, show i < w by omega]
      · simp [hi]

/-- Bits may be taken in one after the other or at once. -/
theorem feedAll_eq_iterate (poly crc : BitVec w) (h : bits.length ≤ w) :
    feedAll poly crc bits = (shift poly)^[bits.length] (crc ^^^ word w bits) := by
  induction bits generalizing crc with
  | nil => simp [feedAll, word]
  | cons bit bits ih =>
    rw [List.length_cons] at h
    have hup : shift poly (word w bits <<< 1) = word w bits := by
      apply BitVec.eq_of_getLsbD_eq
      intro i hi
      rw [getLsbD_shift]
      simp only [BitVec.getLsbD_shiftLeft]
      by_cases hlast : i + 1 < w
      · simp [hlast]
      · have hend : bits[i]? = none := List.getElem?_eq_none (by omega)
        simp [hlast, getLsbD_word, hend]
    rw [List.length_cons, Function.iterate_succ_apply, word, ← BitVec.xor_assoc, shift_xor, hup]
    exact ih _ (by omega)

end Crc

end ObHtap
