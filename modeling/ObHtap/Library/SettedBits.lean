import Mathlib.Data.List.Nodup

/-!
# The bits that are set

A search for the next bit that is set, and the list of all of them: whoever searches again from
behind each bit that is found comes across the list.
-/

namespace ObHtap

/-- `Bitmap::next_setted_bit`: the first bit from a position on that is set. -/
def nextSettedBit (bits : Nat → Bool) (size start : Nat) : Option Nat :=
  (List.range' start (size - start)).find? bits

/-- The bits from a position on that are set. -/
def settedFrom (bits : Nat → Bool) (size start : Nat) : List Nat :=
  (List.range' start (size - start)).filter bits

variable {bits bits' : Nat → Bool} {size start i : Nat}

theorem mem_settedFrom : i ∈ settedFrom bits size start ↔ start ≤ i ∧ i < size ∧ bits i = true := by
  rw [settedFrom, List.mem_filter, List.mem_range'_1]
  constructor
  · rintro ⟨⟨hle, hlt⟩, hbit⟩
    exact ⟨hle, by omega, hbit⟩
  · rintro ⟨hle, hlt, hbit⟩
    exact ⟨⟨hle, by omega⟩, hbit⟩

theorem settedFrom_congr (h : ∀ i < size, bits i = bits' i) :
    settedFrom bits size start = settedFrom bits' size start := by
  apply List.filter_congr
  intro i hi
  apply h
  have := List.mem_range'_1.mp hi
  omega

theorem nextSettedBit_congr (h : ∀ i < size, bits i = bits' i) :
    nextSettedBit bits size start = nextSettedBit bits' size start := by
  rw [nextSettedBit, nextSettedBit, ← List.head?_filter, ← List.head?_filter]
  exact congrArg List.head? (settedFrom_congr h)

theorem nodup_settedFrom : (settedFrom bits size start).Nodup :=
  List.Nodup.filter _ List.nodup_range'

theorem nextSettedBit_eq_none (h : nextSettedBit bits size start = none) :
    settedFrom bits size start = [] := by
  apply List.filter_eq_nil_iff.mpr
  exact List.find?_eq_none.mp h

/-- By induction on the bits that are left. -/
theorem nextSettedBit_eq_some (h : nextSettedBit bits size start = some i) :
    start ≤ i ∧ i < size ∧ settedFrom bits size start = i :: settedFrom bits size (i + 1) ∧
      settedFrom bits size i = i :: settedFrom bits size (i + 1) := by
  induction hn : size - start generalizing start with
  | zero =>
    rw [nextSettedBit, hn] at h
    cases h
  | succ n ih =>
    rw [nextSettedBit, hn, List.range'_succ, List.find?_cons] at h
    have hrest : size - (start + 1) = n := by omega
    have hunfold : settedFrom bits size start =
        if bits start then start :: settedFrom bits size (start + 1)
        else settedFrom bits size (start + 1) := by
      rw [settedFrom, hn, List.range'_succ, List.filter_cons, settedFrom, hrest]
    cases hbit : bits start with
    | true =>
      rw [hbit] at h
      obtain rfl := Option.some.inj h
      rw [hbit, if_pos rfl] at hunfold
      exact ⟨Nat.le_refl _, by omega, hunfold, hunfold⟩
    | false =>
      rw [hbit] at h
      have hnext : nextSettedBit bits size (start + 1) = some i := by
        rw [nextSettedBit, hrest]
        exact h
      obtain ⟨hle, hlt, heq, hself⟩ := ih hnext hrest
      rw [hbit, if_neg Bool.false_ne_true] at hunfold
      exact ⟨by omega, hlt, hunfold.trans heq, hself⟩

end ObHtap
