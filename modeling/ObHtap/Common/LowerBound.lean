import Mathlib.Algebra.Group.Nat.Defs
import Mathlib.Data.List.Basic
import ObHtap.Library.ThreeWay

/-!
# `lower_bound`

The binary search of `deps/common/lang/lower_bound.h`.  First the range is given by its number of
elements and `comp i` is the comparator applied to element `i` and the value sought; then it is a
list of elements, whose iterators are the positions in it.
-/

namespace ObHtap

/-- The loop of `lower_bound`: `lastCount` elements from position `first` on are still to be
searched.  Every round drops at least one of them, so `fuel` rounds suffice for `fuel`
elements. -/
def lowerBoundLoop (comp : Nat → Int) : Nat → Nat → Nat → Nat × Bool
  | 0, first, _ => (first, false)
  | fuel + 1, first, lastCount =>
    if lastCount = 0 then (first, false)
    else
      let step := lastCount / 2
      let result := comp (first + step)
      if result = 0 then (first + step, true)
      else if result < 0 then lowerBoundLoop comp fuel (first + step + 1) (lastCount - (step + 1))
      else lowerBoundLoop comp fuel first step

/-- `lower_bound`: the position found and the `_found` flag. -/
def lowerBound (comp : Nat → Int) (count : Nat) : Nat × Bool :=
  lowerBoundLoop comp count 0 count

/-- The range is strictly increasing as the comparator sees it: what is not above the value
has only smaller elements before it. -/
def Increasing (comp : Nat → Int) (count : Nat) : Prop :=
  ∀ i j, i < j → j < count → comp j ≤ 0 → comp i < 0

/-- What a position and a flag must satisfy to answer the search. -/
structure IsLowerBound (comp : Nat → Int) (count pos : Nat) (found : Bool) : Prop where
  le_count : pos ≤ count
  below : ∀ i < pos, comp i < 0
  above : ∀ i, pos < i → i < count → 0 < comp i
  at_nonneg : pos < count → 0 ≤ comp pos
  found_iff : found = true ↔ pos < count ∧ comp pos = 0

/-- Once everything before `first` is below the value and the rest above it, the search is
over. -/
theorem isLowerBound_of_split {comp : Nat → Int} {count first : Nat} (hle : first ≤ count)
    (hbelow : ∀ i < first, comp i < 0) (habove : ∀ i, first ≤ i → i < count → 0 < comp i) :
    IsLowerBound comp count first false where
  le_count := hle
  below := hbelow
  above i hi := habove i (by omega)
  at_nonneg hlt := by have := habove first (by omega) hlt; omega
  found_iff := by
    simp only [Bool.false_eq_true, false_iff, not_and]
    intro hlt
    have := habove first (by omega) hlt
    omega

theorem isLowerBound_of_hit {comp : Nat → Int} {count pos : Nat} (hinc : Increasing comp count)
    (hlt : pos < count) (hz : comp pos = 0) : IsLowerBound comp count pos true where
  le_count := by omega
  below i hi := hinc i pos hi hlt (by omega)
  above i hi hic := by
    by_contra hle
    have := hinc pos i hi hic (by omega)
    omega
  at_nonneg _ := by omega
  found_iff := by simp [hlt, hz]

theorem lowerBoundLoop_spec {comp : Nat → Int} {count : Nat} (hinc : Increasing comp count)
    (fuel first lastCount : Nat) (hfuel : lastCount ≤ fuel) (hle : first + lastCount ≤ count)
    (hbelow : ∀ i < first, comp i < 0)
    (habove : ∀ i, first + lastCount ≤ i → i < count → 0 < comp i) :
    IsLowerBound comp count (lowerBoundLoop comp fuel first lastCount).1
      (lowerBoundLoop comp fuel first lastCount).2 := by
  induction fuel generalizing first lastCount with
  | zero =>
    obtain rfl : lastCount = 0 := by omega
    exact isLowerBound_of_split hle hbelow habove
  | succ fuel ih =>
    rw [lowerBoundLoop]
    by_cases h0 : lastCount = 0
    · subst h0
      rw [if_pos rfl]
      exact isLowerBound_of_split hle hbelow habove
    rw [if_neg h0]
    by_cases hz : comp (first + lastCount / 2) = 0
    · rw [if_pos hz]
      exact isLowerBound_of_hit hinc (by omega) hz
    rw [if_neg hz]
    by_cases hneg : comp (first + lastCount / 2) < 0
    · rw [if_pos hneg]
      apply ih (first + lastCount / 2 + 1) (lastCount - (lastCount / 2 + 1)) (by omega) (by omega)
      · intro i hi
        by_cases hlt : i < first + lastCount / 2
        · exact hinc i _ hlt (by omega) (by omega)
        · obtain rfl : i = first + lastCount / 2 := by omega
          exact hneg
      · intro i hi hic
        exact habove i (by omega) hic
    · rw [if_neg hneg]
      apply ih first (lastCount / 2) (by omega) (by omega) hbelow
      intro i hi hic
      -- an element from the probed one on is above the value, as the probed one is
      by_contra hle'
      by_cases heq : i = first + lastCount / 2
      · subst heq
        omega
      · have := hinc (first + lastCount / 2) i (by omega) hic (by omega)
        omega

theorem lowerBound_spec {comp : Nat → Int} {count : Nat} (hinc : Increasing comp count) :
    IsLowerBound comp count (lowerBound comp count).1 (lowerBound comp count).2 := by
  apply lowerBoundLoop_spec hinc count 0 count (by omega) (by omega)
  · intro i hi
    omega
  · intro i hi hic
    omega

theorem IsLowerBound.eq {comp : Nat → Int} {count pos : Nat} {found : Bool} {n : Nat}
    (h : IsLowerBound comp count pos found) (hn : n ≤ count) (hbelow : ∀ i < n, comp i < 0)
    (hat : n < count → 0 ≤ comp n) : pos = n := by
  have hle := h.le_count
  rcases Nat.lt_trichotomy pos n with hlt | heq | hgt
  · have h1 := hbelow _ hlt
    have h2 := h.at_nonneg (by omega)
    omega
  · exact heq
  · have h1 := h.below n hgt
    have h2 := hat (by omega)
    omega

/-! ## Ranges of elements -/

section

variable {α β : Type} {comp : α → β → Int} {range : List α} {val : β}

/-- The loop of `lower_bound` over the elements of a range, in so many rounds at most.  There is
no answer when these do not suffice or an iterator is read behind the last element. -/
def searchRange (comp : α → β → Int) (range : List α) (val : β) :
    Nat → Nat → Nat → Option (Nat × Bool)
  | 0, _, _ => none
  | rounds + 1, first, lastCount =>
    if lastCount = 0 then some (first, false)
    else do
      let step := lastCount / 2
      let iter := first + step
      let result := comp (← range[iter]?) val
      if result = 0 then some (iter, true)
      else if result < 0 then searchRange comp range val rounds (iter + 1) (lastCount - (step + 1))
      else searchRange comp range val rounds first step

/-- `lower_bound` of a range with a comparator. -/
def lowerBoundOf (comp : α → β → Int) (range : List α) (val : β) (rounds : Nat) :
    Option (Nat × Bool) :=
  searchRange comp range val rounds 0 range.length

/-- `Comparator`. -/
def comparator [LT α] [DecidableLT α] (v1 v2 : α) : Int :=
  if v1 < v2 then -1 else if v2 < v1 then 1 else 0

theorem isThreeWay_comparator [LinearOrder α] : IsThreeWay (comparator : α → α → Int) := by
  have hrank : RankedBy (comparator : α → α → Int) id := by
    constructor
    all_goals
      intro a b
      unfold comparator
      rcases lt_trichotomy a b with h | h | h
    · simp [h]
    · simp [h]
    · simp [h, h.not_gt]
    · simp [h, h.ne]
    · simp [h]
    · simp [h, h.not_gt, h.ne']
  exact hrank.isThreeWay

/-- What the comparator says of the element at a position. -/
def comparedAt (comp : α → β → Int) (range : List α) (val : β) (i : Nat) : Int :=
  (range[i]?).elim 0 fun a => comp a val

theorem comparedAt_of_lt (comp : α → β → Int) (val : β) {i : Nat} (h : i < range.length) :
    comparedAt comp range val i = comp range[i] val := by
  rw [comparedAt, List.getElem?_eq_getElem h]
  rfl

/-- The loop ends after as many rounds as the number of elements has binary digits, and reads
elements of the range only. -/
theorem searchRange_eq {rounds first lastCount fuel : Nat} (hrounds : lastCount < 2 ^ rounds)
    (hfuel : lastCount ≤ fuel) (hle : first + lastCount ≤ range.length) :
    searchRange comp range val (rounds + 1) first lastCount =
      some (lowerBoundLoop (comparedAt comp range val) fuel first lastCount) := by
  induction rounds generalizing first lastCount fuel with
  | zero =>
    obtain rfl : lastCount = 0 := by omega
    cases fuel <;> rfl
  | succ rounds ih =>
    by_cases hzero : lastCount = 0
    · subst hzero
      cases fuel <;> rfl
    obtain ⟨fuel, rfl⟩ : ∃ n, fuel = n + 1 := ⟨fuel - 1, by omega⟩
    have hlt : first + lastCount / 2 < range.length := by omega
    have hread := comparedAt_of_lt comp val hlt
    rw [Nat.pow_succ] at hrounds
    rw [searchRange, lowerBoundLoop, if_neg hzero, if_neg hzero]
    simp only [List.getElem?_eq_getElem hlt, hread, Option.bind_eq_bind, Option.bind_some]
    split_ifs
    · rfl
    · exact ih (by omega) (by omega) (by omega)
    · exact ih (by omega) (by omega) (by omega)

end

section

variable {α : Type} {comp : α → α → Int} {range : List α}

theorem increasing_comparedAt (horder : IsThreeWay comp)
    (hinc : range.Pairwise fun a b => comp a b < 0) (val : α) :
    Increasing (comparedAt comp range val) range.length := by
  intro i j hij hj hle
  rw [comparedAt_of_lt _ _ hj] at hle
  rw [comparedAt_of_lt _ _ (hij.trans hj)]
  exact horder.lt_of_lt_of_le (List.pairwise_iff_getElem.mp hinc i j _ hj hij) hle

/-- The first position that is not below the value, and whether there is an equal element. -/
theorem IsLowerBound.eq_findIdx {val : α} {pos : Nat} {found : Bool}
    (h : IsLowerBound (comparedAt comp range val) range.length pos found) :
    pos = range.findIdx (fun a => 0 ≤ comp a val) ∧ found = range.any fun a => comp a val = 0 := by
  have hpos : pos = range.findIdx (fun a => 0 ≤ comp a val) := by
    apply h.eq List.findIdx_le_length
    · intro i hi
      have hlt : i < range.length := hi.trans_le List.findIdx_le_length
      have hnot := List.not_of_lt_findIdx hi
      rw [comparedAt_of_lt _ _ hlt]
      simpa using hnot
    · intro hlt
      have hat := List.findIdx_getElem (w := hlt)
      rw [comparedAt_of_lt _ _ hlt]
      simpa using hat
  refine ⟨hpos, ?_⟩
  rw [Bool.eq_iff_iff, h.found_iff]
  simp only [List.any_eq_true, decide_eq_true_eq]
  constructor
  · rintro ⟨hlt, hzero⟩
    rw [comparedAt_of_lt _ _ hlt] at hzero
    exact ⟨range[pos], List.getElem_mem hlt, hzero⟩
  · rintro ⟨a, hmem, hzero⟩
    obtain ⟨i, hi, rfl⟩ := List.mem_iff_getElem.mp hmem
    rw [← comparedAt_of_lt comp val hi] at hzero
    -- an equal element can be nowhere but at the position
    have hbelow := h.below i
    have habove := h.above i
    obtain rfl : i = pos := by omega
    exact ⟨hi, hzero⟩

/-- `lower_bound` ends with the insertion point: the first element that is not less than the
value, the end if there is none; and it is found just when some element is equal to the value. -/
theorem lowerBoundOf_insertionPoint (horder : IsThreeWay comp)
    (hinc : range.Pairwise fun a b => comp a b < 0) (val : α) :
    ∃ enough, ∀ rounds ≥ enough, lowerBoundOf comp range val rounds =
      some (range.findIdx fun a => 0 ≤ comp a val, range.any fun a => comp a val = 0) := by
  refine ⟨range.length + 1, fun rounds hrounds => ?_⟩
  obtain ⟨rounds, rfl⟩ : ∃ n, rounds = n + 1 := ⟨rounds - 1, by omega⟩
  have hsmall : range.length < 2 ^ rounds :=
    Nat.lt_two_pow_self.trans_le (Nat.pow_le_pow_right (by decide) (by omega))
  have hspec := (lowerBound_spec (increasing_comparedAt horder hinc val)).eq_findIdx
  rw [lowerBoundOf, searchRange_eq hsmall (Nat.le_refl _) (by omega), ← hspec.1, ← hspec.2]
  rfl

theorem lowerBoundOf_insertionPoint_odd :
    ∃ enough, ∀ rounds ≥ enough,
      lowerBoundOf comparator [1, 3, 5, 7, (9 : Int)] 4 rounds = some (2, false) :=
  lowerBoundOf_insertionPoint isThreeWay_comparator (by decide) 4

example : ∀ val ∈ List.range 11,
    lowerBoundOf comparator [1, 3, 5, 7, 9] val 4 = some (val / 2, val % 2 == 1) := by decide

end

end ObHtap
