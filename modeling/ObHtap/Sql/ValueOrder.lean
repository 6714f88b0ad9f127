import Mathlib.Algebra.Order.Group.Unbundled.Abs
import Mathlib.Algebra.Order.Ring.Rat
import Mathlib.Data.List.Lex
import Mathlib.Tactic.Linarith
import Mathlib.Tactic.NormNum
import ObHtap.Library.ThreeWay
import ObHtap.Sql.Value

/-!
# The order of values

What `Value::compare` makes of numbers, dates and strings.  Floats are rational numbers, and the
result of every operation on them is rounded, so the difference that `common::compare_float` looks
at need not be the exact one.
-/

namespace ObHtap

namespace Sql

/-- A rounding of rational numbers: it keeps the order and does not look at the sign. -/
structure Rounding where
  round : ℚ → ℚ
  monotone : Monotone round
  neg (q : ℚ) : round (-q) = -round q

/-- No rounding. -/
def Rounding.exact : Rounding :=
  ⟨id, monotone_id, fun _ => rfl⟩

/-- A finite float of a machine that rounds. -/
structure RoundedFloat (r : Rounding) where
  toRat : ℚ

namespace RoundedFloat

variable {r : Rounding}

instance : Floats (RoundedFloat r) where
  add x y := ⟨r.round (x.toRat + y.toRat)⟩
  sub x y := ⟨r.round (x.toRat - y.toRat)⟩
  mul x y := ⟨r.round (x.toRat * y.toRat)⟩
  div x y := ⟨r.round (x.toRat / y.toRat)⟩
  neg x := ⟨-x.toRat⟩
  lt x y := x.toRat < y.toRat
  le x y := x.toRat ≤ y.toRat
  ofInt n := ⟨r.round n⟩
  round x := Floats.round x.toRat
  epsilon := ⟨1 / 1000000⟩
  tenths acc n := ⟨r.round (Floats.tenths acc.toRat n)⟩
  toInt x := Floats.toInt x.toRat
  doubleToStr x := Floats.doubleToStr x.toRat
  stof s := ⟨r.round (Floats.stof s)⟩
  bits x := Floats.bits x.toRat

theorem lt_eq (x y : RoundedFloat r) : Floats.lt x y = decide (x.toRat < y.toRat) :=
  rfl

theorem toRat_sub (x y : RoundedFloat r) : (x - y).toRat = r.round (x.toRat - y.toRat) :=
  rfl

theorem toRat_neg (x : RoundedFloat r) : (-x).toRat = -x.toRat :=
  rfl

theorem toRat_epsilon : (Floats.epsilon : RoundedFloat r).toRat = 1 / 1000000 :=
  rfl

end RoundedFloat

namespace Value

section

variable {F : Type} [Floats F]

/-- A value of type `INTS` or `FLOATS`. -/
def IsNumber (value : Value F) : Prop :=
  value.attrType = .ints ∨ value.attrType = .floats

/-- Two numbers, two dates or two strings. -/
def Comparable (left right : Value F) : Prop :=
  (left.IsNumber ∧ right.IsNumber) ∨ (left.attrType = .dates ∧ right.attrType = .dates) ∨
    (left.attrType = .chars ∧ right.attrType = .chars)

theorem compareVectors_error {xs ys : List F} {fault : Fault}
    (h : compareVectors xs ys = .error fault) : fault = .abort := by
  induction xs generalizing ys with
  | nil => cases h
  | cons x xs ih =>
    cases ys with
    | nil =>
      cases h
      rfl
    | cons y ys =>
      rw [compareVectors] at h
      split_ifs at h
      exact ih h

theorem map_neg_error {result : Except Fault Int} {fault : Fault}
    (h : result.map (- ·) = .error fault) : result = .error fault := by
  cases result with
  | error e => exact h
  | ok n => cases h

theorem compareBy_error {onList : Value F → Value F → Except Fault Int}
    (honList : ∀ left right fault, onList left right = .error fault → fault = .abort)
    {left right : Value F} {fault : Fault}
    (h : compareBy onList left right = .error fault) : fault = .abort := by
  fun_induction compareBy onList left right with
  | case1 front right ih => exact ih h
  | case5 elems elems' => exact compareVectors_error h
  | case19 | case20 => exact honList _ _ _ (map_neg_error h)
  | case24 | case25 | case26 | case27 =>
    cases h
    rfl
  | _ => cases h

/-- Values that cannot be compared fail an `ASSERT`, or are read past their end. -/
theorem compare_error {left right : Value F} {fault : Fault}
    (h : left.compare right = .error fault) : fault = .abort := by
  refine compareBy_error (fun left right fault h => ?_) h
  refine compareBy_error (fun left right fault h => ?_) h
  cases h
  rfl

end

variable {r : Rounding}

/-- The float that a number is compared as. -/
def number (value : Value (RoundedFloat r)) : ℚ :=
  value.getFloat.toRat

/-- The laws of `Value::compare` that numbers, dates and strings have. -/
structure OrderLaws (r : Rounding) : Prop where
  /-- The result is one of three, and none of them stands for values that cannot be compared. -/
  sign : ∀ left right : Value (RoundedFloat r), Comparable left right →
    left.compare right = .ok (-1) ∨ left.compare right = .ok 0 ∨ left.compare right = .ok 1
  self : ∀ value : Value (RoundedFloat r), Comparable value value → value.compare value = .ok 0
  swap : ∀ (left right : Value (RoundedFloat r)) (n : Int), Comparable left right →
    left.compare right = .ok n → right.compare left = .ok (-n)
  /-- What is within `EPSILON` is the same. -/
  near : ∀ left right : Value (RoundedFloat r), left.IsNumber → right.IsNumber →
    ¬ (left.attrType = .ints ∧ right.attrType = .ints) →
    (left.compare right = .ok 0 ↔ |r.round (left.number - right.number)| ≤ 1 / 1000000)
  /-- Values that are no floats are in a linear order. -/
  trans : ∀ (a b c : Value (RoundedFloat r)) (m n k : Int), Comparable a b → Comparable b c →
    a.attrType ≠ .floats → b.attrType ≠ .floats → c.attrType ≠ .floats →
    a.compare b = .ok m → b.compare c = .ok n → a.compare c = .ok k →
    m ≤ 0 → n ≤ 0 → k ≤ 0 ∧ (k = 0 → m = 0 ∧ n = 0)
  /-- What is below a value that is below another is below the other. -/
  trans_lt : ∀ (a b c : Value (RoundedFloat r)) (m n k : Int), Comparable a b → Comparable b c →
    a.compare b = .ok m → b.compare c = .ok n → a.compare c = .ok k → m < 0 → n < 0 → k < 0
  /-- What is below a value is not above one that the value is not above. -/
  trans_lt_le : ∀ (a b c : Value (RoundedFloat r)) (m n k : Int), Comparable a b →
    Comparable b c → a.compare b = .ok m → b.compare c = .ok n → a.compare c = .ok k →
    m < 0 → n ≤ 0 → k ≤ 0
  trans_le_lt : ∀ (a b c : Value (RoundedFloat r)) (m n k : Int), Comparable a b →
    Comparable b c → a.compare b = .ok m → b.compare c = .ok n → a.compare c = .ok k →
    m ≤ 0 → n < 0 → k ≤ 0

/-! ## Integers, dates and strings -/

theorem ranked_compareInt : RankedBy compareInt Int32.toInt where
  neg_iff x y := by
    unfold compareInt
    simp only [Int32.lt_iff_toInt_lt]
    split_ifs <;> omega
  zero_iff x y := by
    unfold compareInt
    simp only [Int32.lt_iff_toInt_lt]
    grind

theorem compareString_spec (s s' : List UInt8) :
    (compareString s s' < 0 ↔ s.map UInt8.toNat < s'.map UInt8.toNat) ∧
      (compareString s s' = 0 ↔ s.map UInt8.toNat = s'.map UInt8.toNat) := by
  induction s generalizing s' with
  | nil => cases s' <;> simp [compareString]
  | cons c s ih =>
    cases s' with
    | nil => simp [compareString]
    | cons c' s' =>
      obtain ⟨ihlt, iheq⟩ := ih s'
      rw [compareString, List.map_cons, List.map_cons, List.cons_lt_cons_iff, List.cons.injEq]
      simp only [UInt8.lt_iff_toNat_lt]
      split_ifs with h h' <;> grind

theorem ranked_compareString : RankedBy compareString (List.map UInt8.toNat) :=
  ⟨fun s s' => (compareString_spec s s').1, fun s s' => (compareString_spec s s').2⟩

theorem exists_of_attrType {value : Value (RoundedFloat r)} :
    (value.attrType = .ints → ∃ x, value = .ints x) ∧
      (value.attrType = .floats → ∃ x, value = .floats x) ∧
      (value.attrType = .dates → ∃ x, value = .dates x) ∧
      (value.attrType = .chars → ∃ s, value = .chars s) := by
  cases value <;> simp [attrType]

variable {a b c left right : Value (RoundedFloat r)} {m n k : Int}

theorem Comparable.same (h : Comparable left right) (hleft : left.attrType ≠ .floats)
    (hright : right.attrType ≠ .floats) : left.attrType = right.attrType := by
  rcases h with ⟨hl, hr⟩ | ⟨hl, hr⟩ | ⟨hl, hr⟩
  · exact (hl.resolve_right hleft).trans (hr.resolve_right hright).symm
  · exact hl.trans hr.symm
  · exact hl.trans hr.symm

theorem compare_trans (hab : Comparable a b) (hbc : Comparable b c) (ha : a.attrType ≠ .floats)
    (hb : b.attrType ≠ .floats) (hc : c.attrType ≠ .floats) (hm : a.compare b = .ok m)
    (hn : b.compare c = .ok n) (hk : a.compare c = .ok k) (hmle : m ≤ 0) (hnle : n ≤ 0) :
    k ≤ 0 ∧ (k = 0 → m = 0 ∧ n = 0) := by
  have hsame := hab.same ha hb
  have hsame' := hbc.same hb hc
  have htype : a.attrType = .ints ∨ a.attrType = .dates ∨ a.attrType = .chars := by
    rcases hab with h | h | h
    · exact Or.inl (h.1.resolve_right ha)
    · exact Or.inr (Or.inl h.1)
    · exact Or.inr (Or.inr h.1)
  rcases htype with h | h | h
  · obtain ⟨x, rfl⟩ := exists_of_attrType.1 h
    obtain ⟨y, rfl⟩ := exists_of_attrType.1 hsame.symm
    obtain ⟨z, rfl⟩ := exists_of_attrType.1 hsame'.symm
    cases hm
    cases hn
    cases hk
    exact ranked_compareInt.trans hmle hnle
  · obtain ⟨x, rfl⟩ := exists_of_attrType.2.2.1 h
    obtain ⟨y, rfl⟩ := exists_of_attrType.2.2.1 (hsame.symm.trans h)
    obtain ⟨z, rfl⟩ := exists_of_attrType.2.2.1 hsame'.symm
    cases hm
    cases hn
    cases hk
    exact ranked_compareInt.trans hmle hnle
  · obtain ⟨x, rfl⟩ := exists_of_attrType.2.2.2 h
    obtain ⟨y, rfl⟩ := exists_of_attrType.2.2.2 (hsame.symm.trans h)
    obtain ⟨z, rfl⟩ := exists_of_attrType.2.2.2 hsame'.symm
    cases hm
    cases hn
    cases hk
    exact ranked_compareString.trans hmle hnle

/-! ## Numbers -/

theorem round_zero : r.round 0 = 0 := by
  have h := r.neg 0
  rw [neg_zero] at h
  linarith

theorem compareFloat_iff (x y : RoundedFloat r) :
    (compareFloat x y = -1 ∨ compareFloat x y = 0 ∨ compareFloat x y = 1) ∧
      (compareFloat x y < 0 ↔ r.round (x.toRat - y.toRat) < -(1 / 1000000)) ∧
      (0 < compareFloat x y ↔ 1 / 1000000 < r.round (x.toRat - y.toRat)) := by
  unfold compareFloat
  simp only [RoundedFloat.lt_eq, RoundedFloat.toRat_sub, RoundedFloat.toRat_neg,
    RoundedFloat.toRat_epsilon, decide_eq_true_eq]
  split_ifs with h h'
  · refine ⟨Or.inr (Or.inr rfl), iff_of_false (by decide) ?_, iff_of_true (by decide) h⟩
    linarith
  · exact ⟨Or.inl rfl, iff_of_true (by decide) h', iff_of_false (by decide) h⟩
  · exact ⟨Or.inr (Or.inl rfl), iff_of_false (by decide) h', iff_of_false (by decide) h⟩

theorem compareFloat_swap (x y : RoundedFloat r) : compareFloat y x = -compareFloat x y := by
  obtain ⟨hsign, hneg, hpos⟩ := compareFloat_iff x y
  obtain ⟨hsign', hneg', hpos'⟩ := compareFloat_iff y x
  have hround : r.round (y.toRat - x.toRat) = -r.round (x.toRat - y.toRat) := by
    rw [← r.neg, neg_sub]
  rw [hround, neg_lt_neg_iff] at hneg'
  rw [hround, lt_neg] at hpos'
  have h : compareFloat y x < 0 ↔ 0 < compareFloat x y := hneg'.trans hpos.symm
  have h' : 0 < compareFloat y x ↔ compareFloat x y < 0 := hpos'.trans hneg.symm
  omega

theorem compare_numbers (hleft : left.IsNumber) (hright : right.IsNumber)
    (hnot : ¬ (left.attrType = .ints ∧ right.attrType = .ints)) :
    left.compare right = .ok (compareFloat left.getFloat right.getFloat) := by
  rcases hleft with hl | hl <;> rcases hright with hr | hr
  · exact absurd ⟨hl, hr⟩ hnot
  · obtain ⟨x, rfl⟩ := exists_of_attrType.1 hl
    obtain ⟨y, rfl⟩ := exists_of_attrType.2.1 hr
    rfl
  · obtain ⟨x, rfl⟩ := exists_of_attrType.2.1 hl
    obtain ⟨y, rfl⟩ := exists_of_attrType.1 hr
    rfl
  · obtain ⟨x, rfl⟩ := exists_of_attrType.2.1 hl
    obtain ⟨y, rfl⟩ := exists_of_attrType.2.1 hr
    rfl

theorem number_le {x y : Int32} (h : x.toInt ≤ y.toInt) :
    (ints x : Value (RoundedFloat r)).number ≤ (ints y : Value (RoundedFloat r)).number :=
  r.monotone (Int.cast_le.mpr h)

/-- What a comparison of numbers says about the rounded difference, integers included. -/
theorem round_le (hleft : left.IsNumber) (hright : right.IsNumber)
    (hn : left.compare right = .ok n) (hle : n ≤ 0) :
    r.round (left.number - right.number) ≤ 1 / 1000000 := by
  by_cases hints : left.attrType = .ints ∧ right.attrType = .ints
  · obtain ⟨x, rfl⟩ := exists_of_attrType.1 hints.1
    obtain ⟨y, rfl⟩ := exists_of_attrType.1 hints.2
    cases hn
    have hnumber : (ints x : Value (RoundedFloat r)).number ≤ number (ints y) :=
      number_le ((ranked_compareInt.nonpos_iff x y).mp hle)
    have hsub := r.monotone (sub_nonpos.mpr hnumber)
    rw [round_zero] at hsub
    linarith
  · rw [compare_numbers hleft hright hints] at hn
    cases hn
    exact not_lt.mp fun hlt => not_lt.mpr hle ((compareFloat_iff _ _).2.2.mpr hlt)

theorem number_le_of_lt (hleft : left.IsNumber) (hright : right.IsNumber)
    (hn : left.compare right = .ok n) (hlt : n < 0) : left.number ≤ right.number := by
  by_cases hints : left.attrType = .ints ∧ right.attrType = .ints
  · obtain ⟨x, rfl⟩ := exists_of_attrType.1 hints.1
    obtain ⟨y, rfl⟩ := exists_of_attrType.1 hints.2
    cases hn
    exact number_le ((ranked_compareInt.nonpos_iff x y).mp hlt.le)
  · rw [compare_numbers hleft hright hints] at hn
    cases hn
    have hround := (compareFloat_iff _ _).2.1.mp hlt
    by_contra hgt
    have hsub := r.monotone (sub_nonneg.mpr (not_le.mp hgt).le)
    rw [round_zero] at hsub
    change r.round (left.number - right.number) < _ at hround
    linarith

theorem round_lt (hleft : left.IsNumber) (hright : right.IsNumber)
    (hnot : ¬ (left.attrType = .ints ∧ right.attrType = .ints))
    (hn : left.compare right = .ok n) :
    n < 0 ↔ r.round (left.number - right.number) < -(1 / 1000000) := by
  rw [compare_numbers hleft hright hnot] at hn
  cases hn
  exact (compareFloat_iff _ _).2.1

theorem lt_round (hleft : left.IsNumber) (hright : right.IsNumber)
    (hnot : ¬ (left.attrType = .ints ∧ right.attrType = .ints))
    (hn : left.compare right = .ok n) :
    0 < n ↔ 1 / 1000000 < r.round (left.number - right.number) := by
  rw [compare_numbers hleft hright hnot] at hn
  cases hn
  exact (compareFloat_iff _ _).2.2

/-- An integer that is above another is so as a float, or both are the same float. -/
theorem number_le_of_ints (hleft : left.attrType = .ints) (hright : right.attrType = .ints)
    (hn : left.compare right = .ok n) :
    (n ≤ 0 → left.number ≤ right.number) ∧ (0 ≤ n → right.number ≤ left.number) := by
  obtain ⟨x, rfl⟩ := exists_of_attrType.1 hleft
  obtain ⟨y, rfl⟩ := exists_of_attrType.1 hright
  cases hn
  exact ⟨fun h => number_le ((ranked_compareInt.nonpos_iff x y).mp h),
    fun h => number_le ((ranked_compareInt.nonneg_iff x y).mp h)⟩

section

variable (ha : a.IsNumber) (hb : b.IsNumber) (hc : c.IsNumber)
  (hfloats : ¬ (a.attrType = .ints ∧ b.attrType = .ints ∧ c.attrType = .ints))
  (hm : a.compare b = .ok m) (hn : b.compare c = .ok n) (hk : a.compare c = .ok k)

include ha hb hc hfloats hm hn hk

/-- With a float among three numbers. -/
theorem numbers_trans_lt_le (hmlt : m < 0) (hnle : n ≤ 0) : k ≤ 0 := by
  by_cases hints : a.attrType = .ints ∧ c.attrType = .ints
  · -- the float is in the middle, and the distance on its left is the larger one
    have hmid : b.attrType ≠ .ints := fun h => hfloats ⟨hints.1, h, hints.2⟩
    have hab := (round_lt ha hb (fun h => hmid h.2) hm).mp hmlt
    have hbc := round_le hb hc hn hnle
    by_contra hpos
    have hca := (number_le_of_ints hints.1 hints.2 hk).2 (not_le.mp hpos).le
    have hround := r.monotone (sub_le_sub_right hca b.number)
    have hneg := r.neg (b.number - c.number)
    rw [neg_sub] at hneg
    linarith
  · have hab := number_le_of_lt ha hb hm hmlt
    have hround := r.monotone (sub_le_sub_right hab c.number)
    have hbc := round_le hb hc hn hnle
    exact not_lt.mp fun hpos =>
      absurd ((lt_round ha hc hints hk).mp hpos) (not_lt.mpr (hround.trans hbc))

theorem numbers_trans_le_lt (hmle : m ≤ 0) (hnlt : n < 0) : k ≤ 0 := by
  by_cases hints : a.attrType = .ints ∧ c.attrType = .ints
  · have hmid : b.attrType ≠ .ints := fun h => hfloats ⟨hints.1, h, hints.2⟩
    have hab := round_le ha hb hm hmle
    have hbc := (round_lt hb hc (fun h => hmid h.1) hn).mp hnlt
    by_contra hpos
    have hca := (number_le_of_ints hints.1 hints.2 hk).2 (not_le.mp hpos).le
    have hround := r.monotone (sub_le_sub_left hca b.number)
    have hneg := r.neg (a.number - b.number)
    rw [neg_sub] at hneg
    linarith
  · have hbc := number_le_of_lt hb hc hn hnlt
    have hround := r.monotone (sub_le_sub_left hbc a.number)
    have hab := round_le ha hb hm hmle
    exact not_lt.mp fun hpos =>
      absurd ((lt_round ha hc hints hk).mp hpos) (not_lt.mpr (hround.trans hab))

theorem numbers_trans_lt (hmlt : m < 0) (hnlt : n < 0) : k < 0 := by
  have hab := number_le_of_lt ha hb hm hmlt
  have hbc := number_le_of_lt hb hc hn hnlt
  by_cases hints : a.attrType = .ints ∧ c.attrType = .ints
  · have hmid : b.attrType ≠ .ints := fun h => hfloats ⟨hints.1, h, hints.2⟩
    have hround := (round_lt ha hb (fun h => hmid h.2) hm).mp hmlt
    by_contra hnonneg
    have hca := (number_le_of_ints hints.1 hints.2 hk).2 (not_lt.mp hnonneg)
    -- all three are the same float, and nothing is left of the distance
    have heq : a.number - b.number = 0 := by linarith
    rw [heq, round_zero] at hround
    linarith
  · refine (round_lt ha hc hints hk).mpr ?_
    by_cases hfirst : a.attrType = .ints ∧ b.attrType = .ints
    · have hlast : ¬ (b.attrType = .ints ∧ c.attrType = .ints) := fun h =>
        hfloats ⟨hfirst.1, h.1, h.2⟩
      exact (r.monotone (sub_le_sub_right hab c.number)).trans_lt
        ((round_lt hb hc hlast hn).mp hnlt)
    · exact (r.monotone (sub_le_sub_left hbc a.number)).trans_lt
        ((round_lt ha hb hfirst hm).mp hmlt)

end

/-! ## The laws -/

/-- Three values are numbers with a float among them, or the comparison is a linear order. -/
theorem trans_cases (hab : Comparable a b) (hbc : Comparable b c) (hm : a.compare b = .ok m)
    (hn : b.compare c = .ok n) (hk : a.compare c = .ok k) :
    (a.IsNumber ∧ b.IsNumber ∧ c.IsNumber ∧
      ¬ (a.attrType = .ints ∧ b.attrType = .ints ∧ c.attrType = .ints)) ∨
    (m ≤ 0 → n ≤ 0 → k ≤ 0 ∧ (k = 0 → m = 0 ∧ n = 0)) := by
  by_cases hfloats : a.attrType ≠ .floats ∧ b.attrType ≠ .floats ∧ c.attrType ≠ .floats
  · exact Or.inr (compare_trans hab hbc hfloats.1 hfloats.2.1 hfloats.2.2 hm hn hk)
  · left
    have hnumbers : a.IsNumber ∧ b.IsNumber ∧ c.IsNumber := by
      unfold Comparable IsNumber at *
      grind
    refine ⟨hnumbers.1, hnumbers.2.1, hnumbers.2.2, ?_⟩
    rintro ⟨h, h', h''⟩
    rw [h, h', h''] at hfloats
    exact hfloats (by decide)

/-- Both orders of two values are compared by the same function. -/
theorem compare_forms (h : Comparable left right) :
    (∃ x y, left.compare right = .ok (compareInt x y) ∧
      right.compare left = .ok (compareInt y x)) ∨
    (∃ x y : RoundedFloat r, left.compare right = .ok (compareFloat x y) ∧
      right.compare left = .ok (compareFloat y x)) ∨
    ∃ s s', left.compare right = .ok (compareString s s') ∧
      right.compare left = .ok (compareString s' s) := by
  rcases h with ⟨hl, hr⟩ | ⟨hl, hr⟩ | ⟨hl, hr⟩
  · by_cases hints : left.attrType = .ints ∧ right.attrType = .ints
    · obtain ⟨x, rfl⟩ := exists_of_attrType.1 hints.1
      obtain ⟨y, rfl⟩ := exists_of_attrType.1 hints.2
      exact Or.inl ⟨x, y, rfl, rfl⟩
    · exact Or.inr (Or.inl ⟨_, _, compare_numbers hl hr hints,
        compare_numbers hr hl fun h => hints h.symm⟩)
  · obtain ⟨x, rfl⟩ := exists_of_attrType.2.2.1 hl
    obtain ⟨y, rfl⟩ := exists_of_attrType.2.2.1 hr
    exact Or.inl ⟨x, y, rfl, rfl⟩
  · obtain ⟨s, rfl⟩ := exists_of_attrType.2.2.2 hl
    obtain ⟨s', rfl⟩ := exists_of_attrType.2.2.2 hr
    exact Or.inr (Or.inr ⟨s.getD [], s'.getD [], rfl, rfl⟩)

theorem compareInt_sign (x y : Int32) :
    compareInt x y = -1 ∨ compareInt x y = 0 ∨ compareInt x y = 1 := by
  unfold compareInt
  split_ifs <;> simp

theorem compareString_sign (s s' : List UInt8) :
    compareString s s' = -1 ∨ compareString s s' = 0 ∨ compareString s s' = 1 := by
  induction s generalizing s' with
  | nil => cases s' <;> simp [compareString]
  | cons c s ih =>
    cases s' with
    | nil => simp [compareString]
    | cons c' s' =>
      rw [compareString]
      split_ifs
      · exact Or.inl rfl
      · exact Or.inr (Or.inr rfl)
      · exact ih s'

/-- A ranked comparison with three results is turned around by a sign. -/
theorem swap_of_ranked {κ ρ : Type} [LinearOrder ρ] {f : κ → κ → Int} {rank : κ → ρ}
    (h : RankedBy f rank) (hsign : ∀ x y, f x y = -1 ∨ f x y = 0 ∨ f x y = 1) (x y : κ) :
    f y x = -f x y := by
  have hneg : f y x < 0 ↔ 0 < f x y := (h.neg_iff y x).trans (h.pos_iff x y).symm
  have hpos : 0 < f y x ↔ f x y < 0 := (h.pos_iff y x).trans (h.neg_iff x y).symm
  have hxy := hsign x y
  have hyx := hsign y x
  omega

theorem compare_sign (h : Comparable left right) :
    left.compare right = .ok (-1) ∨ left.compare right = .ok 0 ∨ left.compare right = .ok 1 := by
  rcases compare_forms h with ⟨x, y, heq, -⟩ | ⟨x, y, heq, -⟩ | ⟨s, s', heq, -⟩
  · simpa [heq] using compareInt_sign x y
  · simpa [heq] using (compareFloat_iff x y).1
  · simpa [heq] using compareString_sign s s'

theorem compare_swap (h : Comparable left right) (hn : left.compare right = .ok n) :
    right.compare left = .ok (-n) := by
  rcases compare_forms h with ⟨x, y, heq, heq'⟩ | ⟨x, y, heq, heq'⟩ | ⟨s, s', heq, heq'⟩
  · cases heq.symm.trans hn
    rw [heq', swap_of_ranked ranked_compareInt compareInt_sign x y]
  · cases heq.symm.trans hn
    rw [heq', compareFloat_swap x y]
  · cases heq.symm.trans hn
    rw [heq', swap_of_ranked ranked_compareString compareString_sign s s']

theorem compare_self {value : Value (RoundedFloat r)} (h : Comparable value value) :
    value.compare value = .ok 0 := by
  rcases compare_sign h with hn | hn | hn
  · cases hn.symm.trans (compare_swap h hn)
  · exact hn
  · cases hn.symm.trans (compare_swap h hn)

theorem orderLaws (r : Rounding) : OrderLaws r where
  sign _ _ := compare_sign
  self _ := compare_self
  swap _ _ _ := compare_swap
  near left right hleft hright hnot := by
    rw [compare_numbers hleft hright hnot]
    obtain ⟨hsign, hneg, hpos⟩ := compareFloat_iff left.getFloat right.getFloat
    rw [abs_le, ← not_lt, ← not_lt]
    change _ ↔ ¬ r.round (left.getFloat.toRat - right.getFloat.toRat) < _ ∧ _
    rw [← hneg, Except.ok.injEq]
    change _ ↔ _ ∧ ¬ _ < r.round (left.getFloat.toRat - right.getFloat.toRat)
    rw [← hpos]
    omega
  trans _ _ _ _ _ _ := compare_trans
  trans_lt a b c m n k hab hbc hm hn hk hmlt hnlt := by
    rcases trans_cases hab hbc hm hn hk with ⟨ha, hb, hc, hfloats⟩ | h
    · exact numbers_trans_lt ha hb hc hfloats hm hn hk hmlt hnlt
    · have h' := h hmlt.le hnlt.le
      omega
  trans_lt_le a b c m n k hab hbc hm hn hk hmlt hnle := by
    rcases trans_cases hab hbc hm hn hk with ⟨ha, hb, hc, hfloats⟩ | h
    · exact numbers_trans_lt_le ha hb hc hfloats hm hn hk hmlt hnle
    · exact (h hmlt.le hnle).1
  trans_le_lt a b c m n k hab hbc hm hn hk hmle hnlt := by
    rcases trans_cases hab hbc hm hn hk with ⟨ha, hb, hc, hfloats⟩ | h
    · exact numbers_trans_le_lt ha hb hc hfloats hm hn hk hmle hnlt
    · exact (h hmle hnlt.le).1

/-- Three floats, each within `EPSILON` of the next one. -/
theorem not_trans_near : ¬ ∀ a b c : Value (RoundedFloat .exact), Comparable a b →
    Comparable b c → ∀ m n k, a.compare b = .ok m → b.compare c = .ok n →
    a.compare c = .ok k → m ≤ 0 → n ≤ 0 → k ≤ 0 := by
  intro h
  have hcomparable (p q : ℚ) :
      Comparable (floats ⟨p⟩ : Value (RoundedFloat .exact)) (floats ⟨q⟩) :=
    Or.inl ⟨Or.inr rfl, Or.inr rfl⟩
  have hcompare (p q : ℚ) : (floats ⟨p⟩ : Value (RoundedFloat .exact)).compare (floats ⟨q⟩) =
      .ok (if 1 / 1000000 < p - q then 1 else if p - q < -(1 / 1000000) then -1 else 0) := by
    rw [compare_numbers (Or.inr rfl) (Or.inr rfl) fun hints => by cases hints.1]
    simp only [compareFloat, RoundedFloat.lt_eq, decide_eq_true_eq]
    rfl
  have hk := h (.floats ⟨2 / 1000000⟩) (.floats ⟨1 / 1000000⟩) (.floats ⟨0⟩) (hcomparable _ _)
    (hcomparable _ _) 0 0 1 (by rw [hcompare]; norm_num) (by rw [hcompare]; norm_num)
    (by rw [hcompare]; norm_num) le_rfl le_rfl
  exact absurd hk (by decide)

end Value

end Sql

end ObHtap
