import Mathlib.Order.WithBot
import ObHtap.Library.ThreeWay
import ObHtap.Sql.Column
import ObHtap.Sql.SingleFloat

/-!
# Indexed floats

`common::compare_float` takes floats for equal that differ by at most `EPSILON`.  It orders the
floats of a column as long as it tells any two of them apart.
-/

namespace ObHtap

open Sql

namespace Sql

namespace Single

open FloatFormat

/-- The float in four bytes, which are read as an `int`. -/
def ofBits (bits : Int32) : Single :=
  let n : Nat := bits.toUInt32.toNat
  if n / 2 ^ 23 % 256 < 255 then finite (FloatBits.ofBits bits)
  else if n % 2 ^ 23 = 0 then infinity (2 ^ 31 ≤ n)
  else nan

/-- The place of a float among the numbers and the two infinities. -/
def rank : Single → WithBot (WithTop ℚ)
  | finite x => ((x : WithTop ℚ) : WithBot (WithTop ℚ))
  | infinity negative => if negative then ⊥ else ((⊤ : WithTop ℚ) : WithBot (WithTop ℚ))
  | nan => ⊥

theorem nearest_nonneg {q : ℚ} (h : 0 ≤ q) : 0 ≤ single.nearest q := by
  have hpos := single.lastBit_pos q
  rw [nearest, if_neg (not_lt.mpr h), one_mul]
  positivity

theorem nearest_nonpos {q : ℚ} (h : q ≤ 0) : single.nearest q ≤ 0 := by
  rcases h.lt_or_eq with hneg | rfl
  · have hpos := single.lastBit_pos q
    rw [nearest, if_pos hneg, neg_one_mul, neg_nonpos]
    positivity
  · exact single.nearest_zero.le

theorem epsilon_pos : 0 < double.nearest (1 / 1000000) := by
  decide +kernel

/-- What is rounded to a float above `EPSILON` is positive. -/
theorem pos_of_epsilon_lt {q : ℚ} (h : Floats.lt Floats.epsilon (ofRat q) = true) : 0 < q := by
  change lt (finite (double.nearest (1 / 1000000))) (ofRat q) = true at h
  by_contra hnot
  rw [ofRat] at h
  split_ifs at h with hsmall
  · have hlt := (of_decide_eq_true h).trans_le (nearest_nonpos (not_lt.mp hnot))
    exact lt_asymm hlt epsilon_pos
  · have hneg : ¬ q < 0 := by simpa [lt] using h
    obtain rfl : q = 0 := le_antisymm (not_lt.mp hnot) (not_lt.mp hneg)
    norm_num at hsmall

theorem neg_of_lt_epsilon {q : ℚ} (h : Floats.lt (ofRat q) (-Floats.epsilon) = true) : q < 0 := by
  change lt (ofRat q) (finite (-double.nearest (1 / 1000000))) = true at h
  by_contra hnot
  rw [ofRat] at h
  split_ifs at h with hsmall
  · have hlt := (nearest_nonneg (not_lt.mp hnot)).trans_lt (of_decide_eq_true h)
    exact lt_asymm hlt (neg_neg_of_pos epsilon_pos)
  · exact hnot (by simpa [lt] using h)

theorem finite_sub (x y : ℚ) : finite x - finite y = ofRat (x - y) := by
  rw [sub_eq_add_neg]
  rfl

/-- A difference above `EPSILON` is one of a greater and a smaller float. -/
theorem rank_lt_of_epsilon_lt {x y : Single} (h : Floats.lt Floats.epsilon (x - y) = true) :
    y.rank < x.rank := by
  cases x <;> cases y
  case finite.finite a b =>
    rw [finite_sub] at h
    have hpos := pos_of_epsilon_lt h
    simp only [rank, WithBot.coe_lt_coe, WithTop.coe_lt_coe]
    linarith
  case finite.infinity a negative =>
    cases negative with
    | false => exact absurd h Bool.false_ne_true
    | true => exact WithBot.bot_lt_coe _
  case infinity.finite negative b =>
    cases negative with
    | false => exact WithBot.coe_lt_coe.mpr (WithTop.coe_lt_top b)
    | true => exact absurd h Bool.false_ne_true
  case infinity.infinity b c =>
    cases b <;> cases c <;> first | exact WithBot.bot_lt_coe _ | exact absurd h Bool.false_ne_true
  all_goals exact absurd h Bool.false_ne_true

theorem rank_lt_of_lt_epsilon {x y : Single} (h : Floats.lt (x - y) (-Floats.epsilon) = true) :
    x.rank < y.rank := by
  cases x <;> cases y
  case finite.finite a b =>
    rw [finite_sub] at h
    have hneg := neg_of_lt_epsilon h
    simp only [rank, WithBot.coe_lt_coe, WithTop.coe_lt_coe]
    linarith
  case finite.infinity a negative =>
    cases negative with
    | false => exact WithBot.coe_lt_coe.mpr (WithTop.coe_lt_top a)
    | true => exact absurd h Bool.false_ne_true
  case infinity.finite negative b =>
    cases negative with
    | false => exact absurd h Bool.false_ne_true
    | true => exact WithBot.bot_lt_coe _
  case infinity.infinity b c =>
    cases b <;> cases c <;> first | exact WithBot.bot_lt_coe _ | exact absurd h Bool.false_ne_true
  all_goals exact absurd h Bool.false_ne_true

end Single

end Sql

/-! ## Columns of floats -/

/-- `common::compare_float` on the bytes of two floats. -/
def compareFloatBits (v1 v2 : Int32) : Int :=
  compareFloat (Single.ofBits v1) (Single.ofBits v2)

/-- The floats that a column takes, which are told apart. -/
structure FloatValues where
  values : List Int32
  nonempty : values ≠ []
  apart : ∀ v1 ∈ values, ∀ v2 ∈ values, compareFloatBits v1 v2 = 0 → v1 = v2
  deriving DecidableEq

namespace FloatValues

/-- One of the floats of the column. -/
abbrev Val (column : FloatValues) : Type :=
  { v : Int32 // v ∈ column.values }

instance (column : FloatValues) : Inhabited column.Val :=
  ⟨⟨column.values.head column.nonempty, List.head_mem _⟩⟩

/-- What is read where the column has one of its floats. -/
def ofBits (column : FloatValues) (v : Int32) : column.Val :=
  if h : v ∈ column.values then ⟨v, h⟩ else default

/-- On the floats of a column `compare_float` is an order. -/
theorem ranked (column : FloatValues) :
    RankedBy (fun v1 v2 : column.Val => compareFloatBits v1.val v2.val)
      (fun v => (Single.ofBits v.val).rank) := by
  apply RankedBy.of_apart
  · intro v1 v2 h
    apply Single.rank_lt_of_lt_epsilon
    unfold compareFloatBits compareFloat at h
    split_ifs at h with hgt hlt
    · omega
    · exact hlt
    · omega
  · intro v1 v2 h
    apply Single.rank_lt_of_epsilon_lt
    unfold compareFloatBits compareFloat at h
    split_ifs at h with hgt hlt
    · exact hgt
    · omega
    · omega
  · intro v1 v2 h
    exact Subtype.ext (column.apart _ v1.property _ v2.property h)

/-- `0.5`, `1` and `-2.5`. -/
example : FloatValues where
  values := [0x3f000000, 0x3f800000, -0x3fe00000]
  nonempty := by decide
  apart := by
    simp only [List.mem_cons, List.not_mem_nil, or_false, forall_eq_or_imp, forall_eq]
    decide +kernel

end FloatValues

end ObHtap
