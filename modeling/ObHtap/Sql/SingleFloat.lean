import Mathlib.Data.Int.Log
import Mathlib.Data.Rat.Floor
import Mathlib.Tactic.FieldSimp
import Mathlib.Tactic.Linarith
import Mathlib.Tactic.NormNum
import Mathlib.Tactic.Positivity
import ObHtap.Sql.Value

/-!
# Floats in single precision

The floats of the machine with their rounding, to the nearest number of the format and of two as
near to the even one, with infinities, and with the numbers that `std::stof` throws for.
-/

namespace ObHtap

namespace Sql

/-! ## Rounding to a format -/

theorem roundHalfEven_near {q : ℚ} (h : 0 ≤ q) : |(roundHalfEven q : ℚ) - q| ≤ 1 / 2 := by
  have hfloor : ((q.floor.toNat : Nat) : ℚ) = q.floor := by
    have hpos : 0 ≤ q.floor := Rat.le_floor_iff.mpr (by exact_mod_cast h)
    exact_mod_cast Int.toNat_of_nonneg hpos
  have hle := Rat.floor_le q
  have hlt := Rat.lt_floor_add_one q
  push_cast at hlt
  rw [abs_le, roundHalfEven]
  simp only [hfloor]
  split_ifs with hdown
  · have hhalf : q - q.floor ≤ 1 / 2 := by
      rcases hdown with hlt | ⟨heq, -⟩
      · exact hlt.le
      · exact heq.le
    constructor <;> linarith
  · have hhalf : 1 / 2 ≤ q - q.floor := not_lt.mp fun h => hdown (.inl h)
    push_cast
    rw [hfloor]
    constructor <;> linarith

theorem roundHalfEven_natCast (n : Nat) : roundHalfEven n = n := by
  have hfloor : (n : ℚ).floor.toNat = n := by
    have hcast := Rat.floor_intCast n
    simp only [Int.cast_natCast] at hcast
    rw [hcast, Int.toNat_natCast]
  simp only [roundHalfEven, hfloor, sub_self]
  rw [if_pos (by norm_num)]

/-- A whole number that is not above another is not above what that is rounded to. -/
theorem le_roundHalfEven {n : Nat} {q : ℚ} (h : (n : ℚ) ≤ q) : n ≤ roundHalfEven q := by
  have hfloor : n ≤ q.floor.toNat := by
    have hint : (n : Int) ≤ q.floor := Rat.le_floor_iff.mpr (by exact_mod_cast h)
    omega
  simp only [roundHalfEven]
  split_ifs <;> omega

/-! ### in FloatFormat -/
/-- A format of binary floats: so many bits, and none below `2 ^ least`. -/
structure FloatFormat where
  bits : Nat
  least : Int

namespace FloatFormat

/-- `float`. -/
def single : FloatFormat :=
  ⟨24, -149⟩

/-- `double`. -/
def double : FloatFormat :=
  ⟨53, -1074⟩

variable (format : FloatFormat)

/-- The last bit of a number of this size. -/
def lastBit (q : ℚ) : ℚ :=
  2 ^ max format.least (Int.log 2 |q| + 1 - format.bits)

/-- The nearest number of the format, however large. -/
def nearest (q : ℚ) : ℚ :=
  (if q < 0 then -1 else 1) * (roundHalfEven (|q| / format.lastBit q) * format.lastBit q)

theorem lastBit_pos (q : ℚ) : 0 < format.lastBit q := by
  exact zpow_pos (by norm_num) _

theorem nearest_zero : format.nearest 0 = 0 := by
  have hzero : roundHalfEven 0 = 0 := by simpa using roundHalfEven_natCast 0
  simp [nearest, hzero]

/-- The error of rounding is at most half a last bit. -/
theorem nearest_near (q : ℚ) : |format.nearest q - q| ≤ format.lastBit q / 2 := by
  have hpos := format.lastBit_pos q
  have hround := roundHalfEven_near (div_nonneg (abs_nonneg q) hpos.le)
  have hscaled := mul_le_mul_of_nonneg_right hround hpos.le
  rw [← abs_of_pos hpos, ← abs_mul, abs_of_pos hpos, sub_mul, div_mul_cancel₀ _ hpos.ne',
    one_div_mul_eq_div] at hscaled
  unfold nearest
  split_ifs with hneg
  · rw [abs_of_neg hneg] at hscaled ⊢
    have hneg (x : ℚ) : -1 * x - q = -(x - -q) := by ring
    rw [hneg, abs_neg]
    exact hscaled
  · rw [abs_of_nonneg (not_lt.mp hneg)] at hscaled ⊢
    rwa [one_mul]

/-- Where the exponent has no limit, the last bit is small. -/
theorem lastBit_le {q : ℚ} (hq : q ≠ 0) :
    format.lastBit q ≤ max (2 ^ format.least) (|q| * 2 ^ (1 - format.bits : Int)) := by
  have hlog : (2 : ℚ) ^ Int.log 2 |q| ≤ |q| :=
    Int.zpow_log_le_self (by norm_num) (abs_pos.mpr hq)
  unfold lastBit
  rcases max_cases format.least (Int.log 2 |q| + 1 - format.bits) with ⟨h, -⟩ | ⟨h, -⟩
  · rw [h]
    exact le_max_left _ _
  · rw [h, add_sub_assoc, zpow_add₀ (by norm_num)]
    exact le_max_of_le_right (mul_le_mul_of_nonneg_right hlog (zpow_pos (by norm_num) _).le)

theorem lastBit_single {q : ℚ} (h : 1 ≤ q) : single.lastBit q * 2 ^ 23 = 2 ^ Int.log 2 q := by
  have hlog : 0 ≤ Int.log 2 q := by
    simpa using Int.log_mono_right (b := 2) (by norm_num) h
  have habs : |q| = q := abs_of_nonneg (by linarith)
  have hmax : max (-149) (Int.log 2 q + 1 - 24) = Int.log 2 q - 23 := by omega
  change 2 ^ max (-149) (Int.log 2 |q| + 1 - 24) * 2 ^ 23 = _
  rw [habs, hmax, ← zpow_natCast, ← zpow_add₀ (by norm_num)]
  norm_num

/-- Only what is below the normal numbers is rounded to zero. -/
theorem small_of_nearest_eq_zero {q : ℚ} (hq : q ≠ 0) (h : single.nearest q = 0) :
    |q| < 2 ^ (-126 : Int) - 2 ^ (-151 : Int) ∧ single.nearest q ≠ q := by
  have hpos : 0 < |q| := abs_pos.mpr hq
  have hnear := single.nearest_near q
  rw [h, zero_sub, abs_neg] at hnear
  have hbit : single.lastBit q ≤ max (2 ^ (-149 : Int)) (|q| * 2 ^ (-23 : Int)) :=
    single.lastBit_le hq
  refine ⟨?_, fun hsame => hq (hsame.symm.trans h)⟩
  rcases le_max_iff.mp hbit with hle | hle
  · norm_num at hle ⊢
    linarith
  · norm_num at hle
    linarith

/-- The relative error of single precision. -/
theorem nearest_single {q : ℚ} (h : 1 ≤ q) :
    1 ≤ single.nearest q ∧ |single.nearest q - q| ≤ q / 2 ^ 24 := by
  have hlog : (2 : ℚ) ^ Int.log 2 q ≤ q := Int.zpow_log_le_self (by norm_num) (by linarith)
  have hbit := lastBit_single h
  constructor
  · have hpos := single.lastBit_pos q
    have hone : (1 : ℚ) ≤ 2 ^ Int.log 2 q := by
      apply one_le_zpow₀ (by norm_num)
      simpa using Int.log_mono_right (b := 2) (by norm_num) h
    have hdiv : ((2 ^ 23 : Nat) : ℚ) ≤ |q| / single.lastBit q := by
      rw [le_div_iff₀ hpos, abs_of_nonneg (by linarith)]
      push_cast
      linarith
    have hround : ((2 ^ 23 : Nat) : ℚ) ≤ roundHalfEven (|q| / single.lastBit q) := by
      exact_mod_cast le_roundHalfEven hdiv
    have hall := mul_le_mul_of_nonneg_right hround hpos.le
    rw [nearest, if_neg (by linarith), one_mul]
    push_cast at hall
    linarith
  · have hnear := single.nearest_near q
    linarith

/-- A whole number of as many bits is a float. -/
theorem nearest_natCast {n : Nat} (h : n < 2 ^ 24) : single.nearest n = n := by
  rcases Nat.eq_zero_or_pos n with rfl | hpos
  · exact_mod_cast single.nearest_zero
  · have hone : (1 : ℚ) ≤ n := by exact_mod_cast hpos
    have hlog : Int.log 2 (n : ℚ) ≤ 23 := by
      rw [Int.log_natCast]
      have hlt := Nat.log_lt_of_lt_pow hpos.ne' h
      omega
    have hbit : single.lastBit n * (2 ^ (23 - Int.log 2 (n : ℚ)).toNat : Nat) = 1 := by
      have hcast : ((2 ^ (23 - Int.log 2 (n : ℚ)).toNat : Nat) : ℚ) =
          2 ^ (23 - Int.log 2 (n : ℚ)) := by
        push_cast
        rw [← zpow_natCast, Int.toNat_of_nonneg (by omega)]
      have hsame := lastBit_single hone
      have hlast : (2 : ℚ) ^ (23 : Int) = 2 ^ 23 := zpow_natCast 2 23
      rw [hcast, zpow_sub₀ (by norm_num), hlast, ← mul_div_assoc, hsame]
      exact div_self (zpow_pos (by norm_num) _).ne'
    have hwhole : |(n : ℚ)| / single.lastBit n =
        ((n * 2 ^ (23 - Int.log 2 (n : ℚ)).toNat : Nat) : ℚ) := by
      rw [abs_of_nonneg (by linarith), div_eq_iff (single.lastBit_pos _).ne', Nat.cast_mul,
        mul_assoc, mul_comm (_ : ℚ) (single.lastBit _), hbit, mul_one]
    rw [nearest, if_neg (by linarith), hwhole, roundHalfEven_natCast, Nat.cast_mul, mul_assoc,
      mul_comm (_ : ℚ) (single.lastBit _), hbit, mul_one, one_mul]

end FloatFormat

/-! ## Floats -/

/-- A float, whose zeros have no sign. -/
inductive Single where
  | finite (toRat : ℚ)
  | infinity (negative : Bool)
  | nan
deriving DecidableEq

namespace Single

open FloatFormat

/-- The nearest float; from half a last bit behind the largest one on there is none. -/
def ofRat (q : ℚ) : Single :=
  if |q| < 2 ^ 128 - 2 ^ 103 then finite (single.nearest q) else infinity (q < 0)

def neg : Single → Single
  | finite x => finite (-x)
  | infinity negative => infinity !negative
  | nan => nan

def add : Single → Single → Single
  | finite x, finite y => ofRat (x + y)
  | finite _, infinity negative | infinity negative, finite _ => infinity negative
  | infinity b, infinity c => if b = c then infinity b else nan
  | nan, _ | _, nan => nan

def mul : Single → Single → Single
  | finite x, finite y => ofRat (x * y)
  | finite x, infinity negative | infinity negative, finite x =>
    if x = 0 then nan else infinity (negative ^^ decide (x < 0))
  | infinity b, infinity c => infinity (b ^^ c)
  | nan, _ | _, nan => nan

def div : Single → Single → Single
  | finite x, finite y =>
    if y ≠ 0 then ofRat (x / y) else if x = 0 then nan else infinity (x < 0)
  | finite _, infinity _ => finite 0
  | infinity negative, finite x => infinity (negative ^^ decide (x < 0))
  | infinity _, infinity _ | nan, _ | _, nan => nan

def lt : Single → Single → Bool
  | finite x, finite y => x < y
  | finite _, infinity negative => !negative
  | infinity negative, finite _ => negative
  | infinity b, infinity c => b && !c
  | nan, _ | _, nan => false

/-- A number that `std::stof` throws for: one that is too large, or one below the normal floats
that is none itself. -/
def Throws (q : ℚ) : Prop :=
  2 ^ 128 - 2 ^ 103 ≤ |q| ∨ |q| < 2 ^ (-126 : Int) - 2 ^ (-151 : Int) ∧ single.nearest q ≠ q

instance (q : ℚ) : Decidable (Throws q) :=
  inferInstanceAs (Decidable (_ ∨ _))

/-- What `std::stof` makes of a number in `Value::get_float`, which catches what it throws. -/
def ofNumber (q : ℚ) : Single :=
  finite (if Throws q then 0 else single.nearest q)

/-- What is not infinite is a sum of finite floats. -/
theorem finite_of_add_eq_ofNumber {x y : Single} {q : ℚ} (h : add x y = ofNumber q) :
    ∃ a b, x = finite a ∧ y = finite b := by
  cases x <;> cases y
  case finite.finite a b => exact ⟨a, b, rfl, rfl⟩
  case infinity.infinity b c =>
    change (if b = c then infinity b else nan) = _ at h
    split_ifs at h
    all_goals cases h
  all_goals cases h

/-- `0.1` and `EPSILON` are doubles.  Where an `int` cannot hold a float, the machine gives the
smallest one. -/
instance : Floats Single where
  add := add
  sub x y := add x (neg y)
  mul := mul
  div := div
  neg := neg
  lt := lt
  le x y := lt x y || (x = y && x ≠ nan)
  ofInt n := ofRat n
  round
    | finite x => Floats.round x
    | _ => Int32.minValue
  epsilon := finite (double.nearest (1 / 1000000))
  tenths acc n :=
    let tenth := double.nearest (1 / 10)
    match acc with
    | finite x => ofRat (double.nearest (double.nearest (x * tenth) + double.nearest (n * tenth)))
    | acc => acc
  toInt
    | finite x => Floats.toInt x
    | _ => Int32.minValue
  doubleToStr
    | finite x => Floats.doubleToStr x
    | infinity negative => (if negative then [45] else []) ++ [105, 110, 102]
    | nan => [110, 97, 110]
  stof s := ofNumber (stofRat s)
  bits
    | finite x => Floats.bits x
    | infinity negative => if negative then Int32.ofInt (-0x800000) else 0x7f800000
    | nan => 0x7fc00000

end Single

end Sql

end ObHtap
