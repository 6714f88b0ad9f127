import Mathlib.Algebra.Order.Ring.Pow
import Mathlib.Data.List.TakeWhile
import Mathlib.Tactic.FieldSimp
import Mathlib.Tactic.Positivity
import ObHtap.Sql.DateLaws
import ObHtap.Sql.Expression
import ObHtap.Sql.SingleFloat

/-!
# Casts between strings and numbers

`CharType::cast_to` reads digits by hand, `Value::get_int` and `Value::get_float` call the standard
library, and `IntegerType::cast_to` prints.  Floats have single precision.
-/

namespace ObHtap

namespace Sql

/-! ## Printed numbers -/

theorem byteArray_toList (bytes : ByteArray) : bytes.toList = bytes.data.toList := by
  have hloop (n i : Nat) (read : List UInt8) (hn : bytes.size - i = n) :
      ByteArray.toList.loop bytes i read = read.reverse ++ bytes.data.toList.drop i := by
    induction n generalizing i read with
    | zero =>
      rw [ByteArray.toList.loop, if_neg (by omega), List.drop_eq_nil_of_le, List.append_nil]
      rw [Array.length_toList]
      exact Nat.le_of_sub_eq_zero hn
    | succ n ih =>
      have hi : i < bytes.data.toList.length := by
        rw [Array.length_toList]
        exact Nat.lt_of_sub_eq_succ hn
      have hget : bytes.get! i = bytes.data.toList[i] := by
        have hsize : i < bytes.size := Nat.lt_of_sub_eq_succ hn
        simp [ByteArray.get!, getElem!_pos, hsize]
      rw [ByteArray.toList.loop, if_pos (Nat.lt_of_sub_eq_succ hn), ih (i + 1) _ (by omega), hget,
        List.reverse_cons, List.append_assoc, List.singleton_append, List.drop_eq_getElem_cons hi]
  exact hloop _ 0 [] rfl

theorem utf8_digits (n : Nat) :
    (Nat.toDigits 10 n).flatMap String.utf8EncodeChar = decimalDigits n := by
  have hdigit (d : Nat) (hd : d < 10) :
      String.utf8EncodeChar d.digitChar = [UInt8.ofNat (48 + d)] := by
    interval_cases d <;> rfl
  induction n using Nat.strongRecOn with
  | ind n ih =>
    rcases Nat.lt_or_ge n 10 with hlt | hge
    · rw [Nat.toDigits_of_lt_base hlt, decimalDigits_of_lt hlt, List.flatMap_singleton,
        hdigit n hlt]
    · rw [Nat.toDigits_of_base_le (by omega) hge, decimalDigits_of_le hge, List.flatMap_append,
        ih (n / 10) (by omega), List.flatMap_singleton, hdigit _ (Nat.mod_lt n (by omega))]

theorem utf8_repr (n : Nat) : n.repr.toUTF8.toList = decimalDigits n := by
  rw [byteArray_toList, String.toUTF8_eq_toByteArray, Nat.repr_eq_ofList_toDigits,
    String.toByteArray_ofList, List.utf8Encode, List.toList_data_toByteArray, utf8_digits]

/-- The text of an `int` is its decimal text. -/
theorem printInt_eq (v : Int32) : Value.printInt v = decimal v.toInt := by
  rw [Value.printInt]
  cases v.toInt with
  | ofNat n => exact (utf8_repr n).trans (decimal_natCast n).symm
  | negSucc n =>
    rw [decimal, if_pos (Int.negSucc_lt_zero n)]
    have hrepr := utf8_repr (n + 1)
    rw [byteArray_toList] at hrepr
    change ("-" ++ (n + 1).repr).toUTF8.toList = _
    rw [byteArray_toList, String.toUTF8_eq_toByteArray, String.toByteArray_append,
      ByteArray.toList_data_append]
    exact congrArg (45 :: ·) hrepr

/-! ## The number at the front of a string -/

/-- A string behind its sign. -/
def unsigned (s : List UInt8) : List UInt8 :=
  (signOf s).2

/-- The digits of a string, behind its sign. -/
def wholeDigits (s : List UInt8) : List UInt8 :=
  (unsigned s).takeWhile isDigit

/-- The digits of a string behind the point, and what comes behind them. -/
def fractionDigits (s : List UInt8) : List UInt8 × List UInt8 :=
  fractionOf isDigit ((unsigned s).dropWhile isDigit)

def Signed (s : List UInt8) : Prop :=
  s.head? = some 45 ∨ s.head? = some 43

/-- The number at the front of a string without its fraction; zero when there is none. -/
def wholeNumber (s : List UInt8) : Int :=
  (signOf s).1 * ofDigits (wholeDigits s)

/-- The number at the front of a string; zero when there is none. -/
def numberOf (s : List UInt8) : ℚ :=
  (signOf s).1 * (ofDigits (wholeDigits s) +
    ofDigits (fractionDigits s).1 / (10 ^ (fractionDigits s).1.length : ℕ))

/-- A string starts with a number for the standard library, whose infinity and NaN are words. -/
def startsNumber (s : List UInt8) : Bool :=
  wholeDigits s ≠ [] || (fractionDigits s).1 ≠ [] ||
    [[105, 110, 102], [110, 97, 110]].any fun word => word.isPrefixOf ((unsigned s).map toLower)

def isBlankByte (c : UInt8) : Bool :=
  c = 32 ∨ 9 ≤ c ∧ c ≤ 13

/-- Behind the sign, the digits and the fraction comes no numeric text: no exponent, none that
makes the number hexadecimal, and none for a number where there is none yet. -/
structure EndsNumber (s : List UInt8) : Prop where
  blank : ∀ c, s.head? = some c → isBlankByte c = true →
    startsNumber (s.dropWhile isBlankByte) = false
  word : startsNumber s = true → wholeDigits s ≠ [] ∨ (fractionDigits s).1 ≠ []
  hex : hexOf? (unsigned s) = none
  exponent : exponentOf 69 (fractionDigits s).2 = 0

/-! ## What the conversions read -/

theorem ofDigits_append (s t : List UInt8) :
    ofDigits (s ++ t) = ofDigits s * 10 ^ t.length + ofDigits t := by
  induction t using List.reverseRecOn with
  | nil => simp [ofDigits]
  | append_singleton t c ih =>
    rw [← List.append_assoc, ofDigits_concat, ofDigits_concat, ih, List.length_append,
      List.length_singleton, Nat.pow_succ]
    ring

theorem signAndRest_eq (s : List UInt8) : signAndRest s = signOf (s.dropWhile isBlankByte) :=
  rfl

theorem signAndRest_of_not_blank {s : List UInt8}
    (h : ∀ c, s.head? = some c → isBlankByte c = false) : signAndRest s = signOf s := by
  rw [signAndRest_eq]
  cases s with
  | nil => rfl
  | cons c s => rw [List.dropWhile_cons_of_neg (by simp [h c rfl])]

theorem signOf_of_not_sign {s : List UInt8} (h : ¬ Signed s) : signOf s = (1, s) := by
  unfold signOf
  split
  · exact absurd (.inl rfl) h
  · exact absurd (.inr rfl) h
  · rfl

theorem fractionOf_of_ne {s : List UInt8} (h : s.head? ≠ some 46) :
    fractionOf isDigit s = ([], s) := by
  unfold fractionOf
  split
  · exact absurd rfl h
  · rfl

/-- A string whose first byte is no sign, digit or point starts with no number. -/
theorem noNumber_of_head {s : List UInt8} {c : UInt8} (hhead : s.head? = some c)
    (hc : isBlankByte c = true) :
    wholeNumber s = 0 ∧ numberOf s = 0 := by
  have hne : isDigit c = false ∧ c ≠ 45 ∧ c ≠ 43 ∧ c ≠ 46 := by
    have hbytes : c.toNat = 32 ∨ 9 ≤ c.toNat ∧ c.toNat ≤ 13 := by
      simpa [isBlankByte, UInt8.le_iff_toNat_le, ← UInt8.toNat_inj] using hc
    refine ⟨?_, ?_, ?_, ?_⟩
    · rw [Bool.eq_false_iff, ne_eq, isDigit_iff]
      omega
    all_goals
      rintro rfl
      revert hbytes
      decide
  obtain ⟨tail, rfl⟩ := List.head?_eq_some_iff.mp hhead
  have hsign : signOf (c :: tail) = (1, c :: tail) := by
    apply signOf_of_not_sign
    rintro (h | h)
    · exact hne.2.1 (Option.some.inj h)
    · exact hne.2.2.1 (Option.some.inj h)
  have hdigits : wholeDigits (c :: tail) = [] := by
    rw [wholeDigits, unsigned, hsign, List.takeWhile_cons_of_neg (by simp [hne.1])]
  have hfraction : (fractionDigits (c :: tail)).1 = [] := by
    rw [fractionDigits, unsigned, hsign, List.dropWhile_cons_of_neg (by simp [hne.1]),
      fractionOf_of_ne (by simpa using hne.2.2.2)]
  rw [wholeNumber, numberOf, hdigits, hfraction]
  constructor <;> simp [ofDigits]

theorem hexOf_of_no_digits {s : List UInt8} (h : s.takeWhile isDigit = []) : hexOf? s = none := by
  unfold hexOf?
  split
  · rw [List.takeWhile_cons_of_pos (by decide)] at h
    cases h
  · rfl

theorem no_digits_of_startsNumber {s : List UInt8} (h : startsNumber s = false) :
    wholeDigits s = [] ∧ (fractionDigits s).1 = [] := by
  rw [startsNumber, Bool.or_eq_false_iff, Bool.or_eq_false_iff] at h
  simpa using h.1

theorem stofRat_of {s t : List UInt8} (hsign : signAndRest s = signOf t)
    (hhex : hexOf? (unsigned t) = none) :
    stofRat s = (signOf t).1 * scaled (ofDigits (wholeDigits t ++ (fractionDigits t).1)) 10
      (fractionDigits t).1.length 10 (exponentOf 69 (fractionDigits t).2) := by
  unfold unsigned at hhex
  rw [stofRat, hsign]
  simp only [hhex]
  rfl

theorem stol_of {s t : List UInt8} (hsign : signAndRest s = signOf t) :
    stol s = if -2 ^ 63 ≤ wholeNumber t ∧ wholeNumber t < 2 ^ 63 then Int32.ofInt (wholeNumber t)
      else 0 := by
  rw [stol, hsign]
  rfl

/-- The standard library skips blanks, behind which no number stands. -/
theorem signAndRest_cases {s : List UInt8} (h : EndsNumber s) :
    signAndRest s = signOf s ∨ ∃ t, signAndRest s = signOf t ∧ wholeDigits t = [] ∧
      (fractionDigits t).1 = [] ∧ wholeNumber s = 0 ∧ numberOf s = 0 := by
  by_cases hblank : ∃ c, s.head? = some c ∧ isBlankByte c = true
  · obtain ⟨c, hhead, hc⟩ := hblank
    obtain ⟨hdigits, hfraction⟩ := no_digits_of_startsNumber (h.blank c hhead hc)
    exact .inr ⟨_, signAndRest_eq s, hdigits, hfraction, noNumber_of_head hhead hc⟩
  · exact .inl (signAndRest_of_not_blank fun c hc =>
      Bool.eq_false_iff.mpr fun hb => hblank ⟨c, hc, hb⟩)

/-- `std::stof` reads the number. -/
theorem stofRat_eq {s : List UInt8} (h : EndsNumber s) : stofRat s = numberOf s := by
  rcases signAndRest_cases h with hsign | ⟨t, hsign, hdigits, hfraction, -, hzero⟩
  · have hpow : ((10 ^ (fractionDigits s).1.length : ℕ) : ℚ) ≠ 0 := by positivity
    rw [stofRat_of hsign h.hex, h.exponent, ofDigits_append, scaled, numberOf]
    push_cast at hpow ⊢
    field_simp
  · rw [stofRat_of hsign (hexOf_of_no_digits hdigits), hdigits, hfraction, hzero]
    simp [ofDigits, scaled]

/-- `std::stol` reads the number without its fraction, as far as a `long` goes. -/
theorem stol_eq {s : List UInt8} (h : EndsNumber s) :
    stol s = if -2 ^ 63 ≤ wholeNumber s ∧ wholeNumber s < 2 ^ 63 then Int32.ofInt (wholeNumber s)
      else 0 := by
  rcases signAndRest_cases h with hsign | ⟨t, hsign, hdigits, -, hzero, -⟩
  · exact stol_of hsign
  · have hwhole : wholeNumber t = 0 := by
      rw [wholeNumber, hdigits]
      simp [ofDigits]
    rw [stol_of hsign, hwhole, hzero]

/-- `CharType::cast_to` reads digits to the largest `int`. -/
theorem prefixInt_eq (s : List UInt8) :
    Value.prefixInt s =
      if ofDigits (s.takeWhile isDigit) ≤ 2147483647 then
        .ok (Int32.ofInt (ofDigits (s.takeWhile isDigit)))
      else .error .abort := by
  have hdigits : ∀ c ∈ s.takeWhile isDigit, isDigit c := fun c hc => List.mem_takeWhile_imp hc
  rw [Value.prefixInt]
  generalize s.takeWhile isDigit = digits at hdigits
  induction digits using List.reverseRecOn with
  | nil => rfl
  | append_singleton digits c ih =>
    have hc := (isDigit_iff c).mp (hdigits c (by simp))
    have hbefore := ih fun c' hc' => hdigits c' (List.mem_append_left _ hc')
    rw [List.foldlM_append, hbefore, ofDigits_concat]
    by_cases hle : ofDigits digits ≤ 2147483647
    · rw [if_pos hle, ok_bind, List.foldlM_cons, toInt_ofInt (by omega)]
      by_cases hten : ofDigits digits * 10 ≤ 2147483647
      · have hint : (Int32.ofInt ((ofDigits digits : Int) * 10)).toInt =
            (ofDigits digits : Int) * 10 :=
          toInt_ofInt (by omega)
        have hcast : (c.toNat - 48 : Int) = ((c.toNat - 48 : Nat) : Int) := by omega
        rw [checkedInt_of (by omega), ok_bind, hint, hcast, Value.checkedInt]
        by_cases hall : 10 * ofDigits digits + (c.toNat - 48) ≤ 2147483647
        · rw [if_pos (by omega), if_pos hall]
          have hsum : (ofDigits digits : Int) * 10 + ((c.toNat - 48 : Nat) : Int) =
              ((10 * ofDigits digits + (c.toNat - 48) : Nat) : Int) := by omega
          rw [hsum]
          rfl
        · rw [if_neg (by omega), if_neg hall]
          rfl
      · rw [Value.checkedInt, if_neg (by omega), if_neg (by omega)]
        rfl
    · rw [if_neg hle, if_neg (by omega)]
      rfl

/-- A digit behind others, rounded twice. -/
def addDigit (acc : Single) (c : UInt8) : Single :=
  acc * Floats.ofInt 10 + Floats.ofInt (c.toNat - 48 : Int)

/-- Digits in front of a point, each rounded when it comes. -/
def wholeSum (digits : List UInt8) : Single :=
  digits.foldl addDigit (Floats.ofInt 0)

/-- Digits behind a point, each rounded when it comes, the last one first. -/
def fractionSum (digits : List UInt8) : Single :=
  digits.foldr (fun c acc => Floats.tenths acc (c.toNat - 48 : Int)) (Floats.ofInt 0)

/-- `CharType::cast_to` for `FLOATS`. -/
theorem prefixFloat_def (s : List UInt8) :
    (Value.prefixFloat s : Single) =
      let fraction := ((s.dropWhile isDigit).drop 1).takeWhile isDigit
      if s.takeWhile isDigit ≠ [] ∧ (s.dropWhile isDigit).head? = some 46 then
        if fraction = [] then addDigit (wholeSum (s.takeWhile isDigit)) 46 + Floats.ofInt 0
        else wholeSum (s.takeWhile isDigit) + fractionSum fraction
      else wholeSum (s.takeWhile isDigit) + Floats.ofInt 0 := by
  simp only [wholeSum, ← List.foldl_concat]
  rfl

/-- Without digits at the front nothing is read. -/
theorem prefixFloat_zero {s : List UInt8} (h : s.takeWhile isDigit = []) :
    (Value.prefixFloat s : Single) = .finite 0 := by
  have hzero : wholeSum [] + Floats.ofInt 0 = .finite 0 := by decide +kernel
  rw [prefixFloat_def, h]
  exact hzero

/-- Digits that a point without a digit follows. -/
def EndsInPoint (s : List UInt8) : Prop :=
  ((unsigned s).dropWhile isDigit).head? = some 46 ∧ (fractionDigits s).1 = []

instance (s : List UInt8) : Decidable (EndsInPoint s) :=
  inferInstanceAs (Decidable (_ ∧ _))

theorem fractionOf_of_head {s : List UInt8} (h : s.head? = some 46) :
    (fractionOf isDigit s).1 = (s.drop 1).takeWhile isDigit := by
  obtain ⟨tail, rfl⟩ := List.head?_eq_some_iff.mp h
  rfl

/-- The digits are added up, with a point at their end, which counts as one. -/
theorem prefixFloat_eq {s : List UInt8} (hsign : ¬ Signed s) (hdigits : wholeDigits s ≠ []) :
    (Value.prefixFloat s : Single) =
      if EndsInPoint s then addDigit (wholeSum (wholeDigits s)) 46 + Floats.ofInt 0
      else wholeSum (wholeDigits s) + fractionSum (fractionDigits s).1 := by
  have hsame : unsigned s = s := by rw [unsigned, signOf_of_not_sign hsign]
  have hends : EndsInPoint s ↔ (s.dropWhile isDigit).head? = some 46 ∧
      (fractionOf isDigit (s.dropWhile isDigit)).1 = [] := by
    rw [EndsInPoint, fractionDigits, hsame]
  rw [wholeDigits, hsame] at hdigits
  rw [prefixFloat_def, if_congr hends rfl rfl, wholeDigits, fractionDigits, hsame]
  by_cases hpoint : (s.dropWhile isDigit).head? = some 46
  · rw [fractionOf_of_head hpoint, if_pos ⟨hdigits, hpoint⟩]
    by_cases hempty : ((s.dropWhile isDigit).drop 1).takeWhile isDigit = []
    · rw [if_pos hempty, if_pos ⟨hpoint, hempty⟩]
    · rw [if_neg hempty, if_neg fun h => hempty h.2]
  · rw [if_neg fun h => hpoint h.2, if_neg fun h => hpoint h.1, fractionOf_of_ne hpoint]
    rfl

/-- What the digits of a number leave: infinity, or a float that is not far below the number. -/
inductive Tracks : Single → Nat → Prop
  | infinity (n : Nat) : Tracks (.infinity false) n
  | zero : Tracks (.finite 0) 0
  | near {x : ℚ} {n k : Nat} (hone : 1 ≤ x) (hnear : (1 - 1 / 2 ^ 24) ^ (2 * k) * n ≤ x)
      (hdigits : 10 ^ k ≤ 10 * n) : Tracks (.finite x) n

/-- A sum of at least one, rounded. -/
theorem ofRat_cases {q : ℚ} (h : 1 ≤ q) : Single.ofRat q = .infinity false ∨
    ∃ x, Single.ofRat q = .finite x ∧ 1 ≤ x ∧ (1 - 1 / 2 ^ 24) * q ≤ x := by
  rw [Single.ofRat]
  split_ifs
  · obtain ⟨hone, hnear⟩ := FloatFormat.nearest_single h
    refine .inr ⟨_, rfl, hone, ?_⟩
    have hle := (abs_le.mp hnear).1
    linarith
  · rw [decide_eq_false (by linarith)]
    exact .inl rfl

theorem ofInt_digit {d : Nat} (h : d < 2 ^ 24) : (Floats.ofInt (d : Int) : Single) = .finite d := by
  have hsize : |(d : ℚ)| < 2 ^ 128 - 2 ^ 103 := by
    have hlt : (d : ℚ) < 2 ^ 24 := by exact_mod_cast h
    rw [abs_of_nonneg (by positivity)]
    linarith
  change Single.ofRat ((d : Int) : ℚ) = _
  rw [Int.cast_natCast, Single.ofRat, if_pos hsize, FloatFormat.nearest_natCast h]

/-- A sum times ten and another number, from one on. -/
theorem addDigit_cases {x : ℚ} {c : UInt8} {d : ℚ} (hx : 1 ≤ x) (hd : -2 ≤ d)
    (hc : (Floats.ofInt (c.toNat - 48 : Int) : Single) = .finite d) :
    addDigit (.finite x) c = .infinity false ∨ ∃ y, addDigit (.finite x) c = .finite y ∧ 1 ≤ y ∧
      (1 - 1 / 2 ^ 24) * ((1 - 1 / 2 ^ 24) * (10 * x) + d) ≤ y := by
  have hten : (Floats.ofInt 10 : Single) = .finite 10 := ofInt_digit (by norm_num)
  have hmul : addDigit (.finite x) c = Single.add (Single.ofRat (x * 10)) (.finite d) := by
    rw [addDigit, hten, hc]
    rfl
  rw [hmul]
  rcases ofRat_cases (by linarith : 1 ≤ x * 10) with hinf | ⟨y, hy, -, hnear⟩
  · rw [hinf]
    exact .inl rfl
  · rw [hy]
    rcases ofRat_cases (by linarith : 1 ≤ y + d) with hinf | ⟨z, hz, hone, hle⟩
    · exact .inl hinf
    · exact .inr ⟨z, hz, hone, by linarith⟩

theorem addDigit_infinity {c : UInt8} {d : ℚ}
    (hc : (Floats.ofInt (c.toNat - 48 : Int) : Single) = .finite d) :
    addDigit (.infinity false) c = .infinity false := by
  have hmul : (Single.infinity false) * Floats.ofInt 10 = .infinity false := by decide +kernel
  rw [addDigit, hmul, hc]
  rfl

theorem addDigit_tracks {acc : Single} {n : Nat} {c : UInt8} (h : Tracks acc n) (hc : isDigit c) :
    Tracks (addDigit acc c) (10 * n + (c.toNat - 48)) := by
  obtain ⟨hlow, hhigh⟩ := (isDigit_iff c).mp hc
  have hcast : (c.toNat - 48 : Int) = ((c.toNat - 48 : Nat) : Int) := by omega
  have hdigit : (Floats.ofInt (c.toNat - 48 : Int) : Single) = .finite (c.toNat - 48 : Nat) := by
    rw [hcast]
    exact ofInt_digit (by omega)
  cases h with
  | infinity =>
    rw [addDigit_infinity hdigit]
    exact .infinity _
  | zero =>
    have hsum : addDigit (.finite 0) c = .finite (c.toNat - 48 : Nat) := by
      have hmul : Single.finite 0 * Floats.ofInt 10 = .finite 0 := by decide +kernel
      rw [addDigit, hmul, hdigit]
      change Single.ofRat _ = _
      rw [zero_add]
      exact ofInt_digit (by omega)
    rw [hsum, Nat.mul_zero, Nat.zero_add]
    rcases Nat.eq_zero_or_pos (c.toNat - 48) with hzero | hpos
    · rw [hzero]
      exact_mod_cast Tracks.zero
    · have hone : (1 : ℚ) ≤ (c.toNat - 48 : Nat) := by exact_mod_cast hpos
      exact .near (k := 1) hone (by norm_num; linarith) (by omega)
  | @near x n k hone hnear hdigits =>
    have hd : (0 : ℚ) ≤ (c.toNat - 48 : Nat) := Nat.cast_nonneg _
    rcases addDigit_cases hone (by linarith) hdigit with hinf | ⟨y, hy, hle, hsum⟩
    · rw [hinf]
      exact .infinity _
    · rw [hy]
      refine .near (k := k + 1) hle ?_ (by rw [pow_succ]; omega)
      generalize (c.toNat - 48 : Nat) = d at hsum ⊢
      have hpow : (1 - 1 / 2 ^ 24 : ℚ) ^ (2 * k + 1) ≤ 1 := pow_le_one₀ (by norm_num) (by norm_num)
      have hd : (1 - 1 / 2 ^ 24 : ℚ) ^ (2 * k + 1) * d ≤ 1 * d :=
        mul_le_mul_of_nonneg_right hpow d.cast_nonneg
      have hexp : (1 - 1 / 2 ^ 24 : ℚ) ^ (2 * (k + 1)) * ((10 * n + d : Nat) : ℚ) =
          (1 - 1 / 2 ^ 24) * ((1 - 1 / 2 ^ 24) * (10 * ((1 - 1 / 2 ^ 24) ^ (2 * k) * n)) +
            (1 - 1 / 2 ^ 24) ^ (2 * k + 1) * d) := by
        push_cast
        ring
      rw [hexp]
      linarith

theorem tracks_wholeSum {digits : List UInt8} (h : ∀ c ∈ digits, isDigit c) :
    Tracks (wholeSum digits) (ofDigits digits) := by
  induction digits using List.reverseRecOn with
  | nil =>
    have hzero : wholeSum [] = .finite 0 := by decide +kernel
    rw [hzero]
    exact .zero
  | append_singleton digits c ih =>
    rw [wholeSum, List.foldl_concat, ofDigits_concat]
    exact addDigit_tracks (ih fun c' hc' => h c' (List.mem_append_left _ hc')) (h c (by simp))

/-- The digits of a number that a float holds are few, and so are the errors. -/
theorem half_le_of_near {x : ℚ} {n k : Nat} (hnear : (1 - 1 / 2 ^ 24) ^ (2 * k) * n ≤ x)
    (hdigits : 10 ^ k ≤ 10 * n) (h : n < 2 ^ 128) : (n : ℚ) ≤ 2 * x := by
  have hk : k < 40 := by
    by_contra hge
    have hpow : 10 ^ 40 ≤ 10 ^ k := Nat.pow_le_pow_right (by norm_num) (not_lt.mp hge)
    norm_num at hpow h
    omega
  have hbernoulli : 1 + (2 * k : Nat) * (-(1 / 2 ^ 24) : ℚ) ≤ (1 + -(1 / 2 ^ 24)) ^ (2 * k) :=
    one_add_mul_le_pow (by norm_num) _
  have hhalf : (1 / 2 : ℚ) ≤ (1 - 1 / 2 ^ 24) ^ (2 * k) := by
    have hcast : (k : ℚ) ≤ 39 := by exact_mod_cast Nat.le_of_lt_succ hk
    rw [sub_eq_add_neg]
    refine le_trans ?_ hbernoulli
    push_cast
    linarith
  have hscaled := mul_le_mul_of_nonneg_right hhalf n.cast_nonneg
  linarith

/-- A point that counts as a digit is noticed: the sum is about ten times the number. -/
theorem pointSum_ne {s : List UInt8} (hsign : ¬ Signed s) (h : EndsInPoint s) :
    addDigit (wholeSum (wholeDigits s)) 46 + Floats.ofInt 0 ≠ Single.ofNumber (numberOf s) := by
  have hnumber : numberOf s = ofDigits (wholeDigits s) := by
    rw [numberOf, h.2, signOf_of_not_sign hsign]
    simp [ofDigits]
  have hpoint : (Floats.ofInt ((46 : UInt8).toNat - 48 : Int) : Single) = .finite (-2) := by
    decide +kernel
  have htracks : Tracks (wholeSum (wholeDigits s)) (ofDigits (wholeDigits s)) :=
    tracks_wholeSum fun c hc => List.mem_takeWhile_imp hc
  rw [hnumber]
  generalize wholeSum (wholeDigits s) = acc at htracks ⊢
  generalize ofDigits (wholeDigits s) = n at htracks ⊢
  have hzero : (Floats.ofInt 0 : Single) = .finite 0 := by decide +kernel
  rw [hzero]
  cases htracks with
  | infinity =>
    rw [addDigit_infinity hpoint]
    rintro hsame
    cases hsame
  | zero => decide +kernel
  | @near x n k hone hnear hdigits =>
    rcases addDigit_cases hone le_rfl hpoint with hinf | ⟨y, hy, hle, hsum⟩
    · rw [hinf]
      rintro hsame
      cases hsame
    rw [hy]
    change Single.ofRat (y + 0) ≠ _
    rw [add_zero]
    rcases ofRat_cases hle with hinf | ⟨z, hz, hpos, hnext⟩
    · rw [hinf]
      rintro hsame
      cases hsame
    rw [hz, Single.ofNumber, ne_eq, Single.finite.injEq]
    rintro rfl
    split_ifs at hpos hnext with hthrows
    · linarith
    · have hlt : n < 2 ^ 128 := by
        have hsize : |(n : ℚ)| < 2 ^ 128 - 2 ^ 103 := not_le.mp fun hle => hthrows (.inl hle)
        rw [abs_of_nonneg n.cast_nonneg] at hsize
        have hcast : (n : ℚ) < ((2 ^ 128 : Nat) : ℚ) := by
          push_cast
          linarith
        exact_mod_cast hcast
      have hn : (1 : ℚ) ≤ n := by
        have hpow : 0 < 10 ^ k := Nat.pow_pos (by norm_num)
        exact_mod_cast (by omega : 1 ≤ n)
      have hhalf := half_le_of_near hnear hdigits hlt
      have hupper := (abs_le.mp (FloatFormat.nearest_single hn).2).2
      linarith

/-- With a sign, the digit loops of `CharType::cast_to` stop at once. -/
theorem takeWhile_of_sign {s : List UInt8} (h : Signed s) : s.takeWhile isDigit = [] := by
  rcases h with h | h <;>
  · obtain ⟨tail, rfl⟩ := List.head?_eq_some_iff.mp h
    rfl

theorem wholeNumber_of_not_sign {s : List UInt8} (h : ¬ Signed s) :
    wholeNumber s = ofDigits (s.takeWhile isDigit) := by
  rw [wholeNumber, wholeDigits, unsigned, signOf_of_not_sign h, one_mul]

/-! ## Faithful casts -/

def IsInt (n : Int) : Prop :=
  -2 ^ 31 ≤ n ∧ n < 2 ^ 31

def IsLong (n : Int) : Prop :=
  -2 ^ 63 ≤ n ∧ n < 2 ^ 63

/-- An `int` cast to `CHARS` and back is the same. -/
def IntRoundTrips (v : Int32) : Prop :=
  ∃ text : Value Single, (Value.ints v).castTo .chars = .ok text ∧ text.castTo .ints = .ok (.ints v)

/-- A string cast to `INTS` is the number at its front, or some number that is not the wrapped one,
and `get_int` gives the same. -/
def CastsToInt (s : List UInt8) : Prop :=
  ∃ n : Int32, (Value.chars (some s) : Value Single).castTo .ints = .ok (.ints n) ∧
    (IsInt (wholeNumber s) → n.toInt = wholeNumber s) ∧
    (¬ IsInt (wholeNumber s) → n ≠ Int32.ofInt (wholeNumber s)) ∧
    (Value.chars (some s) : Value Single).getInt = n

/-- A string cast to `FLOATS` is what `get_float` gives, and that is the float nearest to the number
at its front unless `std::stof` throws for the number. -/
def CastsToFloat (s : List UInt8) : Prop :=
  ∃ x : Single, (Value.chars (some s)).castTo .floats = .ok (.floats x) ∧
    (¬ Single.Throws (numberOf s) → x = .finite (FloatFormat.single.nearest (numberOf s))) ∧
    (Value.chars (some s)).getFloat = x

/-- A cast that succeeds sets the type. -/
def SetsType (handler : Option (Int32 → Except Fault (List Single))) (value : Value Single)
    (type : AttrType) : Prop :=
  ∀ result, value.castWith handler type = .ok result → result.attrType = type

theorem map_ints_eq {x : Except Fault Int32} {n : Int32} :
    x.map (Value.ints (F := Single)) = .ok (.ints n) ↔ x = .ok n := by
  cases x with
  | error fault => exact ⟨nofun, nofun⟩
  | ok m =>
    constructor
    · rintro h
      cases h
      rfl
    · rintro h
      cases h
      rfl

theorem ofDigits_decimalDigits (n : Nat) : ofDigits (decimalDigits n) = n := by
  induction n using Nat.strongRecOn with
  | ind n ih =>
    rcases Nat.lt_or_ge n 10 with hlt | hge
    · rw [decimalDigits_of_lt hlt, ofDigits_singleton, toNat_digit hlt]
      omega
    · have hdigit : n % 10 < 10 := Nat.mod_lt n (by omega)
      rw [decimalDigits_of_le hge, ofDigits_concat, ih (n / 10) (by omega), toNat_digit hdigit]
      omega

/-- Casts read the digits of a number that is not negative. -/
theorem prefixInt_decimalDigits {n : Nat} (h : n ≤ 2147483647) :
    Value.prefixInt (decimalDigits n) = .ok (Int32.ofInt n) := by
  have hall : (decimalDigits n).takeWhile isDigit = decimalDigits n := by
    apply List.takeWhile_eq_self_iff.mpr
    intro c hc
    have hdigit := mem_decimalDigits hc
    exact (isDigit_iff c).mpr (by omega)
  rw [prefixInt_eq, hall, ofDigits_decimalDigits, if_pos h]

theorem intRoundTrips_iff (v : Int32) : IntRoundTrips v ↔ 0 ≤ v.toInt := by
  have hcasts : IntRoundTrips v ↔ Value.prefixInt (decimal v.toInt) = .ok v := by
    rw [← printInt_eq]
    constructor
    · rintro ⟨text, htext, hback⟩
      cases htext
      exact map_ints_eq.mp hback
    · rintro hback
      exact ⟨.ofBytes (Value.printInt v), rfl, map_ints_eq.mpr hback⟩
  rw [hcasts]
  rcases lt_or_ge v.toInt 0 with hneg | hpos
  · have hzero : Value.prefixInt (decimal v.toInt) = .ok 0 := by
      rw [decimal, if_pos hneg, prefixInt_eq]
      rfl
    rw [hzero]
    constructor
    · rintro h
      cases h
      exact absurd hneg (by decide)
    · rintro h
      omega
  · obtain ⟨n, hn⟩ := Int.eq_ofNat_of_zero_le hpos
    have hle : v.toInt ≤ 2147483647 := v.toInt_le
    have hsame : Int32.ofInt n = v := by rw [← hn, Int32.ofInt_toInt]
    rw [hn, decimal_natCast, prefixInt_decimalDigits (by omega), hsame]
    simp

theorem ofInt_eq_zero_iff (n : Int) : Int32.ofInt n = 0 ↔ (2 ^ 32 : Int) ∣ n := by
  have hzero : (0 : Int32).toInt = 0 := rfl
  rw [← Int32.toInt_inj, Int32.toInt_ofInt, hzero]
  exact Int.dvd_iff_bmod_eq_zero.symm

instance (n : Int) : Decidable (IsLong n) :=
  inferInstanceAs (Decidable (_ ∧ _))

instance (n : Int) : Decidable (IsInt n) :=
  inferInstanceAs (Decidable (_ ∧ _))

/-- The strings that are cast to `INTS` as they should: those without a sign, up to the largest
`int`, and with a sign those that are zero or too large for a `long`. -/
def ReadsInt (s : List UInt8) : Prop :=
  (IsInt (wholeNumber s) → ¬ Signed s ∨ wholeNumber s = 0) ∧
    (¬ IsInt (wholeNumber s) →
      Signed s ∧ ¬ IsLong (wholeNumber s) ∧ ¬ (2 ^ 32 : Int) ∣ wholeNumber s)

theorem castsToInt_iff {s : List UInt8} (h : EndsNumber s) : CastsToInt s ↔ ReadsInt s := by
  have hget : (Value.chars (some s) : Value Single).getInt =
      if IsLong (wholeNumber s) then Int32.ofInt (wholeNumber s) else 0 :=
    stol_eq h
  have hcast (n : Int32) : (Value.chars (some s) : Value Single).castTo .ints = .ok (.ints n) ↔
      Value.prefixInt s = .ok n :=
    map_ints_eq
  simp only [CastsToInt, ReadsInt, hget, hcast]
  by_cases hsign : Signed s
  · have hread : Value.prefixInt s = .ok 0 := by
      rw [prefixInt_eq, takeWhile_of_sign hsign]
      rfl
    rw [hread]
    constructor
    · rintro ⟨n, hn, hin, hout, hsame⟩
      cases hn
      refine ⟨fun hrange => .inr (hin hrange).symm, fun hrange => ?_⟩
      have hdvd := mt (ofInt_eq_zero_iff _).mpr (hout hrange).symm
      refine ⟨hsign, ?_, hdvd⟩
      rintro hlong
      rw [if_pos hlong, ofInt_eq_zero_iff] at hsame
      exact hdvd hsame
    · rintro ⟨hin, hout⟩
      refine ⟨0, rfl, fun hrange => ?_, fun hrange => ?_, ?_⟩
      · exact ((hin hrange).resolve_left (not_not_intro hsign)).symm
      · exact Ne.symm (mt (ofInt_eq_zero_iff _).mp (hout hrange).2.2)
      · by_cases hrange : IsInt (wholeNumber s)
        · rw [(hin hrange).resolve_left (not_not_intro hsign)]
          rfl
        · rw [if_neg (hout hrange).2.1]
  · have hwhole := wholeNumber_of_not_sign hsign
    rw [prefixInt_eq]
    by_cases hrange : IsInt (wholeNumber s)
    · have hle : ofDigits (s.takeWhile isDigit) ≤ 2147483647 := by
        have hlt := hrange.2
        omega
      have hint : (Int32.ofInt (wholeNumber s)).toInt = wholeNumber s := by
        have hbounds := hrange
        rw [IsInt] at hbounds
        exact toInt_ofInt (by omega)
      have hlong : IsLong (wholeNumber s) := by
        rw [IsInt] at hrange
        rw [IsLong]
        omega
      rw [if_pos hle, ← hwhole, if_pos hlong]
      constructor
      · rintro -
        exact ⟨fun _ => .inl hsign, fun hnot => absurd hrange hnot⟩
      · rintro -
        exact ⟨_, rfl, fun _ => hint, fun hnot => absurd hrange hnot, rfl⟩
    · have hlarge : ¬ ofDigits (s.takeWhile isDigit) ≤ 2147483647 := by
        rw [IsInt, hwhole] at hrange
        omega
      rw [if_neg hlarge]
      constructor
      · rintro ⟨n, hn, -⟩
        cases hn
      · rintro ⟨-, hout⟩
        exact absurd (hout hrange).1 hsign

/-- The errors of rounding after each digit, before and behind the point, take the number to no other
float. -/
def RoundsAlike (s : List UInt8) : Prop :=
  ∃ before behind : ℚ,
    wholeSum (wholeDigits s) = .finite (ofDigits (wholeDigits s) + before) ∧
      fractionSum (fractionDigits s).1 =
        .finite (ofDigits (fractionDigits s).1 / (10 ^ (fractionDigits s).1.length : ℕ) + behind) ∧
      Single.ofRat (numberOf s + (before + behind)) = Single.ofNumber (numberOf s)

/-- The strings that are cast to `FLOATS` as they should: a number without a sign and with a digit
in front of the point has one behind the point, and rounding after each digit does it no harm; any
other is zero, or one that `std::stof` throws for. -/
def ReadsFloat (s : List UInt8) : Prop :=
  (¬ Signed s → wholeDigits s ≠ [] → ¬ EndsInPoint s ∧ RoundsAlike s) ∧
    (Signed s ∨ wholeDigits s = [] → numberOf s = 0 ∨ Single.Throws (numberOf s))

/-- The conversion and `get_float` agree. -/
theorem castsToFloat_iff_prefixFloat {s : List UInt8} (h : EndsNumber s) :
    CastsToFloat s ↔ (Value.prefixFloat s : Single) = Single.ofNumber (numberOf s) := by
  have hget : (Value.chars (some s)).getFloat = Single.ofNumber (numberOf s) :=
    congrArg Single.ofNumber (stofRat_eq h)
  constructor
  · rintro ⟨x, hcast, -, hsame⟩
    have hread : (Value.prefixFloat s : Single) = x := Value.floats.inj (Except.ok.inj hcast)
    rw [hread, ← hsame, hget]
  · rintro hread
    refine ⟨_, rfl, fun hreads => ?_, hget.trans hread.symm⟩
    exact hread.trans (congrArg Single.finite (if_neg hreads))

theorem ofNumber_eq_zero_iff (q : ℚ) :
    Single.ofNumber q = .finite 0 ↔ q = 0 ∨ Single.Throws q := by
  rw [Single.ofNumber, Single.finite.injEq]
  split_ifs with hthrows
  · exact iff_of_true rfl (.inr hthrows)
  · rw [or_iff_left hthrows]
    constructor
    · rintro hzero
      by_contra hne
      exact hthrows (.inr (FloatFormat.small_of_nearest_eq_zero hne hzero))
    · rintro rfl
      exact FloatFormat.single.nearest_zero

/-- The sum of the rounded digits is the number with the errors. -/
theorem roundsAlike_iff {s : List UInt8} (hsign : ¬ Signed s) :
    RoundsAlike s ↔ wholeSum (wholeDigits s) + fractionSum (fractionDigits s).1 =
      Single.ofNumber (numberOf s) := by
  have hnumber : numberOf s = ofDigits (wholeDigits s) +
      ofDigits (fractionDigits s).1 / (10 ^ (fractionDigits s).1.length : ℕ) := by
    rw [numberOf, signOf_of_not_sign hsign]
    push_cast
    ring
  constructor
  · rintro ⟨before, behind, hwhole, hfraction, hsame⟩
    rw [hwhole, hfraction, ← hsame, hnumber]
    refine congrArg Single.ofRat ?_
    ring
  · rintro hsum
    obtain ⟨whole, fraction, hwhole, hfraction⟩ := Single.finite_of_add_eq_ofNumber hsum
    refine ⟨whole - ofDigits (wholeDigits s), fraction - ofDigits (fractionDigits s).1 /
      (10 ^ (fractionDigits s).1.length : ℕ), ?_, ?_, ?_⟩
    · rw [hwhole, add_sub_cancel]
    · rw [hfraction, add_sub_cancel]
    · rw [← hsum, hwhole, hfraction, hnumber]
      refine congrArg Single.ofRat ?_
      ring

theorem castsToFloat_iff {s : List UInt8} (h : EndsNumber s) : CastsToFloat s ↔ ReadsFloat s := by
  rw [castsToFloat_iff_prefixFloat h, ReadsFloat]
  by_cases hnone : Signed s ∨ wholeDigits s = []
  · have hdigits : s.takeWhile isDigit = [] := by
      by_cases hsign : Signed s
      · exact takeWhile_of_sign hsign
      · have hwhole := hnone.resolve_left hsign
        rwa [wholeDigits, unsigned, signOf_of_not_sign hsign] at hwhole
    rw [prefixFloat_zero hdigits, eq_comm, ofNumber_eq_zero_iff]
    constructor
    · rintro hzero
      exact ⟨fun hsign hwhole => absurd hnone (not_or.mpr ⟨hsign, hwhole⟩), fun _ => hzero⟩
    · rintro ⟨-, hzero⟩
      exact hzero hnone
  · obtain ⟨hsign, hwhole⟩ := not_or.mp hnone
    rw [prefixFloat_eq hsign hwhole]
    constructor
    · rintro hread
      refine ⟨fun _ _ => ?_, fun hsome => absurd hsome hnone⟩
      have hends : ¬ EndsInPoint s := by
        rintro hends
        rw [if_pos hends] at hread
        exact pointSum_ne hsign hends hread
      rw [if_neg hends] at hread
      exact ⟨hends, (roundsAlike_iff hsign).mpr hread⟩
    · rintro ⟨hreads, -⟩
      obtain ⟨hends, halike⟩ := hreads hsign hwhole
      rw [if_neg hends]
      exact (roundsAlike_iff hsign).mp halike

/-- A value that has a vector in pages, which can be read. -/
def ReadsVector (handler : Option (Int32 → Except Fault (List Single))) (value : Value Single) : Prop :=
  ∃ page elements elems,
    value = .highVectors page ∧ handler = some elements ∧ elements page = .ok elems

theorem castWith_of_ne {handler : Option (Int32 → Except Fault (List Single))} {value : Value Single}
    (h : ∀ page, value ≠ .highVectors page) (type : AttrType) :
    value.castWith handler type = value.castTo type := by
  unfold Value.castWith
  split
  · exact absurd rfl (h _)
  · rfl

theorem attrType_castTo (value : Value Single) {result : Value Single} {type : AttrType}
    (h : value.castTo type = .ok result) : result.attrType = type := by
  unfold Value.castTo at h
  split at h
  case h_7 pointer =>
    cases hread : Value.prefixInt (pointer.getD []) with
    | error fault =>
      rw [hread] at h
      cases h
    | ok n =>
      rw [hread] at h
      cases h
      rfl
  case h_9 | h_10 | h_11 | h_12 | h_13 => cases h
  all_goals
    cases h
    rfl

theorem setsType_iff (handler : Option (Int32 → Except Fault (List Single))) (value : Value Single)
    (type : AttrType) :
    SetsType handler value type ↔ (ReadsVector handler value → type = .vectors) := by
  constructor
  · rintro h ⟨page, elements, elems, rfl, rfl, hread⟩
    have hcast : (Value.highVectors page).castWith (some elements) type = .ok (.vectors elems) :=
      congrArg (Except.map Value.vectors) hread
    exact (h _ hcast).symm
  · rintro h result hcast
    by_cases hpages : ∃ page, value = .highVectors page
    · obtain ⟨page, rfl⟩ := hpages
      cases handler with
      | none => exact attrType_castTo (.highVectors page) hcast
      | some elements =>
        change (elements page).map Value.vectors = .ok result at hcast
        cases hread : elements page with
        | error fault => simp [hread, Except.map] at hcast
        | ok elems =>
          simp only [hread, Except.map, Except.ok.injEq] at hcast
          rw [← hcast]
          exact (h ⟨page, elements, elems, rfl, rfl, hread⟩).symm
    · rw [castWith_of_ne fun page hpage => hpages ⟨page, hpage⟩] at hcast
      exact attrType_castTo value hcast

/-- `12 apples`. -/
def apples : List UInt8 :=
  [49, 50, 32, 97, 112, 112, 108, 101, 115]

theorem endsNumber_apples : EndsNumber apples := by
  constructor
  · rintro c hc hblank
    cases hc
    revert hblank
    decide
  all_goals decide

end Sql

end ObHtap
