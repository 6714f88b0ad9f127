import Mathlib.Computability.RegularExpressions
import Mathlib.Tactic.IntervalCases
import ObHtap.Library.Calendar
import ObHtap.Library.Decimal
import ObHtap.Sql.Value

/-!
# Dates

Date literals and the texts of dates: the lexer's pattern (`lex_sql.l`), `Value::set_date`
(`value.cpp`) and `DateType` (`date_type.cpp`).
-/

namespace ObHtap

namespace Sql

/-! ## Date literals -/

/-- The bytes from one to another, both included. -/
def byteRange (lo hi : Nat) : RegularExpression UInt8 :=
  ((List.range' lo (hi + 1 - lo)).map fun c => .char (UInt8.ofNat c)).sum

/-- `QUOTE`. -/
def quote : RegularExpression UInt8 :=
  .char 39 + .char 34

/-- `0?[1-9]|1[012]`. -/
def monthPattern : RegularExpression UInt8 :=
  (1 + .char 48) * byteRange 49 57 + .char 49 * byteRange 48 50

/-- `0?[1-9]|[12][0-9]|3[01]`. -/
def dayPattern : RegularExpression UInt8 :=
  (1 + .char 48) * byteRange 49 57 + byteRange 49 50 * byteRange 48 57 +
    .char 51 * byteRange 48 49

/-- The pattern of `DATE_STR`. -/
def dateToken : RegularExpression UInt8 :=
  quote * byteRange 48 57 ^ 4 * .char 45 * monthPattern * .char 45 * dayPattern * quote

/-- `common::substr`: the bytes from one place to another, both included. -/
def substr (s : List UInt8) (n1 n2 : Nat) : List UInt8 :=
  (s.drop n1).take (n2 + 1 - n1)

/-- The text that the parser takes out of a literal. -/
def literalText (token : List UInt8) : List UInt8 :=
  substr token 1 (token.length - 2)

/-! ## Setting dates -/

/-- What setting a number sets of a value. -/
structure NumberContent where
  attrType : AttrType
  intValue : Int32
  length : Nat
  deriving DecidableEq

/-- `%d` of `sscanf`: the number and what comes behind it; none without a digit. -/
def scanInt (s : List UInt8) : Option (Int32 × List UInt8) :=
  let (sign, rest) := signAndRest s
  if rest.takeWhile isDigit = [] then none
  else
    let n := sign * ofDigits (rest.takeWhile isDigit)
    some (Int32.ofInt (max (-2 ^ 63) (min (2 ^ 63 - 1) n)), rest.dropWhile isDigit)

/-- `sscanf(s, "%d-%d-%d", &y, &m, &d)`: a number that is not read keeps what it was. -/
def scanDate (s : List UInt8) (y m d : Int32) : Int32 × Int32 × Int32 :=
  match scanInt s with
  | none => (y, m, d)
  | some (y, 45 :: s) =>
    match scanInt s with
    | none => (y, m, d)
    | some (m, 45 :: s) =>
      match scanInt s with
      | none => (y, m, d)
      | some (d, _) => (y, m, d)
    | some (m, _) => (y, m, d)
  | some (y, _) => (y, m, d)

/-- `mon`. -/
def mon : List Int :=
  [0, 31, 28, 31, 30, 31, 30, 31, 31, 30, 31, 30, 31]

/-- `check_date`. -/
def checkDate (y m d : Int) : Bool :=
  0 < y ∧ 0 < m ∧ m ≤ 12 ∧ 0 < d ∧
    d ≤ (if m = 2 ∧ (y % 400 = 0 ∨ y % 100 ≠ 0 ∧ y % 4 = 0) then 1 else 0) + mon.getD m.toNat 0

/-- The three numbers of `set_date` before `sscanf`, which are not initialized. -/
structure UnsetNumbers where
  y : Int32
  m : Int32
  d : Int32

/-- `Value::set_date` from a text. -/
def setDate (unset : UnsetNumbers) (s : List UInt8) : Except Fault NumberContent := do
  let (y, m, d) := scanDate s unset.y unset.m unset.d
  let attrType : AttrType := if checkDate y.toInt m.toInt d.toInt then .dates else .chars
  let years ← Value.checkedInt (y.toInt * 10000)
  let months ← Value.checkedInt (m.toInt * 100)
  let dv ← Value.checkedInt ((← Value.checkedInt (years.toInt + months.toInt)).toInt + d.toInt)
  return ⟨attrType, dv, 4⟩

/-! ## Texts of dates -/

/-- `DateType::to_string` without a format. -/
def dateText (value : Int32) : List UInt8 :=
  let year := value.toInt.tdiv 10000
  let month := (value.toInt.tdiv 100).tmod 100
  let day := value.toInt.tmod 100
  zeroPadded 4 (decimal year) ++ 45 :: zeroPadded 2 (decimal month) ++
    45 :: zeroPadded 2 (decimal day)

/-- `DateType::set_value_from_str`, which reads a number and sets it with `set_int`. -/
def setValueFromStr (data : List UInt8) : Except Fault NumberContent :=
  let (sign, rest) := signAndRest data
  let n := sign * ofDigits (rest.takeWhile isDigit)
  if rest.takeWhile isDigit = [] ∨ n < -2147483648 ∨ 2147483647 < n ∨
      rest.dropWhile isDigit ≠ [] then .error (.rc .schemaFieldTypeMismatch)
  else .ok ⟨.ints, Int32.ofInt n, 4⟩

/-- The ways to a date from its text. -/
inductive DateParser where
  /-- A date literal of a statement, set by `Value::set_date`. -/
  | setDate
  /-- A field of a loaded file, set by `DateType::set_value_from_str`. -/
  | setValueFromStr
  deriving DecidableEq

def DateParser.parse (unset : UnsetNumbers) (text : List UInt8) :
    DateParser → Except Fault NumberContent
  | setDate =>
    if [39] ++ text ++ [39] ∈ dateToken.matches' then
      Sql.setDate unset (literalText ([39] ++ text ++ [39]))
    else .error (.rc .invalidArgument)
  | setValueFromStr => Sql.setValueFromStr text

/-! ## What the lexer accepts -/

theorem mem_sum_matches {α : Type} (ps : List (RegularExpression α)) (w : List α) :
    w ∈ ps.sum.matches' ↔ ∃ p ∈ ps, w ∈ p.matches' := by
  induction ps with
  | nil => simp
  | cons p ps ih =>
    rw [List.sum_cons, RegularExpression.matches'_add, Language.mem_add, ih,
      List.exists_mem_cons_iff]

theorem mem_char {α : Type} (a : α) (w : List α) :
    w ∈ (RegularExpression.char a).matches' ↔ w = [a] :=
  Iff.rfl

theorem mem_byteRange {lo hi : Nat} (h : hi < 256) (w : List UInt8) :
    w ∈ (byteRange lo hi).matches' ↔ ∃ c : UInt8, lo ≤ c.toNat ∧ c.toNat ≤ hi ∧ w = [c] := by
  rw [byteRange, mem_sum_matches]
  simp only [List.mem_map, List.mem_range'_1]
  constructor
  · rintro ⟨p, ⟨n, ⟨hlo, hhi⟩, rfl⟩, hw⟩
    have hn : (UInt8.ofNat n).toNat = n := UInt8.toNat_ofNat_of_lt (by simp [UInt8.size]; omega)
    exact ⟨UInt8.ofNat n, by omega, by omega, (mem_char _ _).mp hw⟩
  · rintro ⟨c, hlo, hhi, rfl⟩
    exact ⟨.char c, ⟨c.toNat, ⟨hlo, by omega⟩, by rw [UInt8.ofNat_toNat]⟩, (mem_char _ _).mpr rfl⟩

theorem isDigit_iff (c : UInt8) : isDigit c ↔ 48 ≤ c.toNat ∧ c.toNat ≤ 57 := by
  simp [isDigit, UInt8.le_iff_toNat_le]

/-- A text of decimal digits. -/
def Digits (s : List UInt8) : Prop :=
  s ≠ [] ∧ ∀ c ∈ s, isDigit c

theorem mem_digits_pow {n : Nat} {w : List UInt8} :
    w ∈ (byteRange 48 57 ^ n).matches' ↔ w.length = n ∧ ∀ c ∈ w, isDigit c := by
  rw [RegularExpression.matches'_pow]
  induction n generalizing w with
  | zero =>
    rw [pow_zero, Language.mem_one, List.length_eq_zero_iff]
    exact ⟨fun h => ⟨h, fun c hc => by simp [h] at hc⟩, And.left⟩
  | succ n ih =>
    rw [pow_succ', Language.mem_mul]
    constructor
    · rintro ⟨s, hs, t, ht, rfl⟩
      obtain ⟨c, hlo, hhi, rfl⟩ := (mem_byteRange (by omega) s).mp hs
      obtain ⟨hlen, hdigits⟩ := ih.mp ht
      refine ⟨by simp [hlen], fun c' hc' => ?_⟩
      rcases List.mem_cons.mp hc' with rfl | hc'
      · exact (isDigit_iff _).mpr ⟨hlo, hhi⟩
      · exact hdigits c' hc'
    · rintro ⟨hlen, hdigits⟩
      cases w with
      | nil => simp at hlen
      | cons c w =>
        have hc := (isDigit_iff c).mp (hdigits c List.mem_cons_self)
        refine ⟨[c], (mem_byteRange (by omega) _).mpr ⟨c, hc.1, hc.2, rfl⟩, w, ih.mpr ⟨?_, ?_⟩, rfl⟩
        · simpa using hlen
        · exact fun c' hc' => hdigits c' (List.mem_cons_of_mem _ hc')

/-- The year, month and day of a date literal and what stands around them. -/
theorem mem_dateToken {token : List UInt8} :
    token ∈ dateToken.matches' ↔ ∃ q q' : UInt8, ∃ ys ms ds, (q = 39 ∨ q = 34) ∧
      (q' = 39 ∨ q' = 34) ∧ (ys.length = 4 ∧ ∀ c ∈ ys, isDigit c) ∧ ms ∈ monthPattern.matches' ∧
      ds ∈ dayPattern.matches' ∧ token = q :: (ys ++ 45 :: ms ++ 45 :: ds) ++ [q'] := by
  have hquote (w : List UInt8) : w ∈ quote.matches' ↔ ∃ q : UInt8, (q = 39 ∨ q = 34) ∧ w = [q] := by
    rw [quote, RegularExpression.matches'_add, Language.mem_add, mem_char, mem_char]
    constructor
    · rintro (rfl | rfl)
      · exact ⟨39, .inl rfl, rfl⟩
      · exact ⟨34, .inr rfl, rfl⟩
    · rintro ⟨q, rfl | rfl, rfl⟩
      · exact .inl rfl
      · exact .inr rfl
  simp only [dateToken, RegularExpression.matches'_mul, Language.mem_mul]
  constructor
  · rintro ⟨_, ⟨_, ⟨_, ⟨_, ⟨_, ⟨a, ha, ys, hys, rfl⟩, b, hb, rfl⟩, ms, hms, rfl⟩, b', hb', rfl⟩,
      ds, hds, rfl⟩, z, hz, rfl⟩
    obtain ⟨q, hq, rfl⟩ := (hquote a).mp ha
    obtain ⟨q', hq', rfl⟩ := (hquote z).mp hz
    rw [mem_char] at hb hb'
    refine ⟨q, q', ys, ms, ds, hq, hq', mem_digits_pow.mp hys, hms, hds, ?_⟩
    simp [hb, hb']
  · rintro ⟨q, q', ys, ms, ds, hq, hq', hys, hms, hds, rfl⟩
    refine ⟨_, ⟨_, ⟨_, ⟨_, ⟨_, ⟨[q], (hquote _).mpr ⟨q, hq, rfl⟩, ys, mem_digits_pow.mpr hys, rfl⟩,
      [45], (mem_char _ _).mpr rfl, rfl⟩, ms, hms, rfl⟩, [45], (mem_char _ _).mpr rfl, rfl⟩,
      ds, hds, rfl⟩, [q'], (hquote _).mpr ⟨q', hq', rfl⟩, ?_⟩
    simp

/-- A digit with or without a zero in front. -/
theorem mem_zero_opt {w : List UInt8} :
    w ∈ ((1 + .char 48) * byteRange 49 57 : RegularExpression UInt8).matches' ↔
      ∃ c : UInt8, (49 ≤ c.toNat ∧ c.toNat ≤ 57) ∧ (w = [c] ∨ w = [48, c]) := by
  rw [RegularExpression.matches'_mul, Language.mem_mul]
  simp only [RegularExpression.matches'_add, Language.mem_add, RegularExpression.matches'_epsilon,
    Language.mem_one, mem_char]
  constructor
  · rintro ⟨_, rfl | rfl, _, ht, rfl⟩
    all_goals obtain ⟨c, hlo, hhi, rfl⟩ := (mem_byteRange (by omega) _).mp ht
    · exact ⟨c, ⟨hlo, hhi⟩, .inl rfl⟩
    · exact ⟨c, ⟨hlo, hhi⟩, .inr rfl⟩
  · rintro ⟨c, ⟨hlo, hhi⟩, rfl | rfl⟩
    · exact ⟨[], .inl rfl, [c], (mem_byteRange (by omega) _).mpr ⟨c, hlo, hhi, rfl⟩, rfl⟩
    · exact ⟨[48], .inr rfl, [c], (mem_byteRange (by omega) _).mpr ⟨c, hlo, hhi, rfl⟩, rfl⟩

/-- Two digits, the second one out of a range. -/
theorem mem_char_mul {a : UInt8} {lo hi : Nat} (h : hi < 256) {w : List UInt8} :
    w ∈ (.char a * byteRange lo hi : RegularExpression UInt8).matches' ↔
      ∃ c : UInt8, (lo ≤ c.toNat ∧ c.toNat ≤ hi) ∧ w = [a, c] := by
  rw [RegularExpression.matches'_mul, Language.mem_mul]
  constructor
  · rintro ⟨s, hs, t, ht, rfl⟩
    obtain ⟨c, hlo, hhi, rfl⟩ := (mem_byteRange h t).mp ht
    exact ⟨c, ⟨hlo, hhi⟩, by rw [(mem_char a s).mp hs]; rfl⟩
  · rintro ⟨c, ⟨hlo, hhi⟩, rfl⟩
    exact ⟨[a], (mem_char a _).mpr rfl, [c], (mem_byteRange h _).mpr ⟨c, hlo, hhi, rfl⟩, rfl⟩

theorem ofDigits_singleton (c : UInt8) : ofDigits [c] = c.toNat - 48 := by
  simp [ofDigits]

theorem ofDigits_pair (c c' : UInt8) :
    ofDigits [c, c'] = 10 * (c.toNat - 48) + (c'.toNat - 48) := by
  simp [ofDigits]

/-- The texts of one or two digits whose numbers lie between one and a bound. -/
def NumberUpTo (bound : Nat) (w : List UInt8) : Prop :=
  (w.length = 1 ∨ w.length = 2) ∧ (∀ c ∈ w, isDigit c) ∧ 1 ≤ ofDigits w ∧ ofDigits w ≤ bound

theorem numberUpTo_singleton {bound : Nat} {c : UInt8} :
    NumberUpTo bound [c] ↔ (49 ≤ c.toNat ∧ c.toNat ≤ 57) ∧ c.toNat - 48 ≤ bound := by
  simp only [NumberUpTo, List.length_singleton, true_or, true_and, List.mem_singleton, forall_eq,
    isDigit_iff, ofDigits_singleton]
  omega

theorem numberUpTo_pair {bound : Nat} {c c' : UInt8} :
    NumberUpTo bound [c, c'] ↔ (48 ≤ c.toNat ∧ c.toNat ≤ 57) ∧ (48 ≤ c'.toNat ∧ c'.toNat ≤ 57) ∧
      1 ≤ 10 * (c.toNat - 48) + (c'.toNat - 48) ∧
      10 * (c.toNat - 48) + (c'.toNat - 48) ≤ bound := by
  simp only [NumberUpTo, List.length_cons, List.length_nil, List.mem_cons, List.not_mem_nil,
    or_false, forall_eq_or_imp, forall_eq, isDigit_iff, ofDigits_pair, Nat.reduceAdd,
    Nat.reduceEqDiff, or_true, true_and, and_assoc]

theorem mem_monthPattern {w : List UInt8} : w ∈ monthPattern.matches' ↔ NumberUpTo 12 w := by
  rw [monthPattern, RegularExpression.matches'_add, Language.mem_add, mem_zero_opt,
    mem_char_mul (by omega)]
  constructor
  · rintro (⟨c, hc, rfl | rfl⟩ | ⟨c, hc, rfl⟩)
    · exact numberUpTo_singleton.mpr ⟨hc, by omega⟩
    · exact numberUpTo_pair.mpr ⟨by decide, by omega, by simp; omega⟩
    · exact numberUpTo_pair.mpr ⟨by decide, by omega, by simp; omega⟩
  · intro h
    rcases h.1 with hlen | hlen
    · obtain ⟨c, rfl⟩ := List.length_eq_one_iff.mp hlen
      exact .inl ⟨c, (numberUpTo_singleton.mp h).1, .inl rfl⟩
    · obtain ⟨a, c, rfl⟩ := List.length_eq_two.mp hlen
      obtain ⟨ha, hc, hlo, hhi⟩ := numberUpTo_pair.mp h
      rcases Nat.lt_or_ge a.toNat 49 with hlt | hge
      · obtain rfl : a = 48 := UInt8.toNat_inj.mp (show a.toNat = 48 by omega)
        exact .inl ⟨c, by omega, .inr rfl⟩
      · obtain rfl : a = 49 := UInt8.toNat_inj.mp (show a.toNat = 49 by omega)
        exact .inr ⟨c, by omega, rfl⟩

theorem mem_dayPattern {w : List UInt8} : w ∈ dayPattern.matches' ↔ NumberUpTo 31 w := by
  rw [dayPattern, RegularExpression.matches'_add, RegularExpression.matches'_add, Language.mem_add,
    Language.mem_add, mem_zero_opt, mem_char_mul (by omega), RegularExpression.matches'_mul,
    Language.mem_mul]
  constructor
  · rintro ((⟨c, hc, rfl | rfl⟩ | ⟨s, hs, t, ht, rfl⟩) | ⟨c, hc, rfl⟩)
    · exact numberUpTo_singleton.mpr ⟨hc, by omega⟩
    · exact numberUpTo_pair.mpr ⟨by decide, by omega, by simp; omega⟩
    · obtain ⟨a, ha, ha', rfl⟩ := (mem_byteRange (by omega) s).mp hs
      obtain ⟨c, hc, hc', rfl⟩ := (mem_byteRange (by omega) t).mp ht
      exact numberUpTo_pair.mpr ⟨by omega, by omega, by omega, by omega⟩
    · exact numberUpTo_pair.mpr ⟨by decide, by omega, by simp; omega⟩
  · intro h
    rcases h.1 with hlen | hlen
    · obtain ⟨c, rfl⟩ := List.length_eq_one_iff.mp hlen
      exact .inl (.inl ⟨c, (numberUpTo_singleton.mp h).1, .inl rfl⟩)
    · obtain ⟨a, c, rfl⟩ := List.length_eq_two.mp hlen
      obtain ⟨ha, hc, hlo, hhi⟩ := numberUpTo_pair.mp h
      rcases Nat.lt_or_ge a.toNat 49 with hlt | hge
      · obtain rfl : a = 48 := UInt8.toNat_inj.mp (show a.toNat = 48 by omega)
        exact .inl (.inl ⟨c, by omega, .inr rfl⟩)
      · rcases Nat.lt_or_ge a.toNat 51 with hlt | hge'
        · exact .inl (.inr ⟨[a], (mem_byteRange (by omega) _).mpr ⟨a, hge, by omega, rfl⟩, [c],
            (mem_byteRange (by omega) _).mpr ⟨c, hc.1, hc.2, rfl⟩, rfl⟩)
        · obtain rfl : a = 51 := UInt8.toNat_inj.mp (show a.toNat = 51 by omega)
          exact .inr ⟨c, by omega, rfl⟩

end Sql

end ObHtap
