import Mathlib.Data.Rat.Defs
import Mathlib.Algebra.Order.Ring.Unbundled.Rat
import ObHtap.Common.RC
import ObHtap.Library.Decimal
import ObHtap.Table.FieldMeta

/-!
# Values

`Value` with its comparisons and conversions (`value.cpp`, `common/type/`).  `Value::compare` and
`Value::cast_to` ask the type of their first argument.
-/

namespace ObHtap

namespace Sql

/-- The floats of the machine. -/
class Floats (F : Type) extends Add F, Sub F, Mul F, Div F, Neg F where
  lt : F → F → Bool
  le : F → F → Bool
  ofInt : Int → F
  /-- `std::round`, converted to `int`. -/
  round : F → Int32
  /-- `EPSILON`. -/
  epsilon : F
  /-- `acc * 0.1 + n * 0.1`, computed in double precision. -/
  tenths (acc : F) (n : Int) : F
  /-- The conversion to `int`, which cuts the fraction off. -/
  toInt : F → Int32
  /-- `common::double_to_str`. -/
  doubleToStr : F → List UInt8
  /-- `std::stof`; zero when it throws. -/
  stof : List UInt8 → F
  /-- The four bytes, read as an `int`. -/
  bits : F → Int32

inductive Value (F : Type) where
  | undefined
  /-- `none` is a null pointer, which is what a copy of an empty string has. -/
  | chars (pointer : Option (List UInt8))
  | ints (value : Int32)
  | floats (value : F)
  | booleans (value : Bool)
  | vectors (elems : List F)
  | dates (value : Int32)
  | nulls
  | texts (page : Int32)
  | highVectors (page : Int32)
  | valuesLists (values : List (Value F))

/-- `INT32_MAX`. -/
def int32Max : Int :=
  2147483647

def isDigit (c : UInt8) : Bool :=
  48 ≤ c ∧ c ≤ 57

/-- The number that a string of digits is. -/
def ofDigits (s : List UInt8) : Nat :=
  s.foldl (fun n c => 10 * n + (c.toNat - 48)) 0

/-- A string with an optional sign in front, as a sign and the rest, as the conversions of the
standard library skip blanks. -/
def signAndRest (s : List UInt8) : Int × List UInt8 :=
  match s.dropWhile fun c => c = 32 ∨ 9 ≤ c ∧ c ≤ 13 with
  | 45 :: rest => (-1, rest)
  | 43 :: rest => (1, rest)
  | rest => (1, rest)

/-- `std::stol`, as an `int`; zero when it throws. -/
def stol (s : List UInt8) : Int32 :=
  let n := (signAndRest s).1 * ofDigits ((signAndRest s).2.takeWhile isDigit)
  if -2 ^ 63 ≤ n ∧ n < 2 ^ 63 then Int32.ofInt n else 0

/-- `common::compare_int`. -/
def compareInt (v₁ v₂ : Int32) : Int :=
  if v₂ < v₁ then 1 else if v₁ < v₂ then -1 else 0

/-- `common::compare_string`; a string has no NUL inside. -/
def compareString : List UInt8 → List UInt8 → Int
  | [], [] => 0
  | _ :: _, [] => 1
  | [], _ :: _ => -1
  | c :: s, c' :: s' => if c < c' then -1 else if c' < c then 1 else compareString s s'

section

variable {F : Type} [Floats F]

/-- `common::compare_float`. -/
def compareFloat (v₁ v₂ : F) : Int :=
  if Floats.lt Floats.epsilon (v₁ - v₂) then 1
  else if Floats.lt (v₁ - v₂) (-Floats.epsilon) then -1
  else 0

namespace Value

def attrType : Value F → AttrType
  | undefined => .undefined
  | chars _ => .chars
  | ints _ => .ints
  | floats _ => .floats
  | booleans _ => .booleans
  | vectors _ => .vectors
  | dates _ => .dates
  | nulls => .nulls
  | texts _ => .texts
  | highVectors _ => .highVectors
  | valuesLists _ => .valuesLists

def isNull (value : Value F) : Bool :=
  value.attrType = .nulls

/-- `VectorType::compare`; a vector that is too short is read past its end. -/
def compareVectors : List F → List F → Except Fault Int
  | [], _ => .ok 0
  | _ :: _, [] => .error .abort
  | x :: xs, y :: ys => if compareFloat x y = 0 then compareVectors xs ys else .ok (compareFloat x y)

/-- `Value::compare`, with what a number does with a list on its right.  A type that refuses the
other one fails an `ASSERT`; `DATES` lets `FLOATS` pass and reads their bytes as a date. -/
def compareBy (onList : Value F → Value F → Except Fault Int) :
    Value F → Value F → Except Fault Int
  | valuesLists [front], right => compareBy onList front right
  | valuesLists _, _ => .ok int32Max
  | nulls, nulls => .ok 0
  | nulls, _ => .ok (-int32Max)
  | vectors elems, vectors elems' => compareVectors elems elems'
  | undefined, _ | booleans _, _ | vectors _, _ | texts _, _ | highVectors _, _ => .ok int32Max
  | ints _, nulls | floats _, nulls | dates _, nulls | chars _, nulls => .ok int32Max
  | ints v, ints v' => .ok (compareInt v v')
  | ints v, floats v' => .ok (compareFloat (Floats.ofInt v.toInt) v')
  | floats v, ints v' => .ok (compareFloat v (Floats.ofInt v'.toInt))
  | floats v, floats v' => .ok (compareFloat v v')
  | left@(ints _), right@(valuesLists _) | left@(floats _), right@(valuesLists _) =>
    (onList right left).map (- ·)
  | dates v, dates v' => .ok (compareInt v v')
  | dates v, floats v' => .ok (compareInt v (Floats.bits v'))
  | chars s, chars s' => .ok (compareString (s.getD []) (s'.getD []))
  | ints _, _ | floats _, _ | dates _, _ | chars _, _ => .error .abort

/-- `Value::compare`: what a number calls for a list on its right, `right.compare(left)`, has the
number on the right. -/
def compare (left right : Value F) : Except Fault Int :=
  compareBy (compareBy fun _ _ => .error .abort) left right

/-- `Value::get_int`. -/
def getInt : Value F → Int32
  | chars pointer => stol (pointer.getD [])
  | ints v | dates v | texts v | highVectors v => v
  | floats v => Floats.toInt v
  | booleans b => if b then 1 else 0
  | _ => 0

/-- `Value::get_float`; a date has none. -/
def getFloat : Value F → F
  | chars pointer => Floats.stof (pointer.getD [])
  | ints v => Floats.ofInt v.toInt
  | floats v => v
  | booleans b => Floats.ofInt (if b then 1 else 0)
  | _ => Floats.ofInt 0

/-- `Value::get_boolean`; for a null pointer `std::stof` throws. -/
def getBoolean : Value F → Bool
  | chars pointer => pointer.isSome
  | ints v => v ≠ 0
  | floats v => Floats.le Floats.epsilon v || Floats.le v (-Floats.epsilon)
  | booleans b => b
  | texts page => page ≠ 0
  | _ => false

/-- An `int` result, which must not overflow. -/
def checkedInt (n : Int) : Except Fault Int32 :=
  if -2147483648 ≤ n ∧ n ≤ 2147483647 then .ok (Int32.ofInt n) else .error .abort

/-- The digits at the front of a string, as `CharType::cast_to` reads them for `INTS`. -/
def prefixInt (s : List UInt8) : Except Fault Int32 :=
  (s.takeWhile isDigit).foldlM
    (fun ans c => do checkedInt ((← checkedInt (ans.toInt * 10)).toInt + (c.toNat - 48 : Int))) 0

/-- The decimal number at the front of a string, as `CharType::cast_to` reads it for `FLOATS`.  A
point without digits behind it is read as a digit. -/
def prefixFloat (s : List UInt8) : F :=
  let step (acc : F) (c : UInt8) : F := acc * Floats.ofInt 10 + Floats.ofInt (c.toNat - 48 : Int)
  let intPart := s.takeWhile isDigit
  let rest := s.dropWhile isDigit
  let decPart := (rest.drop 1).takeWhile isDigit
  let zero : F := Floats.ofInt 0
  if intPart ≠ [] ∧ rest.head? = some 46 then
    if decPart = [] then (intPart ++ [46]).foldl step zero + zero
    else intPart.foldl step zero +
      decPart.foldr (fun c acc => Floats.tenths acc (c.toNat - 48 : Int)) zero
  else intPart.foldl step zero + zero

/-- The decimal digits of an `int`. -/
def printInt (v : Int32) : List UInt8 :=
  (toString v.toInt).toUTF8.toList

/-- `set_string` of a string with the given bytes. -/
def ofBytes (bytes : List UInt8) : Value F :=
  chars (some bytes)

/-- `Value::cast_to`, without a handler of vectors. -/
def castTo : Value F → AttrType → Except Fault (Value F)
  | ints v, .chars => .ok (ofBytes (printInt v))
  | ints v, .floats => .ok (floats (Floats.ofInt v.toInt))
  | ints v, .ints => .ok (ints v)
  | floats v, .chars => .ok (ofBytes (Floats.doubleToStr v))
  | floats v, .floats => .ok (floats v)
  | floats v, .ints => .ok (ints (Floats.round v))
  | chars pointer, .ints => (prefixInt (pointer.getD [])).map ints
  | chars pointer, .floats => .ok (floats (prefixFloat (pointer.getD [])))
  | ints _, _ | floats _, _ | chars _, _ => .error (.rc .unimplemented)
  | highVectors _, _ => .error (.rc .error)
  | _, _ => .error (.rc .unsupported)

/-- `Value::cast_to` with the elements of the vectors in pages, which `HighVectorType::cast_to`
reads whatever the type is. -/
def castWith (handler : Option (Int32 → Except Fault (List F))) :
    Value F → AttrType → Except Fault (Value F)
  | highVectors page, type =>
    match handler with
    | none => (highVectors page).castTo type
    | some elements => (elements page).map vectors
  | value, type => value.castTo type

end Value

end

/-- The bits of single precision; a number between two floats has those of the one nearer to zero,
and one with an exponent that is too small those of zero. -/
def bitsOfRat (q : ℚ) : Int32 :=
  let n : Nat := (|q| * 2 ^ 149).floor.toNat
  let exponent : Nat := n.log2 - 23
  let mantissa : Nat := n / 2 ^ exponent
  let bits : Nat := if n.log2 < 23 then n else (exponent + 1) * 2 ^ 23 + (mantissa - 2 ^ 23)
  Int32.ofInt (if q < 0 then (bits : Int) - 2 ^ 31 else bits)

/-- A rational that is not negative as a whole number, a half to the even one. -/
def roundHalfEven (q : ℚ) : Nat :=
  let n := q.floor.toNat
  if q - n < 1 / 2 ∨ q - n = 1 / 2 ∧ n % 2 = 0 then n else n + 1

/-- A text without the zeros at its end, and without a point that is then the last byte. -/
def trimZeros (text : List UInt8) : List UInt8 :=
  let kept := text.reverse.dropWhile (· = 48)
  (if kept.head? = some 46 then kept.drop 1 else kept).reverse

/-- `common::double_to_str`, which prints two decimals with `%.2f` and takes the zeros off. -/
def ratToStr (q : ℚ) : List UInt8 :=
  let hundredths := roundHalfEven (|q| * 100)
  trimZeros ((if q < 0 then [45] else []) ++ decimalDigits (hundredths / 100) ++
    46 :: fixedDigits 2 hundredths)

/-- A sign at the front of a text, and the rest. -/
def signOf : List UInt8 → Int × List UInt8
  | 45 :: rest => (-1, rest)
  | 43 :: rest => (1, rest)
  | rest => (1, rest)

/-- The digits behind a point at the front of a text, and the rest. -/
def fractionOf (isDigit : UInt8 → Bool) : List UInt8 → List UInt8 × List UInt8
  | 46 :: rest => (rest.takeWhile isDigit, rest.dropWhile isDigit)
  | rest => ([], rest)

/-- The exponent at the front of a text, in upper or lower case; zero when there is none. -/
def exponentOf (letter : UInt8) : List UInt8 → Int
  | c :: rest =>
    if c = letter ∨ c = letter + 32 then
      (signOf rest).1 * ofDigits ((signOf rest).2.takeWhile isDigit)
    else 0
  | [] => 0

/-- The value of a digit in base 16. -/
def hexDigit? (c : UInt8) : Option Nat :=
  if 48 ≤ c ∧ c ≤ 57 then some (c.toNat - 48)
  else if 65 ≤ c ∧ c ≤ 70 then some (c.toNat - 55)
  else if 97 ≤ c ∧ c ≤ 102 then some (c.toNat - 87)
  else none

def ofHexDigits (s : List UInt8) : Nat :=
  s.foldl (fun n c => 16 * n + (hexDigit? c).getD 0) 0

/-- The digits of a hexadecimal number before and behind the point, and the rest, when a text
starts with such a number. -/
def hexOf? : List UInt8 → Option (List UInt8 × List UInt8 × List UInt8)
  | 48 :: x :: rest =>
    let digits := rest.takeWhile fun c => (hexDigit? c).isSome
    let fraction := fractionOf (fun c => (hexDigit? c).isSome)
      (rest.dropWhile fun c => (hexDigit? c).isSome)
    if (x = 120 ∨ x = 88) ∧ (digits ≠ [] ∨ fraction.1 ≠ []) then
      some (digits, fraction.1, fraction.2)
    else none
  | _ => none

/-- A number in a base with so many digits behind the point, times a power. -/
def scaled (n : Nat) (base places : Nat) (radix : Nat) (exponent : Int) : ℚ :=
  n / (base ^ places : ℕ) * (radix ^ exponent.toNat : ℕ) / (radix ^ (-exponent).toNat : ℕ)

/-- `std::stof` of a text that is a finite number, decimal or hexadecimal, without a limit; zero
when it throws. -/
def stofRat (s : List UInt8) : ℚ :=
  let (sign, rest) := signAndRest s
  match hexOf? rest with
  | some (digits, fraction, rest) =>
    sign * scaled (ofHexDigits (digits ++ fraction)) 16 fraction.length 2 (exponentOf 80 rest)
  | none =>
    let digits := rest.takeWhile isDigit
    let (fraction, rest) := fractionOf isDigit (rest.dropWhile isDigit)
    sign * scaled (ofDigits (digits ++ fraction)) 10 fraction.length 10 (exponentOf 69 rest)

theorem toInt_ofInt {n : Int} (h : -2147483648 ≤ n ∧ n ≤ 2147483647) : (Int32.ofInt n).toInt = n :=
  Int32.toInt_ofInt_of_le (by omega) (by omega)

theorem checkedInt_of {n : Int} (h : -2147483648 ≤ n ∧ n ≤ 2147483647) :
    Value.checkedInt n = .ok (Int32.ofInt n) :=
  if_pos h

/-- Floats taken as exact rational numbers. -/
instance : Floats ℚ where
  lt a b := a < b
  le a b := a ≤ b
  ofInt n := n
  round q := Int32.ofInt (if 0 ≤ q then (q + 1 / 2).floor else -(-q + 1 / 2).floor)
  epsilon := 1 / 1000000
  tenths acc n := acc * (1 / 10) + n * (1 / 10)
  toInt q := Int32.ofInt (if 0 ≤ q then q.floor else -(-q).floor)
  doubleToStr := ratToStr
  stof := stofRat
  bits := bitsOfRat

/-! ## Arithmetic on values

The operations of the data types (`integer_type.cpp`, `float_type.cpp`, `vector_type.cpp`).  The
type of the result, which is set before, decides which operation it is. -/

namespace Value

variable {F : Type} [Floats F]

/-- `get_vectors`; another value points to no floats. -/
def getVectors : Value F → Except Fault (List F)
  | vectors elems => .ok elems
  | _ => .error .abort

/-- Element by element for each of the left; the right must have as many. -/
def zipVectors (op : F → F → F) : List F → List F → Except Fault (List F)
  | [], _ => .ok []
  | _ :: _, [] => .error .abort
  | x :: xs, y :: ys => (zipVectors op xs ys).map (op x y :: ·)

/-- An operation that `INTS`, `FLOATS` and `VECTORS` have. -/
def arithmetic (intOp : Int → Int → Int) (floatOp : F → F → F) (type : AttrType)
    (left right : Value F) : Except Fault (Value F) :=
  match type with
  | .ints =>
    if left.isNull ∨ right.isNull then .ok nulls
    else (checkedInt (intOp left.getInt.toInt right.getInt.toInt)).map ints
  | .floats =>
    if left.isNull ∨ right.isNull then .ok nulls
    else .ok (floats (floatOp left.getFloat right.getFloat))
  | .vectors => do
    let elems ← zipVectors floatOp (← left.getVectors) (← right.getVectors)
    .ok (vectors elems)
  | _ => .error (.rc .unsupported)

/-- `Value::add` into a result of the type. -/
def add (type : AttrType) (left right : Value F) : Except Fault (Value F) :=
  arithmetic (· + ·) (· + ·) type left right

/-- `Value::subtract`. -/
def subtract (type : AttrType) (left right : Value F) : Except Fault (Value F) :=
  arithmetic (· - ·) (· - ·) type left right

/-- `Value::multiply`. -/
def multiply (type : AttrType) (left right : Value F) : Except Fault (Value F) :=
  arithmetic (· * ·) (· * ·) type left right

/-- `Value::divide`, which `INTS` and `FLOATS` have; by zero it gives `NULL`. -/
def divide (type : AttrType) (left right : Value F) : Except Fault (Value F) :=
  match type with
  | .ints | .floats =>
    if left.isNull ∨ right.isNull then .ok nulls
    else if Floats.lt (-Floats.epsilon) right.getFloat ∧ Floats.lt right.getFloat Floats.epsilon then
      .ok nulls
    else .ok (floats (left.getFloat / right.getFloat))
  | _ => .error (.rc .unsupported)

/-- `Value::negative`. -/
def negative (type : AttrType) (value : Value F) : Except Fault (Value F) :=
  match type with
  | .ints =>
    if value.isNull then .ok nulls else (checkedInt (-value.getInt.toInt)).map ints
  | .floats => if value.isNull then .ok nulls else .ok (floats (-value.getFloat))
  | _ => .error (.rc .unsupported)

end Value

end Sql

end ObHtap
