import Mathlib.Tactic.NormNum
import ObHtap.Library.Loop
import ObHtap.Sql.Column

/-!
# Arithmetic expressions

`ArithmeticExpr` over numbers (`expression.cpp`), as the parser builds it and as
`ExpressionBinder::bind_arithmetic_expression` leaves it.  The parser gives a negation no right
operand; the binder gives it the constant `NULL`.
-/

namespace ObHtap

namespace Sql

/-- A value of type `INTS` or `FLOATS`, or `NULL`. -/
inductive Number (F : Type) where
  | null
  | ints (v : Int32)
  | floats (v : F)

def Number.toValue : Number F → Value F
  | null => .nulls
  | ints v => .ints v
  | floats v => .floats v

/-- A field of a table with numbers. -/
structure NumberField where
  tableName : String
  fieldName : String
  attrType : AttrType
  numeric : attrType = .ints ∨ attrType = .floats

/-- The numbers of a tuple, each of the type of its field if it is not `NULL`. -/
structure NumberTuple (F : Type) where
  cell : NumberField → Number F
  typed : ∀ field, cell field = .null ∨ (cell field).toValue.attrType = field.attrType

/-- Arithmetic over fields and constants; a null pointer is `absent`. -/
inductive ArithmeticExpr (F : Type) where
  | absent
  | unboundField (tableName fieldName : String)
  | field (field : NumberField)
  | value (value : Number F)
  | binary (arithmeticType : ArithmeticType) (left right : ArithmeticExpr F)
  | negative (left right : ArithmeticExpr F)

namespace ArithmeticExpr

variable {F : Type}

def isAbsent : ArithmeticExpr F → Bool
  | absent => true
  | _ => false

/-- `value_type`. -/
def valueType : ArithmeticExpr F → AttrType
  | absent | unboundField _ _ => .undefined
  | field f => f.attrType
  | value v => v.toValue.attrType
  | binary arithmeticType left right =>
    if right.isAbsent then left.valueType
    else if left.valueType = .ints ∧ right.valueType = .ints ∧ arithmeticType ≠ .div then .ints
    else if left.valueType = .vectors ∧ arithmeticType ≠ .div then .vectors
    else .floats
  | negative left right =>
    if right.isAbsent then left.valueType
    else if left.valueType = .ints ∧ right.valueType = .ints then .ints
    else if left.valueType = .vectors then .vectors
    else .floats

/-! ## Binding -/

/-- The one expression that another is bound to. -/
def single : List (ArithmeticExpr F) → Except Fault (ArithmeticExpr F)
  | [expr] => .ok expr
  | _ => .error (.rc .invalidArgument)

/-- `bind_expression`, with what a name is bound to. -/
def bindExpression (bindField : String → String → Except Fault NumberField) :
    ArithmeticExpr F → Except Fault (List (ArithmeticExpr F))
  | absent => .ok []
  | unboundField tableName fieldName => do .ok [field (← bindField tableName fieldName)]
  | field f => .ok [field f]
  | value v => .ok [value v]
  | binary arithmeticType left right => do
    let left ← single (← left.bindExpression bindField)
    let right ← single (← right.bindExpression bindField)
    .ok [binary arithmeticType left right]
  | negative left right => do
    let left ← single (← left.bindExpression bindField)
    -- the right child is there for the code behind, and has no other use
    let _ ← right.bindExpression bindField
    .ok [negative left (value .null)]

/-! ## Evaluation -/

variable [Floats F]

/-- The `Value` with its type set that an operation which fails leaves behind. -/
def ofType : AttrType → Value F
  | .ints => .ints 0
  | .floats => .floats (Floats.ofInt 0)
  | .nulls => .nulls
  | _ => .undefined

/-- `calc_value`, which ignores the return code of the operation. -/
def calcValue (type : AttrType) (result : Except Fault (Value F)) : Except Fault (Value F) :=
  match result with
  | .error (.rc _) => .ok (ofType type)
  | result => result

/-- The operation of `calc_value`, but for `NEGATIVE`. -/
def operation (arithmeticType : ArithmeticType) (type : AttrType) (left right : Value F) :
    Except Fault (Value F) :=
  match arithmeticType with
  | .add => Value.add type left right
  | .sub => Value.subtract type left right
  | .mul => Value.multiply type left right
  | .div => Value.divide type left right

/-- `get_value`, which reads both operands. -/
def getValue (tuple : NumberTuple F) : ArithmeticExpr F → Except Fault (Value F)
  | absent => .error .abort
  | unboundField _ _ => .error (.rc .internal)
  | field f => .ok (tuple.cell f).toValue
  | value v => .ok v.toValue
  | binary arithmeticType left right => do
    let leftValue ← left.getValue tuple
    let rightValue ← right.getValue tuple
    let type := (binary arithmeticType left right).valueType
    calcValue type (operation arithmeticType type leftValue rightValue)
  | negative left right => do
    let leftValue ← left.getValue tuple
    let _ ← right.getValue tuple
    let type := (negative left right).valueType
    calcValue type (Value.negative type leftValue)

/-- `try_get_value`, which reads a right operand that is there. -/
def tryGetValue : ArithmeticExpr F → Except Fault (Value F)
  | absent => .error .abort
  | unboundField _ _ | field _ => .error (.rc .unimplemented)
  | value v => .ok v.toValue
  | binary arithmeticType left right => do
    let leftValue ← left.tryGetValue
    let rightValue ← if right.isAbsent then .ok .undefined else right.tryGetValue
    let type := (binary arithmeticType left right).valueType
    calcValue type (operation arithmeticType type leftValue rightValue)
  | negative left right => do
    let leftValue ← left.tryGetValue
    let _ ← if right.isAbsent then .ok .undefined else right.tryGetValue
    let type := (negative left right).valueType
    calcValue type (Value.negative type leftValue)

/-! ## Exact values -/

/-- Every field is bound and no operand is absent. -/
def Complete : ArithmeticExpr F → Prop
  | absent | unboundField _ _ => False
  | field _ | value _ => True
  | binary _ left right | negative left right => left.Complete ∧ right.Complete

/-- As the parser leaves it: a negation has no right operand, and the others have both. -/
def Parsed : ArithmeticExpr F → Prop
  | absent => False
  | unboundField _ _ | field _ | value _ => True
  | binary _ left right => left.Parsed ∧ right.Parsed
  | negative left right => left.Parsed ∧ right = absent

/-- There are only constants. -/
def Constant : ArithmeticExpr F → Prop
  | unboundField _ _ | field _ => False
  | absent | value _ => True
  | binary _ left right | negative left right => left.Constant ∧ right.Constant

end ArithmeticExpr

/-- The number that it is, if it is not `NULL`. -/
def Number.toRat : Number ℚ → Option ℚ
  | null => none
  | ints v => some v.toInt
  | floats v => some v

/-- The operation on rational numbers; a divisor within `EPSILON` is taken for zero. -/
def ArithmeticType.rational (x y : ℚ) : ArithmeticType → Option ℚ
  | add => some (x + y)
  | sub => some (x - y)
  | mul => some (x * y)
  | div => if |y| < 1 / 1000000 then none else some (x / y)

namespace ArithmeticExpr

/-- The value of an expression in the rational numbers, with `none` for `NULL`. -/
def exact (tuple : NumberTuple ℚ) : ArithmeticExpr ℚ → Option ℚ
  | absent | unboundField _ _ => none
  | field f => (tuple.cell f).toRat
  | value v => v.toRat
  | binary arithmeticType left right => do
    arithmeticType.rational (← left.exact tuple) (← right.exact tuple)
  | negative left _ => (left.exact tuple).map (- ·)

/-- An expression of type `INTS` has a value that is an `int`, if any. -/
def Fits (tuple : NumberTuple ℚ) (expr : ArithmeticExpr ℚ) : Prop :=
  expr.valueType = .ints →
    ∀ q, expr.exact tuple = some q → -2147483648 ≤ q ∧ q ≤ 2147483647

/-- No operation on `int` overflows. -/
def InRange (tuple : NumberTuple ℚ) : ArithmeticExpr ℚ → Prop
  | absent | unboundField _ _ | field _ | value _ => True
  | binary arithmeticType left right =>
    left.InRange tuple ∧ right.InRange tuple ∧ Fits tuple (binary arithmeticType left right)
  | negative left right =>
    left.InRange tuple ∧ right.InRange tuple ∧ Fits tuple (negative left right)

/-- A value of a type for a number or `NULL`. -/
def Denotes (value : Value ℚ) (type : AttrType) : Option ℚ → Prop
  | none => value = .nulls
  | some q =>
    (type = .ints ∧ ∃ v : Int32, value = .ints v ∧ q = v.toInt) ∨
      type = .floats ∧ value = .floats q

section

variable {value left right : Value ℚ} {type leftType rightType : AttrType} {q x y : ℚ}
  {a b : Option ℚ}

theorem Denotes.isNull (h : Denotes value type (some q)) : value.isNull = false := by
  rcases h with ⟨-, v, rfl, -⟩ | ⟨-, rfl⟩ <;> rfl

theorem Denotes.getFloat (h : Denotes value type (some q)) : value.getFloat = q := by
  rcases h with ⟨-, v, rfl, rfl⟩ | ⟨-, rfl⟩ <;> rfl

theorem Denotes.getInt (h : Denotes value .ints (some q)) : q = value.getInt.toInt := by
  rcases h with ⟨-, v, rfl, rfl⟩ | ⟨h, -⟩
  · rfl
  · cases h

theorem Denotes.isNull_of_none (h : Denotes value type none) : value.isNull = true := by
  rw [show value = .nulls from h]
  rfl

theorem checkedInt_of_range {n : Int} (h : -2147483648 ≤ (n : ℚ) ∧ (n : ℚ) ≤ 2147483647) :
    ∃ v : Int32, Value.checkedInt n = .ok v ∧ v.toInt = n := by
  have hrange : -2147483648 ≤ n ∧ n ≤ 2147483647 := by exact_mod_cast h
  refine ⟨Int32.ofInt n, if_pos hrange, ?_⟩
  exact Int32.toInt_ofInt_of_le hrange.1 (by omega)

/-- An operation that integers and floats have gives the exact number, or `NULL`. -/
theorem arithmetic_denotes {intOp : Int → Int → Int} {floatOp : ℚ → ℚ → ℚ}
    (hcast : ∀ m n : Int, ((intOp m n : Int) : ℚ) = floatOp m n)
    (hleft : Denotes left leftType a) (hright : Denotes right rightType b)
    (htype : type = .ints ∧ leftType = .ints ∧ rightType = .ints ∨ type = .floats)
    (hfits : type = .ints → ∀ x ∈ a, ∀ y ∈ b,
      -2147483648 ≤ floatOp x y ∧ floatOp x y ≤ 2147483647) :
    ∃ value, Value.arithmetic intOp floatOp type left right = .ok value ∧
      Denotes value type (do some (floatOp (← a) (← b))) := by
  by_cases hnull : left.isNull = true ∨ right.isNull = true
  · refine ⟨.nulls, ?_, ?_⟩
    · rcases htype with ⟨rfl, -⟩ | rfl <;> exact if_pos hnull
    · rcases a with - | x
      · rfl
      rcases b with - | y
      · rfl
      simp [hleft.isNull, hright.isNull] at hnull
  · rcases a with - | x
    · exact absurd (Or.inl hleft.isNull_of_none) hnull
    rcases b with - | y
    · exact absurd (Or.inr hright.isNull_of_none) hnull
    rcases htype with ⟨rfl, rfl, rfl⟩ | rfl
    · have hrange := hfits rfl x rfl y rfl
      rw [hleft.getInt, hright.getInt, ← hcast] at hrange
      obtain ⟨v, hv, hint⟩ := checkedInt_of_range hrange
      refine ⟨.ints v, ?_, Or.inl ⟨rfl, v, rfl, ?_⟩⟩
      · change (if _ then _ else _) = _
        rw [if_neg hnull, hv]
        rfl
      · rw [hint, hcast, ← hleft.getInt, ← hright.getInt]
    · refine ⟨.floats (floatOp x y), ?_, Or.inr ⟨rfl, rfl⟩⟩
      change (if _ then _ else _) = _
      rw [if_neg hnull, hleft.getFloat, hright.getFloat]

theorem divide_denotes (hleft : Denotes left leftType a) (hright : Denotes right rightType b) :
    ∃ value, Value.divide .floats left right = .ok value ∧
      Denotes value .floats (do ArithmeticType.rational (← a) (← b) .div) := by
  by_cases hnull : left.isNull = true ∨ right.isNull = true
  · refine ⟨.nulls, if_pos hnull, ?_⟩
    rcases a with - | x
    · rfl
    rcases b with - | y
    · rfl
    simp [hleft.isNull, hright.isNull] at hnull
  · rcases a with - | x
    · exact absurd (Or.inl hleft.isNull_of_none) hnull
    rcases b with - | y
    · exact absurd (Or.inr hright.isNull_of_none) hnull
    have hsmall : (Floats.lt (-Floats.epsilon) y = true ∧ Floats.lt y Floats.epsilon = true) ↔
        |y| < 1 / 1000000 := by
      rw [abs_lt]
      exact and_congr decide_eq_true_iff decide_eq_true_iff
    unfold Value.divide ArithmeticType.rational
    rw [if_neg hnull, hleft.getFloat, hright.getFloat]
    simp only [hsmall, Option.bind_eq_bind, Option.bind_some]
    split_ifs
    · exact ⟨_, rfl, rfl⟩
    · exact ⟨_, rfl, Or.inr ⟨rfl, rfl⟩⟩

theorem negative_denotes (hleft : Denotes left leftType a)
    (htype : type = .ints ∧ leftType = .ints ∨ type = .floats)
    (hfits : type = .ints → ∀ x ∈ a, -2147483648 ≤ -x ∧ -x ≤ 2147483647) :
    ∃ value, Value.negative type left = .ok value ∧ Denotes value type (a.map (- ·)) := by
  rcases a with - | x
  · refine ⟨.nulls, ?_, rfl⟩
    rcases htype with ⟨rfl, -⟩ | rfl <;> exact if_pos hleft.isNull_of_none
  · have hnull : ¬ left.isNull = true := by simp [hleft.isNull]
    rcases htype with ⟨rfl, rfl⟩ | rfl
    · have hrange := hfits rfl x rfl
      rw [hleft.getInt, ← Int.cast_neg] at hrange
      obtain ⟨v, hv, hint⟩ := checkedInt_of_range hrange
      refine ⟨.ints v, ?_, Or.inl ⟨rfl, v, rfl, ?_⟩⟩
      · change (if _ then _ else _) = _
        rw [if_neg hnull, hv]
        rfl
      · rw [hint, Int.cast_neg, ← hleft.getInt]
    · refine ⟨.floats (-x), ?_, Or.inr ⟨rfl, rfl⟩⟩
      change (if _ then _ else _) = _
      rw [if_neg hnull, hleft.getFloat]

theorem operation_denotes (arithmeticType : ArithmeticType) (hleft : Denotes left leftType a)
    (hright : Denotes right rightType b)
    (htype : type =
      if leftType = .ints ∧ rightType = .ints ∧ arithmeticType ≠ .div then .ints else .floats)
    (hfits : type = .ints → ∀ q, (do arithmeticType.rational (← a) (← b)) = some q →
      -2147483648 ≤ q ∧ q ≤ 2147483647) :
    ∃ value, operation arithmeticType type left right = .ok value ∧
      Denotes value type (do arithmeticType.rational (← a) (← b)) := by
  have hcases (hdiv : arithmeticType ≠ .div) :
      type = .ints ∧ leftType = .ints ∧ rightType = .ints ∨ type = .floats := by
    by_cases hints : leftType = .ints ∧ rightType = .ints
    · rw [if_pos ⟨hints.1, hints.2, hdiv⟩] at htype
      exact Or.inl ⟨htype, hints⟩
    · rw [if_neg fun h => hints ⟨h.1, h.2.1⟩] at htype
      exact Or.inr htype
  have hsome (hints : type = .ints) : ∀ x ∈ a, ∀ y ∈ b, ∀ q, arithmeticType.rational x y = some q →
      -2147483648 ≤ q ∧ q ≤ 2147483647 := by
    rintro x rfl y rfl
    exact hfits hints
  cases arithmeticType with
  | add =>
    exact arithmetic_denotes (fun m n => Int.cast_add m n) hleft hright (hcases (by decide))
      fun hints x hx y hy => hsome hints x hx y hy _ rfl
  | sub =>
    exact arithmetic_denotes (fun m n => Int.cast_sub m n) hleft hright (hcases (by decide))
      fun hints x hx y hy => hsome hints x hx y hy _ rfl
  | mul =>
    exact arithmetic_denotes (fun m n => Int.cast_mul m n) hleft hright (hcases (by decide))
      fun hints x hx y hy => hsome hints x hx y hy _ rfl
  | div =>
    obtain rfl : type = .floats := by rw [htype, if_neg fun h => h.2.2 rfl]
    exact divide_denotes hleft hright

end

/-! ## Trees -/

variable {expr left right bound : ArithmeticExpr ℚ} {tuple : NumberTuple ℚ}
  {arithmeticType : ArithmeticType}

theorem number_denotes (v : Number ℚ) : Denotes v.toValue v.toValue.attrType v.toRat := by
  cases v with
  | null => rfl
  | ints v => exact Or.inl ⟨rfl, v, rfl, rfl⟩
  | floats v => exact Or.inr ⟨rfl, rfl⟩

theorem cell_denotes (tuple : NumberTuple ℚ) (field : NumberField) :
    Denotes (tuple.cell field).toValue field.attrType (tuple.cell field).toRat := by
  rcases tuple.typed field with h | h
  · rw [h]
    rfl
  · rw [← h]
    exact number_denotes _

theorem Complete.present (h : expr.Complete) : expr.isAbsent = false := by
  cases expr with
  | absent => cases h
  | _ => rfl

theorem Parsed.present (h : expr.Parsed) : expr.isAbsent = false := by
  cases expr with
  | absent => cases h
  | _ => rfl

theorem valueType_ne_vectors (expr : ArithmeticExpr ℚ) : expr.valueType ≠ .vectors := by
  induction expr with
  | absent | unboundField => exact nofun
  | field f => rcases f.numeric with h | h <;> exact fun heq => nomatch h.symm.trans heq
  | value v => cases v <;> exact nofun
  | binary arithmeticType left right ihl _ =>
    unfold valueType
    split_ifs with h1 h2 h3
    · exact ihl
    · exact nofun
    · exact absurd h3.1 ihl
    · exact nofun
  | negative left right ihl _ =>
    unfold valueType
    split_ifs with h1 h2
    · exact ihl
    · exact nofun
    · exact nofun

theorem valueType_binary (hright : right.isAbsent = false) :
    (binary arithmeticType left right).valueType =
      if left.valueType = .ints ∧ right.valueType = .ints ∧ arithmeticType ≠ .div then .ints
      else .floats := by
  rw [valueType, if_neg (by simp [hright])]
  split_ifs with h h'
  · rfl
  · exact absurd h'.1 (valueType_ne_vectors left)
  · rfl

theorem valueType_negative (hright : right.isAbsent = false) :
    (negative left right).valueType =
      if left.valueType = .ints ∧ right.valueType = .ints then .ints else .floats := by
  rw [valueType, if_neg (by simp [hright])]
  split_ifs with h h'
  · rfl
  · exact absurd h' (valueType_ne_vectors left)
  · rfl

theorem calcValue_denotes {type : AttrType} {result : Except Fault (Value ℚ)}
    {a : Option ℚ} (h : ∃ value, result = .ok value ∧ Denotes value type a) :
    ∃ value, calcValue type result = .ok value ∧ Denotes value type a := by
  obtain ⟨value, rfl, hvalue⟩ := h
  exact ⟨value, rfl, hvalue⟩

theorem getValue_denotes (h : expr.Complete) (hrange : InRange tuple expr) :
    ∃ value, expr.getValue tuple = .ok value ∧
      Denotes value expr.valueType (expr.exact tuple) := by
  induction expr with
  | absent | unboundField => cases h
  | field f => exact ⟨_, rfl, cell_denotes tuple f⟩
  | value v => exact ⟨_, rfl, number_denotes v⟩
  | binary arithmeticType left right ihl ihr =>
    obtain ⟨hl, hr, hfits⟩ := hrange
    obtain ⟨leftValue, hleft, hleftValue⟩ := ihl h.1 hl
    obtain ⟨rightValue, hright, hrightValue⟩ := ihr h.2 hr
    unfold getValue
    rw [hleft, hright]
    exact calcValue_denotes (operation_denotes arithmeticType hleftValue hrightValue
      (valueType_binary h.2.present) hfits)
  | negative left right ihl ihr =>
    obtain ⟨hl, hr, hfits⟩ := hrange
    obtain ⟨leftValue, hleft, hleftValue⟩ := ihl h.1 hl
    obtain ⟨rightValue, hright, -⟩ := ihr h.2 hr
    unfold getValue
    rw [hleft, hright]
    refine calcValue_denotes (negative_denotes hleftValue ?_ ?_)
    · rw [valueType_negative h.2.present]
      split_ifs with hints
      · exact Or.inl ⟨rfl, hints.1⟩
      · exact Or.inr rfl
    · intro hints x hx
      exact hfits hints _ (by rw [exact, Option.mem_def.mp hx]; rfl)

/-- Without fields nothing is read from the tuple. -/
theorem tryGetValue_eq (h : expr.Complete) (hconstant : expr.Constant) :
    expr.tryGetValue = expr.getValue tuple := by
  induction expr with
  | absent | unboundField => cases h
  | field f => cases hconstant
  | value v => rfl
  | binary arithmeticType left right ihl ihr =>
    unfold tryGetValue getValue
    rw [ihl h.1 hconstant.1, ihr h.2 hconstant.2, h.2.present]
    rfl
  | negative left right ihl ihr =>
    unfold tryGetValue getValue
    rw [ihl h.1 hconstant.1, ihr h.2 hconstant.2, h.2.present]
    rfl

theorem valueType_of_parsed (h : expr.Parsed) (hconstant : expr.Constant) :
    expr.valueType = .ints ∨ expr.valueType = .floats ∨ expr.valueType = .nulls := by
  induction expr with
  | absent => cases h
  | unboundField | field => cases hconstant
  | value v => cases v <;> simp [valueType, Number.toValue, Value.attrType]
  | binary arithmeticType left right _ _ =>
    rw [valueType_binary h.2.present]
    split_ifs <;> simp
  | negative left right ihl _ =>
    obtain ⟨hparsed, rfl⟩ := h
    exact ihl hparsed hconstant.1

/-- What the parser builds of constants has its exact value before it is bound. -/
theorem tryGetValue_denotes (h : expr.Parsed) (hconstant : expr.Constant)
    (hrange : InRange tuple expr) :
    ∃ value, expr.tryGetValue = .ok value ∧
      Denotes value expr.valueType (expr.exact tuple) := by
  induction expr with
  | absent => cases h
  | unboundField | field => cases hconstant
  | value v => exact ⟨_, rfl, number_denotes v⟩
  | binary arithmeticType left right ihl ihr =>
    obtain ⟨hl, hr, hfits⟩ := hrange
    obtain ⟨leftValue, hleft, hleftValue⟩ := ihl h.1 hconstant.1 hl
    obtain ⟨rightValue, hright, hrightValue⟩ := ihr h.2 hconstant.2 hr
    unfold tryGetValue
    rw [hleft, hright, h.2.present]
    exact calcValue_denotes (operation_denotes arithmeticType hleftValue hrightValue
      (valueType_binary h.2.present) hfits)
  | negative left right ihl _ =>
    obtain ⟨hl, -, hfits⟩ := hrange
    obtain ⟨hparsed, rfl⟩ := h
    obtain ⟨leftValue, hleft, hleftValue⟩ := ihl hparsed hconstant.1 hl
    unfold tryGetValue
    rw [hleft]
    have htype : (negative left absent).valueType = left.valueType := rfl
    change ∃ value, calcValue (negative left absent).valueType (Value.negative _ leftValue) = _ ∧ _
    rcases valueType_of_parsed hparsed hconstant.1 with hints | hfloats | hnulls
    · refine calcValue_denotes (negative_denotes hleftValue (Or.inl ⟨htype.trans hints, hints⟩) ?_)
      intro hints x hx
      exact hfits hints _ (by rw [exact, Option.mem_def.mp hx]; rfl)
    · exact calcValue_denotes (negative_denotes hleftValue (Or.inr (htype.trans hfloats))
        fun hints => nomatch hints.symm.trans (htype.trans hfloats))
    · -- `NULL` has no operation, and the result keeps the type that was set
      rw [htype, hnulls]
      rcases hexact : left.exact tuple with - | x
      · refine ⟨.nulls, rfl, ?_⟩
        rw [exact, hexact]
        rfl
      · rw [hexact] at hleftValue
        rcases hleftValue with ⟨h, -⟩ | ⟨h, -⟩ <;> cases hnulls.symm.trans h

/-! ## What is bound -/

theorem single_eq {exprs : List (ArithmeticExpr ℚ)} (h : single exprs = .ok expr) :
    exprs = [expr] := by
  match exprs, h with
  | [_], h => rw [Except.ok.inj h]

theorem complete_of_bind {bindField : String → String → Except Fault NumberField}
    (h : expr.bindExpression bindField = .ok [bound]) : bound.Complete := by
  induction expr generalizing bound with
  | absent => cases h
  | unboundField tableName fieldName =>
    obtain ⟨f, -, hbound⟩ := bind_eq_ok h
    cases hbound
    trivial
  | field f =>
    cases h
    trivial
  | value v =>
    cases h
    trivial
  | binary arithmeticType left right ihl ihr =>
    obtain ⟨lefts, hlefts, h⟩ := bind_eq_ok h
    obtain ⟨left', hleft, h⟩ := bind_eq_ok h
    obtain ⟨rights, hrights, h⟩ := bind_eq_ok h
    obtain ⟨right', hright, h⟩ := bind_eq_ok h
    cases h
    rw [single_eq hleft] at hlefts
    rw [single_eq hright] at hrights
    exact ⟨ihl hlefts, ihr hrights⟩
  | negative left right ihl _ =>
    obtain ⟨lefts, hlefts, h⟩ := bind_eq_ok h
    obtain ⟨left', hleft, h⟩ := bind_eq_ok h
    obtain ⟨rights, -, h⟩ := bind_eq_ok h
    cases h
    rw [single_eq hleft] at hlefts
    exact ⟨ihl hlefts, trivial⟩

/-- Binding leaves the value of constants as it is. -/
theorem exact_of_bind {bindField : String → String → Except Fault NumberField}
    (h : expr.bindExpression bindField = .ok [bound]) (hconstant : expr.Constant) :
    bound.exact tuple = expr.exact tuple := by
  induction expr generalizing bound with
  | absent => cases h
  | unboundField | field => cases hconstant
  | value v =>
    cases h
    rfl
  | binary arithmeticType left right ihl ihr =>
    obtain ⟨lefts, hlefts, h⟩ := bind_eq_ok h
    obtain ⟨left', hleft, h⟩ := bind_eq_ok h
    obtain ⟨rights, hrights, h⟩ := bind_eq_ok h
    obtain ⟨right', hright, h⟩ := bind_eq_ok h
    cases h
    rw [single_eq hleft] at hlefts
    rw [single_eq hright] at hrights
    rw [exact, exact, ihl hlefts hconstant.1, ihr hrights hconstant.2]
  | negative left right ihl _ =>
    obtain ⟨lefts, hlefts, h⟩ := bind_eq_ok h
    obtain ⟨left', hleft, h⟩ := bind_eq_ok h
    obtain ⟨rights, -, h⟩ := bind_eq_ok h
    cases h
    rw [single_eq hleft] at hlefts
    rw [exact, exact, ihl hlefts hconstant.1]

/-- A bound expression reads no absent operand and has its exact value on every tuple, the same
with both functions if there are only constants; constants have it before they are bound, too. -/
theorem bound_evaluates {bindField : String → String → Except Fault NumberField}
    (h : expr.bindExpression bindField = .ok [bound]) :
    bound.Complete ∧
    (∀ tuple, InRange tuple bound → ∃ value, bound.getValue tuple = .ok value ∧
      Denotes value bound.valueType (bound.exact tuple)) ∧
    (bound.Constant → ∀ tuple, bound.tryGetValue = bound.getValue tuple) ∧
    (expr.Parsed → expr.Constant → ∀ tuple, InRange tuple expr →
      ∃ value, expr.tryGetValue = .ok value ∧
        Denotes value expr.valueType (bound.exact tuple)) := by
  have hcomplete := complete_of_bind h
  refine ⟨hcomplete, fun tuple => getValue_denotes hcomplete,
    fun hconstant tuple => tryGetValue_eq hcomplete hconstant, ?_⟩
  intro hparsed hconstant tuple hrange
  rw [exact_of_bind h hconstant]
  exact tryGetValue_denotes hparsed hconstant hrange

/-- A tuple in which every column of `INTS` is three. -/
def threes : NumberTuple ℚ where
  cell field := if field.attrType = .ints then .ints 3 else .null
  typed field := by
    by_cases h : field.attrType = .ints
    · rw [if_pos h, h]
      exact Or.inr rfl
    · exact Or.inl (if_neg h)

/-- The negation of a constant divided by a column, when it is bound. -/
def quotient : ArithmeticExpr ℚ :=
  binary .div (negative (value (.ints 1)) (value .null)) (field ⟨"", "a", .ints, Or.inl rfl⟩)

theorem inRange_quotient : InRange threes quotient := by
  refine ⟨⟨trivial, trivial, fun _ q hq => ?_⟩, trivial, fun hints => by cases hints⟩
  obtain rfl : -1 = q := Option.some.inj hq
  norm_num

theorem bound_evaluates_quotient :
    (binary .div (negative (value (.ints 1)) absent) (unboundField "" "a") :
      ArithmeticExpr ℚ).bindExpression
        (fun tableName fieldName => .ok ⟨tableName, fieldName, .ints, Or.inl rfl⟩) =
      .ok [quotient] ∧ quotient.Complete ∧
    (∃ value, quotient.getValue threes = .ok value ∧
      Denotes value .floats (quotient.exact threes)) ∧
    ((negative (value (.ints 1)) (value .null) : ArithmeticExpr ℚ).tryGetValue =
      (negative (value (.ints 1)) (value .null)).getValue threes) ∧
    ∃ result, (negative (value (.ints 1)) absent : ArithmeticExpr ℚ).tryGetValue = .ok result ∧
      Denotes result .ints ((negative (value (.ints 1)) (value .null)).exact threes) := by
  obtain ⟨hcomplete, hvalue, -, -⟩ := @bound_evaluates
    (binary .div (negative (value (.ints 1)) absent) (unboundField "" "a")) quotient
    (fun tableName fieldName => .ok ⟨tableName, fieldName, .ints, Or.inl rfl⟩) rfl
  obtain ⟨-, -, hconstant, hbefore⟩ := @bound_evaluates (negative (value (.ints 1)) absent)
    (negative (value (.ints 1)) (value .null))
    (fun tableName fieldName => .ok ⟨tableName, fieldName, .ints, Or.inl rfl⟩) rfl
  refine ⟨rfl, hcomplete, hvalue threes inRange_quotient, hconstant ⟨trivial, trivial⟩ threes,
    hbefore ⟨trivial, rfl⟩ ⟨trivial, trivial⟩ threes ⟨trivial, trivial, fun _ q hq => ?_⟩⟩
  obtain rfl : -1 = q := Option.some.inj hq
  norm_num

/-- One divided by half a millionth. -/
theorem not_exact_small_divisor : ¬ ∀ (tuple : NumberTuple ℚ) (x y : ℚ), y ≠ 0 →
    (binary .div (value (.floats x)) (value (.floats y))).getValue tuple =
      .ok (.floats (x / y)) := by
  intro h
  have hvalue := h ⟨fun _ => .null, fun _ => Or.inl rfl⟩ 1 (1 / 2000000) (by norm_num)
  obtain ⟨value, hdivide, hnull⟩ := @divide_denotes (.floats 1) (.floats (1 / 2000000)) .floats
    .floats (some 1) (some (1 / 2000000)) (Or.inr ⟨rfl, rfl⟩) (Or.inr ⟨rfl, rfl⟩)
  change calcValue .floats (Value.divide .floats (.floats 1) (.floats (1 / 2000000))) = _ at hvalue
  rw [hdivide] at hvalue
  have hsmall : ArithmeticType.rational 1 (1 / 2000000) .div = none :=
    if_pos (by rw [abs_lt]; norm_num)
  rw [show (do ArithmeticType.rational (← some 1) (← some (1 / 2000000)) .div) = none from hsmall]
    at hnull
  cases (hnull : value = .nulls)
  cases hvalue

end ArithmeticExpr

end Sql

end ObHtap
