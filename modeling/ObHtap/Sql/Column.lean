import ObHtap.Sql.Value
import ObHtap.Sql.Expression

/-!
# Columns

Arithmetic expressions and comparisons over `INTS`, `FLOATS` and `DATES`, on a tuple and on the
columns of a chunk (`expression.cpp`, `arithmetic_operator.hpp`, `column.cpp`).
-/

namespace ObHtap

namespace Sql

/-! ## Columns -/

/-- The data types with four bytes that have columns. -/
inductive ColumnType where
  | ints
  | floats
  | dates
  deriving DecidableEq, Repr

def ColumnType.attrType : ColumnType → AttrType
  | ints => .ints
  | floats => .floats
  | dates => .dates

/-- A value of one of these types. -/
inductive NumericValue (F : Type) where
  | ints (value : Int32)
  | floats (value : F)
  | dates (value : Int32)

/-- Four bytes, as they were written. -/
inductive Cell (F : Type) where
  | int (value : Int32)
  | float (value : F)

/-- Floats as the machine has them: their bits, and `==`. -/
class FloatBits (F : Type) where
  ofBits : Int32 → F
  toBits : F → Int32
  eq : F → F → Bool

variable {F : Type}

namespace NumericValue

def type : NumericValue F → ColumnType
  | ints _ => .ints
  | floats _ => .floats
  | dates _ => .dates

def toValue : NumericValue F → Value F
  | ints v => .ints v
  | floats x => .floats x
  | dates v => .dates v

def cell : NumericValue F → Cell F
  | ints v => .int v
  | floats x => .float x
  | dates v => .int v

/-- Zero of a type. -/
def zero [Floats F] : ColumnType → NumericValue F
  | .ints => ints 0
  | .floats => floats (Floats.ofInt 0)
  | .dates => dates 0

/-- The value of a cell that was written as one of the type. -/
def ofCell : ColumnType → Cell F → Option (NumericValue F)
  | .ints, .int v => some (ints v)
  | .floats, .float x => some (floats x)
  | .dates, .int v => some (dates v)
  | _, _ => none

end NumericValue

namespace Cell

variable [FloatBits F]

/-- The four bytes read as an `int`. -/
def asInt : Cell F → Int32
  | int v => v
  | float x => FloatBits.toBits x

/-- The four bytes read as a `float`. -/
def asFloat : Cell F → F
  | int v => FloatBits.ofBits v
  | float x => x

end Cell

/-- `Column`, with its `count_` cells; a constant column stands for as many rows as there are. -/
structure Column (F : Type) where
  type : ColumnType
  isConstant : Bool
  data : List (Cell F)

/-- The index of the cell for a row. -/
def Column.indexOf (column : Column F) (row : Nat) : Nat :=
  if column.isConstant then 0 else row

/-- The value of a row. -/
def Column.valueAt (column : Column F) (row : Nat) : Option (NumericValue F) :=
  column.data[column.indexOf row]?.bind (NumericValue.ofCell column.type)

/-- The columns of a chunk. -/
abbrev Chunk (F : Type) :=
  List (Column F)

/-! ## Loops over columns -/

/-- `SIMD_WIDTH`. -/
def simdWidth : Nat :=
  8

/-- The number of rows that the loop with SIMD does, a multiple of its width. -/
def simdRows (simd : Bool) (size : Nat) : Nat :=
  if simd then size / simdWidth * simdWidth else 0

/-- An element of an array of cells. -/
def elementAt {T : Type} (cells : List T) (index : Nat) : Except Fault T :=
  match cells[index]? with
  | some cell => .ok cell
  | none => .error .abort

/-- `binary_operator`: the rows in blocks with SIMD, if that is compiled in, and the rest one by
one. -/
def binaryOperator {T : Type} (simd : Bool) (simdOperation operation : T → T → Except Fault T)
    (left right : List T) (leftConstant rightConstant : Bool) (size : Nat) :
    Except Fault (List T) := do
  let element (op : T → T → Except Fault T) (i : Nat) : Except Fault T := do
    op (← elementAt left (if leftConstant then 0 else i))
      (← elementAt right (if rightConstant then 0 else i))
  let blocks ← (List.range (simdRows simd size)).mapM (element simdOperation)
  let rest ← (List.range' (simdRows simd size) (size - simdRows simd size)).mapM (element operation)
  .ok (blocks ++ rest)

/-- `unary_operator`. -/
def unaryOperator {T : Type} (operation : T → T) (input : List T) (isConstant : Bool)
    (size : Nat) : Except Fault (List T) :=
  (List.range size).mapM fun i => do
    .ok (operation (← elementAt input (if isConstant then 0 else i)))

/-- `compare_operation`: the results are anded into `result`. -/
def compareOperation {T : Type} (simd : Bool) (operation : T → T → Bool) (left right : List T)
    (leftConstant rightConstant : Bool) (n : Nat) (result : List UInt8) :
    Except Fault (List UInt8) :=
  let step (result : List UInt8) (i : Nat) : Except Fault (List UInt8) := do
    let leftValue ← elementAt left (if leftConstant then 0 else i)
    let rightValue ← elementAt right (if rightConstant then 0 else i)
    let selected ← elementAt result i
    .ok (result.set i (selected &&& if operation leftValue rightValue then 1 else 0))
  (List.range (simdRows simd n) ++ List.range' (simdRows simd n) (n - simdRows simd n)).foldlM step
    result

/-! ## Operations -/

/-- `ArithmeticExpr::Type`, but for `NEGATIVE`. -/
inductive ArithmeticType where
  | add
  | sub
  | mul
  | div
  deriving DecidableEq, Repr

namespace ArithmeticType

/-- The operation on `int`, which must not overflow; an `int` is not divided by zero. -/
def intOperation (left right : Int32) : ArithmeticType → Except Fault Int32
  | add => Value.checkedInt (left.toInt + right.toInt)
  | sub => Value.checkedInt (left.toInt - right.toInt)
  | mul => Value.checkedInt (left.toInt * right.toInt)
  | div => if right = 0 then .error .abort else Value.checkedInt (left.toInt.tdiv right.toInt)

variable [Floats F]

/-- The operation on `float`. -/
def floatOperation (left right : F) : ArithmeticType → F
  | add => left + right
  | sub => left - right
  | mul => left * right
  | div => left / right

variable (F) in
/-- The operation on `int` with SIMD; two of them are not there and `exit`. -/
def simdIntOperation (left right : Int32) : ArithmeticType → Except Fault Int32
  | add => .ok (left + right)
  | sub | mul => .error .abort
  | div => .ok (Floats.toInt (Floats.ofInt left.toInt / Floats.ofInt right.toInt : F))

/-- The operation on `float` with SIMD. -/
def simdFloatOperation (left right : F) : ArithmeticType → Except Fault F
  | add => .ok (left + right)
  | sub | mul => .error .abort
  | div => .ok (left / right)

/-- `calc_value` into a value of the type, which is zero at first; the return code of the operation
is ignored. -/
def calcValue (type : ColumnType) (left right : Value F) (arithmeticType : ArithmeticType) :
    Except Fault (Value F) :=
  let result := match arithmeticType with
    | add => Value.add type.attrType left right
    | sub => Value.subtract type.attrType left right
    | mul => Value.multiply type.attrType left right
    | div => Value.divide type.attrType left right
  match result with
  | .error (.rc _) => .ok (NumericValue.zero type).toValue
  | result => result

end ArithmeticType

/-! ## Expressions -/

/-- Arithmetic over columns and constants.  A negation has the constant `NULL` as its second
child. -/
inductive NumericExpr (F : Type) where
  | field (column : FieldExpr) (fieldType : ColumnType) (fieldId : Nat)
  | value (value : NumericValue F)
  | binary (arithmeticType : ArithmeticType) (left right : NumericExpr F)
  | negative (child : NumericExpr F)

namespace NumericExpr

/-- `value_type`. -/
def valueType : NumericExpr F → ColumnType
  | field _ fieldType _ => fieldType
  | value v => v.type
  | binary arithmeticType left right =>
    if left.valueType = .ints ∧ right.valueType = .ints ∧ arithmeticType ≠ .div then .ints
    else .floats
  | negative _ => .floats

variable [Floats F]

/-- `get_value`. -/
def getValue (findCell : TupleCellSpec → Except Fault (Value F)) :
    NumericExpr F → Except Fault (Value F)
  | field column _ _ => findCell column.fieldSpec
  | value v => .ok v.toValue
  | binary arithmeticType left right => do
    let leftValue ← left.getValue findCell
    let rightValue ← right.getValue findCell
    arithmeticType.calcValue (binary arithmeticType left right).valueType leftValue rightValue
  | negative child => do
    let value ← child.getValue findCell
    Value.negative (negative child).valueType.attrType value

variable [FloatBits F]

/-- `execute_calc`. -/
def executeCalc (simd : Bool) (arithmeticType : ArithmeticType) (type : ColumnType)
    (left right : Column F) (size : Nat) : Except Fault (List (Cell F)) :=
  match type with
  | .ints => do
    let cells ← binaryOperator simd (arithmeticType.simdIntOperation F · ·)
      (arithmeticType.intOperation · ·) (left.data.map Cell.asInt) (right.data.map Cell.asInt)
      left.isConstant right.isConstant size
    .ok (cells.map .int)
  | .floats => do
    let cells ← binaryOperator simd (arithmeticType.simdFloatOperation · ·)
      (fun x y => .ok (arithmeticType.floatOperation x y)) (left.data.map Cell.asFloat)
      (right.data.map Cell.asFloat) left.isConstant right.isConstant size
    .ok (cells.map .float)
  | .dates => .error (.rc .unimplemented)

/-- `calc_column`. -/
def calcColumn (simd : Bool) (arithmeticType : ArithmeticType) (type : ColumnType)
    (left right : Column F) : Except Fault (Column F) := do
  let cells ← executeCalc simd arithmeticType type left right
    (max left.data.length right.data.length)
  .ok ⟨type, left.isConstant && right.isConstant, cells⟩

/-- `calc_column` for a negation, into `FLOATS`; the column of `NULL` has one cell. -/
def negateColumn (column : Column F) : Except Fault (Column F) := do
  let cells ← unaryOperator (fun x : F => -x) (column.data.map Cell.asFloat) column.isConstant
    (max column.data.length 1)
  .ok ⟨.floats, column.isConstant, cells.map .float⟩

/-- `get_column`. -/
def getColumn (simd : Bool) (chunk : Chunk F) : NumericExpr F → Except Fault (Column F)
  | field _ _ fieldId => elementAt chunk fieldId
  | value v => .ok ⟨v.type, true, [v.cell]⟩
  | binary arithmeticType left right => do
    let leftColumn ← left.getColumn simd chunk
    let rightColumn ← right.getColumn simd chunk
    calcColumn simd arithmeticType (binary arithmeticType left right).valueType leftColumn
      rightColumn
  | negative child => do negateColumn (← child.getColumn simd chunk)

end NumericExpr

/-! ## Comparisons -/

namespace ComparisonExpr

/-- What `compare_result` does with two elements; another operator leaves the rows as they are. -/
def operation {T : Type} (eq lt : T → T → Bool) (left right : T) : CompOp → Option Bool
  | .equalTo => some (eq left right)
  | .notEqual => some (!eq left right)
  | .greatEqual => some (lt right left || eq left right)
  | .greatThan => some (lt right left)
  | .lessEqual => some (lt left right || eq left right)
  | .lessThan => some (lt left right)
  | _ => none

/-- The number of rows that `compare_column` compares. -/
def rowCount (left right : Column F) : Nat :=
  if left.isConstant && !right.isConstant then right.data.length else left.data.length

/-- `compare_column`. -/
def compareColumn {T : Type} (simd : Bool) (eq lt : T → T → Bool) (read : Cell F → T)
    (comp : CompOp) (left right : Column F) (select : List UInt8) : Except Fault (List UInt8) :=
  match comp with
  | .equalTo | .notEqual | .greatEqual | .greatThan | .lessEqual | .lessThan =>
    compareOperation simd (fun x y => (operation eq lt x y comp).getD true) (left.data.map read)
      (right.data.map read) left.isConstant right.isConstant (rowCount left right) select
  | _ => .ok select

variable [Floats F]

/-- `get_value`, with the sides as its children. -/
def getValue [StrLike F] (findCell : TupleCellSpec → Except Fault (Value F)) (comp : CompOp)
    (left right : NumericExpr F) : Except Fault (Value F) := do
  let leftValue ← left.getValue findCell
  let rightValue ← right.getValue findCell
  (evalComp comp leftValue rightValue).map .booleans

variable [FloatBits F]

/-- `eval`. -/
def eval (simd : Bool) (chunk : Chunk F) (comp : CompOp) (left right : NumericExpr F)
    (select : List UInt8) : Except Fault (List UInt8) := do
  let leftColumn ← left.getColumn simd chunk
  let rightColumn ← right.getColumn simd chunk
  if leftColumn.type ≠ rightColumn.type then .error (.rc .internal)
  else match leftColumn.type with
    | .ints | .dates =>
      compareColumn simd (fun x y : Int32 => decide (x = y)) (fun x y => decide (x < y)) Cell.asInt
        comp leftColumn rightColumn select
    | .floats =>
      compareColumn simd FloatBits.eq (Floats.lt (F := F)) Cell.asFloat comp leftColumn rightColumn
        select

end ComparisonExpr

/-- The numbers of single precision. -/
instance : FloatBits ℚ where
  ofBits bits :=
    let n : Nat := bits.toUInt32.toNat
    let exponent : Nat := n / 2 ^ 23 % 256
    let mantissa : Nat := n % 2 ^ 23
    let sign : ℚ := if n < 2 ^ 31 then 1 else -1
    if exponent = 0 then sign * mantissa / 2 ^ 149
    else sign * (2 ^ 23 + mantissa) * 2 ^ exponent / 2 ^ 150
  toBits := bitsOfRat
  eq x y := decide (x = y)

end Sql

end ObHtap
