import ObHtap.Sql.Tuple

/-!
# A value that is written again and again

`GroupByPhysicalOperator::aggregate` reads all cells of a tuple into one `Value`.
`RowTuple::cell_at` sets the type of it and writes four bytes over what was there, so that a pointer
to memory that the value owns may be lost and something else freed in its place.
-/

namespace ObHtap

/-- The types whose values are in memory of their own. -/
def AttrType.inMemory : AttrType → Bool
  | .chars | .vectors | .valuesLists => true
  | _ => false

namespace Sql

/-- The union `value_`: memory of its own, or a number in its lower half, below zero or below what
has been left there of a pointer. -/
inductive UnionBits where
  | memory
  | number (isZero pointerAbove : Bool)
  deriving DecidableEq

/-- Four bytes into the lower half. -/
def UnionBits.overwrite (isZero : Bool) : UnionBits → UnionBits
  | memory => number isZero true
  | number _ pointerAbove => number isZero pointerAbove

/-- `attr_type_`, `own_data_` and `value_`. -/
structure SharedValue where
  attrType : AttrType
  ownData : Bool
  bits : UnionBits

section

variable {F : Type} [Floats F]

/-- The four bytes of a value that is not in memory of its own are all zero. -/
def Value.isZero : Value F → Bool
  | .ints n | .dates n | .texts n | .highVectors n => n = 0
  | .floats x => Floats.bits x = 0
  | .booleans b => !b
  | _ => false

/-- A string of no bytes. -/
def Value.isEmptyString : Value F → Bool
  | .chars s => (s.getD []).isEmpty
  | _ => false

namespace SharedValue

/-- `Value value;`. -/
def fresh : SharedValue :=
  ⟨.undefined, false, .number true false⟩

/-- `reset`; none when it would free what it has not allocated. -/
def reset (shared : SharedValue) : Option SharedValue :=
  if shared.attrType.inMemory ∧ shared.ownData then
    match shared.bits with
    | .memory | .number true false => some ⟨.undefined, false, .number true false⟩
    | .number _ _ => none
  else some ⟨.undefined, false, shared.bits⟩

/-- The value of a column of a row: `RowTuple::cell_at`. -/
def setCell (value : Value F) (shared : SharedValue) : Option SharedValue :=
  if value.attrType.inMemory then
    -- `set_string` and `set_data` reset the value when it has its new type already.
    ({ shared with attrType := value.attrType }).reset.map fun _ =>
      ⟨value.attrType, true, .memory⟩
  else if value.isNull then
    shared.reset.map fun shared => ⟨.nulls, false, shared.bits.overwrite false⟩
  else some ⟨value.attrType, shared.ownData, shared.bits.overwrite value.isZero⟩

/-- `set_string`, `set_int` and the others. -/
def set (value : Value F) (shared : SharedValue) : Option SharedValue :=
  shared.reset.map fun shared =>
    if value.attrType.inMemory then ⟨value.attrType, true, .memory⟩
    else ⟨value.attrType, false, shared.bits.overwrite value.isZero⟩

/-- `operator=`; a string of no bytes leaves the union as it is. -/
def assign (value : Value F) (shared : SharedValue) : Option SharedValue :=
  if value.isEmptyString then shared.reset.map fun shared => ⟨.chars, true, shared.bits⟩
  else if value.attrType.inMemory then shared.set value
  else shared.reset.map fun _ => ⟨value.attrType, false, .number value.isZero false⟩

/-- The end of a function whose local variable the value is. -/
def destroy (shared : SharedValue) (result : Except Fault Unit) : Except Fault Unit :=
  if shared.reset.isSome then result else .error .abort

theorem destroy_error (shared : SharedValue) (fault : Fault) :
    shared.destroy (.error fault) ≠ .ok () := by
  unfold destroy
  split <;> nofun

end SharedValue

end

/-- What writes a value: a column of a row, an assignment, a `set_` function of `Value`, or one of
them after the type has been set. -/
inductive Writer where
  | cell
  | assign
  | set
  | typed (attrType : AttrType)

variable {F O : Type} [Floats F]

def Writer.write (writer : Writer) (value : Value F) (shared : SharedValue) : Option SharedValue :=
  match writer with
  | cell => shared.setCell value
  | assign => shared.assign value
  | set => shared.set value
  | typed attrType => ({ shared with attrType }).set value

variable [StrLike F] [OtherExpr F O]

/-- What writes the value of an expression, from what writes the cells that it reads. -/
def Expression.writer (cells : TupleCellSpec → Writer)
    (eval : Expression F O → Except Fault (Value F)) : Expression F O → Writer
  | .field column => cells column.fieldSpec
  | .aggregate _ _ name => cells ⟨"", "", name⟩
  | .value _ => .assign
  | .comparison _ _ _ | .conjunction _ _ => .set
  | .cast child castType =>
    match eval child with
    | .ok v => if castType = v.attrType then .assign else .set
    | .error _ => .set
  | .other expr => (OtherExpr.typedFirst F expr).elim .assign .typed

mutual

/-- What writes the cell that `find_cell` finds. -/
def Tuple.writer : Tuple F O → TupleCellSpec → Writer
  | .row _, _ => .cell
  | .joined left right, spec =>
    match left.findCell spec with
    | .error (.rc .notFound) => right.writer spec
    | _ => left.writer spec
  | .valueList _ _, _ | .empty, _ => .assign
  | .composite tuples, spec => Tuple.writerIn tuples spec
  | .expression expressions none, spec =>
    match expressions.find? fun named => spec.aliasName = named.name with
    | some named => named.expr.writer (fun _ => .assign) (Tuple.expressionValue none)
    | none => .assign
  | .expression expressions (some childTuple), spec =>
    match childTuple.findCell spec with
    | .error (.rc _) =>
      match expressions.find? fun named => spec.aliasName = named.name with
      | some named => named.expr.writer childTuple.writer childTuple.eval
      | none => .assign
    | _ => childTuple.writer spec

def Tuple.writerIn : List (Tuple F O) → TupleCellSpec → Writer
  | [], _ => .assign
  | tuple :: tuples, spec =>
    match tuple.findCell spec with
    | .error (.rc _) => Tuple.writerIn tuples spec
    | _ => tuple.writer spec

end

/-- The value of an expression on a tuple, read into a value that has been written before. -/
def Tuple.readInto (tuple : Tuple F O) (expr : Expression F O) (shared : SharedValue) :
    Except Fault (Value F × SharedValue) := do
  let value ← tuple.eval expr
  match (expr.writer tuple.writer tuple.eval).write value shared with
  | some shared => .ok (value, shared)
  | none => .error .abort

theorem Tuple.eval_of_readInto {tuple : Tuple F O} {expr : Expression F O} {value : Value F}
    {shared shared' : SharedValue} (h : tuple.readInto expr shared = .ok (value, shared')) :
    tuple.eval expr = .ok value := by
  obtain ⟨value', heval, h⟩ := bind_eq_ok h
  split at h
  · cases h
    exact heval
  · cases h

/-- The values of expressions can be read into one value, which is destroyed in the end. -/
def Tuple.readsAll (tuple : Tuple F O) : SharedValue → List (Expression F O) → Bool
  | shared, [] => shared.reset.isSome
  | shared, expr :: exprs =>
    match tuple.readInto expr shared with
    | .ok (_, shared) => tuple.readsAll shared exprs
    | .error _ => false

end Sql

end ObHtap
