import ObHtap.Sql.Value

/-!
# Expressions

The expressions that the plans look into (`expression.cpp`): fields, constants, casts,
comparisons, conjunctions and aggregates.  Those of other kinds are a parameter.
-/

namespace ObHtap

namespace Sql

structure TupleCellSpec where
  tableName : String
  fieldName : String
  aliasName : String
  deriving DecidableEq, Repr

/-- A column of a table, under the alias that the table has in the query. -/
structure FieldExpr where
  tableName : String
  fieldName : String
  tableAlias : String
  deriving DecidableEq, Repr

/-- `field_alias`. -/
def FieldExpr.fieldAlias (field : FieldExpr) : String :=
  field.tableAlias ++ "." ++ field.fieldName

/-- `field_spec_`. -/
def FieldExpr.fieldSpec (field : FieldExpr) : TupleCellSpec where
  tableName := field.tableName
  fieldName := field.fieldName
  aliasName := field.fieldAlias

inductive CompOp where
  | equalTo
  | lessEqual
  | notEqual
  | lessThan
  | greatEqual
  | greatThan
  | isNull
  | isNot
  | likeOp
  | inValueList
  | notInValueList
  | notLikeOp
  | noOp
  deriving DecidableEq, Repr

/-- `ConjunctionExpr::Type`. -/
inductive ConjunctionType where
  | and
  | or
  deriving DecidableEq, Repr

/-- `AggregateExpr::Type`. -/
inductive AggregateType where
  | count
  | sum
  | avg
  | max
  | min
  deriving DecidableEq, Repr

/-- The expressions; those of other kinds are from `O`. -/
inductive Expression (F O : Type) where
  | field (field : FieldExpr)
  | value (value : Value F)
  | cast (child : Expression F O) (castType : AttrType)
  | comparison (comp : CompOp) (left right : Expression F O)
  | conjunction (conjunctionType : ConjunctionType) (children : List (Expression F O))
  | aggregate (aggregateType : AggregateType) (child : Expression F O) (name : String)
  | other (expr : O)

/-- `Value::str_like`: it prints its arguments and leaves the match to `std::regex`.  And the
handler that the cells of HIGH_VECTORS have, with the elements that it reads from a page. -/
class StrLike (F : Type) where
  strLike : Value F → Value F → Except Fault Bool
  vectorHandler : Option (Int32 → Except Fault (List F)) := none

/-- What an expression reads: `Tuple::find_cell`, and the values of the expressions of other
kinds. -/
structure Cells (F O : Type) where
  findCell : TupleCellSpec → Except Fault (Value F)
  other : O → Except Fault (Value F)

variable {F O : Type} [Floats F]

/-! ## Comparisons -/

/-- The number of values in a list; any other value is one value. -/
def Value.listSize : Value F → Nat
  | .valuesLists values => values.length
  | _ => 1

namespace ComparisonExpr

/-- The comparison with the result of `Value::compare`, when no operand is `NULL`. -/
def ofCmpResult (comp : CompOp) (cmpResult : Int) : Except Fault Bool :=
  if cmpResult = int32Max ∨ cmpResult = -int32Max then .ok false
  else match comp with
    | .equalTo | .inValueList => .ok (cmpResult = 0)
    | .lessEqual => .ok (cmpResult ≤ 0)
    | .notInValueList | .notEqual => .ok (cmpResult ≠ 0)
    | .lessThan => .ok (cmpResult < 0)
    | .greatEqual => .ok (0 ≤ cmpResult)
    | .greatThan => .ok (0 < cmpResult)
    | .isNull => .ok (cmpResult = 0)
    | .isNot => .ok (cmpResult ≠ 0)
    | .likeOp | .notLikeOp | .noOp => .error (.rc .internal)

/-- The comparison with a `NULL`; `none` goes on to the general comparison. -/
def ofNull (comp : CompOp) (leftNull rightNull : Bool) : Option Bool :=
  match comp with
  | .isNot => if rightNull then some (!leftNull) else none
  | .isNull => if rightNull then some leftNull else none
  | _ => some false

/-- `compare_value`. -/
def compareValue (comp : CompOp) (left right : Value F) : Except Fault Bool := do
  let cmpResult ← left.compare right
  if 1 < left.listSize then .error (.rc .error)
  else if left.listSize = 0 then
    if comp = .notEqual then .error (.rc .error) else .ok false
  else if 1 < right.listSize then .error (.rc .error)
  else if right.listSize = 0 then
    if comp = .notInValueList then .ok true
    else if comp = .notEqual then .error (.rc .error) else .ok false
  else if left.isNull ∨ right.isNull then
    match ofNull comp left.isNull right.isNull with
    | some result => .ok result
    | none => ofCmpResult comp cmpResult
  else ofCmpResult comp cmpResult

theorem ofCmpResult_error {comp : CompOp} {cmpResult : Int} {fault : Fault}
    (h : ofCmpResult comp cmpResult = .error fault) : ∃ rc, fault = .rc rc := by
  unfold ofCmpResult at h
  split_ifs at h
  cases comp with
  | likeOp | notLikeOp | noOp =>
    cases h
    exact ⟨_, rfl⟩
  | _ => cases h

/-- Two values that `Value::compare` takes are compared, or refused with a return code. -/
theorem compareValue_error {comp : CompOp} {left right : Value F} {cmpResult : Int} {fault : Fault}
    (hcompare : left.compare right = .ok cmpResult)
    (h : compareValue comp left right = .error fault) : ∃ rc, fault = .rc rc := by
  rw [compareValue, hcompare] at h
  change (if _ then _ else _) = _ at h
  split_ifs at h
  · cases h
    exact ⟨_, rfl⟩
  · cases h
    exact ⟨_, rfl⟩
  · cases h
    exact ⟨_, rfl⟩
  · cases h
    exact ⟨_, rfl⟩
  · split at h
    · cases h
    · exact ofCmpResult_error h
  · exact ofCmpResult_error h

/-- The loop of `IN`; `last` is the return code of the value before, with which the loop ends. -/
def inLoop (left : Value F) : List (Value F) → Except Fault Bool → Except Fault Bool
  | [], last => last
  | value :: values, _ =>
    match compareValue .inValueList left value with
    | .ok true => .ok true
    | .error .abort => .error .abort
    | last => inLoop left values last

/-- The loop of `NOT IN`, which a failed comparison ends. -/
def notInLoop (left : Value F) : List (Value F) → Except Fault Bool
  | [] => .ok true
  | value :: values =>
    match compareValue .notInValueList left value with
    | .ok true => notInLoop left values
    | stop => stop

/-- The comparison of two values in `ComparisonExpr::get_value`. -/
def evalComp [StrLike F] (comp : CompOp) (left right : Value F) : Except Fault Bool :=
  match comp with
  | .inValueList =>
    match right with
    | .valuesLists values => inLoop left values (.ok false)
    | _ => .error (.rc .unsupported)
  | .notInValueList =>
    match right with
    | .valuesLists values => notInLoop left values
    | _ => .error (.rc .unsupported)
  | .likeOp => StrLike.strLike left right
  | .notLikeOp => (StrLike.strLike left right).map (!·)
  | comp => compareValue comp left right

/-- `ComparisonExpr::try_get_value`. -/
def tryGetValue (comp : CompOp) :
    Expression F O → Expression F O → Except Fault (Value F)
  | .value left, .value right => (compareValue comp left right).map .booleans
  | _, _ => .error (.rc .invalidArgument)

end ComparisonExpr

/-! ## Values of expressions -/

/-- `CastExpr::cast`. -/
def CastExpr.cast [StrLike F] (castType : AttrType) (value : Value F) : Except Fault (Value F) :=
  if castType = value.attrType then .ok value
  else value.castWith StrLike.vectorHandler castType

namespace Expression

variable [StrLike F]

mutual

/-- `get_value`. -/
def getValue (tuple : Cells F O) : Expression F O → Except Fault (Value F)
  | .field column => tuple.findCell column.fieldSpec
  | .value v => .ok v
  | .cast child castType => do CastExpr.cast castType (← getValue tuple child)
  | .comparison comp left right => do
    let leftValue ← getValue tuple left
    let rightValue ← getValue tuple right
    (ComparisonExpr.evalComp comp leftValue rightValue).map .booleans
  | .conjunction _ [] => .ok (.booleans true)
  | .conjunction conjunctionType (child :: children) =>
    conjunctionValue tuple conjunctionType (child :: children)
  | .aggregate _ _ name => tuple.findCell ⟨"", "", name⟩
  | .other expr => tuple.other expr

/-- The loop of `ConjunctionExpr::get_value`. -/
def conjunctionValue (tuple : Cells F O) (conjunctionType : ConjunctionType) :
    List (Expression F O) → Except Fault (Value F)
  | [] => .ok (.booleans (conjunctionType = .and))
  | child :: children => do
    let value ← getValue tuple child
    if conjunctionType = .and ∧ value.getBoolean = false ∨
        conjunctionType = .or ∧ value.getBoolean = true then
      .ok (.booleans value.getBoolean)
    else conjunctionValue tuple conjunctionType children

end

/-- The boolean that the value of an expression stands for. -/
def getBoolean (tuple : Cells F O) (expr : Expression F O) : Except Fault Bool :=
  (expr.getValue tuple).map Value.getBoolean

end Expression

/-! ## Strings without special characters -/

def toLower (c : UInt8) : UInt8 :=
  if 65 ≤ c ∧ c ≤ 90 then c + 32 else c

/-- The match of a pattern with `%` and `_`, in any case of the letters. -/
def likeMatch : List UInt8 → List UInt8 → Bool
  | [], s => s = []
  | 37 :: pattern, s => s.tails.any (likeMatch pattern)
  | 95 :: pattern, s => s ≠ [] ∧ likeMatch pattern s.tail
  | c :: pattern, s => s.head?.map toLower = some (toLower c) ∧ likeMatch pattern s.tail

/-- The match of strings that `std::regex` takes letter by letter; no other value is printed. -/
instance : StrLike ℚ where
  strLike
    | .chars s, .chars pattern => .ok (likeMatch (pattern.getD []) (s.getD []))
    | _, _ => .error .abort

end Sql

end ObHtap
