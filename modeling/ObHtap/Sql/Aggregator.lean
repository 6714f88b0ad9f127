import ObHtap.Sql.Value
import ObHtap.Sql.Expression

/-!
# Aggregators

`aggregator.cpp`: what the aggregate functions keep while they read values.
-/

namespace ObHtap

namespace Sql

/-- `value_`, and `count` of `AvgAggregator`. -/
structure Aggregator (F : Type) where
  aggregateType : AggregateType
  value : Value F
  count : Int

namespace Aggregator

variable {F : Type} [Floats F]

/-- `create_aggregator`. -/
def create (aggregateType : AggregateType) : Aggregator F :=
  ⟨aggregateType, .undefined, 0⟩

/-- There is no value yet. -/
def hasNoValue (aggregator : Aggregator F) : Bool :=
  aggregator.value.attrType = .undefined ∨ aggregator.value.attrType = .nulls

/-- `Value::add(value, value_, value_)`, whose return code is ignored. -/
def addValue (aggregator : Aggregator F) (value : Value F) : Except Fault (Aggregator F) :=
  match Value.add aggregator.value.attrType value aggregator.value with
  | .ok sum => .ok { aggregator with value := sum }
  | .error (.rc _) => .ok aggregator
  | .error fault => .error fault

/-- `accumulate`. -/
def accumulate (aggregator : Aggregator F) (value : Value F) : Except Fault (Aggregator F) :=
  match aggregator.aggregateType with
  | .count =>
    let aggregator :=
      if aggregator.value.attrType = .undefined then { aggregator with value := .ints 0 }
      else aggregator
    if value.isNull then .ok aggregator
    else do
      let sum ← Value.add .ints aggregator.value (.ints 1)
      .ok { aggregator with value := sum }
  | .sum =>
    if aggregator.hasNoValue then .ok { aggregator with value := value }
    else if value.attrType ≠ aggregator.value.attrType then .error .abort
    else aggregator.addValue value
  | .avg =>
    if aggregator.hasNoValue then
      .ok { aggregator with
        value := value, count := aggregator.count + if value.isNull then 0 else 1 }
    else if value.attrType ≠ aggregator.value.attrType then .error .abort
    else do
      let added ← aggregator.addValue value
      .ok { added with count := added.count + 1 }
  | .max =>
    if aggregator.hasNoValue then .ok { aggregator with value := value }
    else if value.isNull then .ok aggregator
    else if value.attrType ≠ aggregator.value.attrType then .error .abort
    else do
      let cmpResult ← value.compare aggregator.value
      .ok (if 0 < cmpResult then { aggregator with value := value } else aggregator)
  | .min =>
    if aggregator.hasNoValue then .ok { aggregator with value := value }
    else if value.isNull then .ok aggregator
    else do
      let cmpResult ← value.compare aggregator.value
      .ok (if cmpResult < 0 then { aggregator with value := value } else aggregator)

/-- `AvgAggregator::evaluate` of a sum that is not `NULL`. -/
def average (sum : Value F) (count : Int) : Except Fault (Value F) :=
  let dividend : Value F := match sum with
    | .ints v => .floats (Floats.ofInt v.toInt)
    | sum => sum
  match Value.divide dividend.attrType dividend (.floats (Floats.ofInt count)) with
  | .error (.rc _) => .ok dividend
  | result => result

/-- `evaluate`: the result, and the aggregator after it. -/
def evaluate (aggregator : Aggregator F) : Except Fault (Value F × Aggregator F) :=
  match aggregator.aggregateType with
  | .sum | .max | .min =>
    .ok (if aggregator.value.attrType = .undefined then .nulls else aggregator.value, aggregator)
  | .count =>
    .ok (if aggregator.value.attrType = .undefined then .ints 0 else aggregator.value, aggregator)
  | .avg =>
    if aggregator.hasNoValue then .ok (.nulls, { aggregator with value := .nulls })
    else do
      let value ← average aggregator.value aggregator.count
      .ok (value, { aggregator with value := value })

end Aggregator

end Sql

end ObHtap
