import ObHtap.Sql.LogicalPlan
import ObHtap.Sql.SelectStmt

/-!
# The plans of select statements

`LogicalPlanGenerator` on `SELECT`: the comparisons of the tables, the rest of them above the joins,
then sort, limit, grouping and projection.
-/

namespace ObHtap

namespace Sql

/-- `cast_cost`; `none` stands for `INT32_MAX`. -/
def castCost (source target : AttrType) : Option Nat :=
  if source = target then some 0
  else match source, target with
    | .chars, .ints => some 10
    | .chars, .floats => some 10
    | .ints, .floats => some 1
    | .highVectors, .vectors => some 1
    | _, _ => none

variable {F O : Type} [Floats F] [StrLike F] [ExprTypes F O]

namespace Expression

/-- One side of a comparison as the other type: a constant is cast at once. -/
def implicitCast (expr : Expression F O) (castType : AttrType) : Except Fault (Expression F O) :=
  match expr with
  | .value v => do .ok (.value (← CastExpr.cast castType v))
  | expr => .ok (.cast expr castType)

end Expression

/-- Whether the left side is cast. -/
def castsLeft (leftCost rightCost : Option Nat) : Bool :=
  match leftCost, rightCost with
  | some leftCost, some rightCost => leftCost ≤ rightCost
  | some _, none => true
  | none, _ => false

/-- The comparison of a filter unit, with its casts. -/
def Condition.comparison (condition : Condition F O) : Except Fault (Expression F O) :=
  let left := condition.left
  let right := condition.right
  match condition.comp with
  | .isNull | .isNot => .ok (.comparison condition.comp left right)
  | .likeOp | .notLikeOp =>
    if right.valueType ≠ .chars ∨ left.valueType ≠ .chars then .error (.rc .error)
    else .ok (.comparison condition.comp left right)
  | .inValueList | .notInValueList =>
    if right.valueType ≠ .valuesLists then .error (.rc .unsupported)
    else .ok (.comparison condition.comp left right)
  | comp =>
    if left.valueType = .valuesLists ∨ right.valueType = .valuesLists then
      .ok (.comparison comp left right)
    else if left.valueType ≠ right.valueType ∧ right.valueType ≠ .nulls ∧
        left.valueType ≠ .nulls then
      let leftCost := castCost left.valueType right.valueType
      let rightCost := castCost right.valueType left.valueType
      if castsLeft leftCost rightCost then do
        .ok (.comparison comp (← left.implicitCast right.valueType) right)
      else if rightCost.isSome then do
        .ok (.comparison comp left (← right.implicitCast left.valueType))
      else .error (.rc .unsupported)
    else .ok (.comparison comp left right)

/-- `create_plan(FilterStmt)`: the expression of the predicate, whose connective is that of the last
unit. -/
def filterExpression (units : List (FilterUnit F O)) :
    Except Fault (Option (Expression F O)) := do
  let comparisons ← units.mapM fun unit => unit.condition.comparison
  .ok (units.getLast?.map fun unit => .conjunction unit.conjunctionType comparisons)

/-- A predicate of the units over a plan. -/
def addPredicate (units : List (FilterUnit F O)) (plan : LogicalPlan F O) :
    Except Fault (LogicalPlan F O) := do
  match ← filterExpression units with
  | some expr => .ok (.unary (.predicate expr) plan)
  | none => .ok plan

/-- `check` on one side: a constant, or a column of a table whose name is among the aliases so
far. -/
def checkSide (tableSet : List String) : Expression F O → Bool
  | .field column => column.tableName ∈ tableSet
  | .value _ => true
  | _ => false

/-- `check`. -/
def check (tableSet : List String) (unit : FilterUnit F O) : Bool :=
  checkSide tableSet unit.condition.left && checkSide tableSet unit.condition.right

/-- A table read to the right of the plan. -/
def joinTable (plan tableGet : LogicalPlan F O) : LogicalPlan F O :=
  match plan with
  | .absent => tableGet
  | plan => .join plan tableGet

/-- The loop over the tables: the plan and the units that are left. -/
def createTables (tableSet : List String) (units : List (FilterUnit F O)) (plan : LogicalPlan F O) :
    List (String × String) → Except Fault (LogicalPlan F O × List (FilterUnit F O))
  | [] => .ok (plan, units)
  | table :: tables => do
    let tableSet := table.1 :: tableSet
    let current := units.filter (check tableSet)
    let plan ← addPredicate current (joinTable plan (.tableGet table.2 table.1 []))
    createTables tableSet (units.filter fun unit => !check tableSet unit) plan tables

/-! ## Grouping -/

namespace Expression

mutual

/-- `collector`: the aggregates of an expression, from the outside in. -/
def aggregates : Expression F O → Except Fault (List (AggregateCall F O))
  | .aggregate aggregateType child name => do
    .ok (⟨aggregateType, child, name⟩ :: (← child.aggregates))
  | .cast child _ => child.aggregates
  | .comparison _ left right => do .ok ((← left.aggregates) ++ (← right.aggregates))
  | .conjunction _ children => aggregatesIn children
  | .other expr => ExprTypes.otherAggregates expr
  | .field _ | .value _ => .ok []

def aggregatesIn : List (Expression F O) → Except Fault (List (AggregateCall F O))
  | [] => .ok []
  | child :: children => do .ok ((← child.aggregates) ++ (← aggregatesIn children))

end

/-- `FieldExpr::equal`; the aliases of the tables make no difference. -/
def equalsColumn (column : FieldExpr) : Expression F O → Bool
  | .field column' =>
    column.tableName = column'.tableName ∧ column.fieldName = column'.fieldName
  | _ => false

mutual

/-- `find_unbound_column`: a column that is not in an aggregate nor in an expression to group by. -/
def unboundColumn (groupBy : List (NamedExpr F O)) : Expression F O → Bool
  | .aggregate _ _ _ => false
  | .field column => !groupBy.any fun named => named.expr.equalsColumn column
  | .value _ => false
  | .cast child _ => child.unboundColumn groupBy
  | .comparison _ left right => left.unboundColumn groupBy || right.unboundColumn groupBy
  | .conjunction _ children => unboundColumnIn groupBy children
  | .other expr => ExprTypes.otherUnbound groupBy expr

def unboundColumnIn (groupBy : List (NamedExpr F O)) : List (Expression F O) → Bool
  | [] => false
  | child :: children => child.unboundColumn groupBy || unboundColumnIn groupBy children

end

end Expression

/-- The aggregates of the select list and of the conditions of `HAVING`. -/
def SelectStmt.aggregates (select : SelectStmt F O) : Except Fault (List (AggregateCall F O)) := do
  let query ← select.queryExpressions.mapM fun named => named.expr.aggregates
  let having ← select.groupByFilterUnits.mapM fun unit => do
    .ok ((← unit.condition.left.aggregates) ++ (← unit.condition.right.aggregates))
  .ok (query.flatten ++ having.flatten)

/-- `create_group_by_plan`: the aggregates, when there is a grouping. -/
def createGroupByPlan (select : SelectStmt F O) :
    Except Fault (Option (List (AggregateCall F O))) := do
  let aggregates ← select.aggregates
  if select.groupBy.isEmpty && aggregates.isEmpty then .ok none
  else if select.queryExpressions.any fun named => named.expr.unboundColumn select.groupBy then
    .error (.rc .invalidArgument)
  else .ok (some aggregates)

/-! ## Select statements -/

/-- The joins and the rest of the comparisons; a sub-query joins the tuple of the outer query to its
left. -/
def createFrom (select : SelectStmt F O) (isSubSelect : Bool) : Except Fault (LogicalPlan F O) := do
  let (plan, units) ← createTables [] select.filterUnits .absent select.tables
  addPredicate units (if isSubSelect then .join .fatherTuple plan else plan)

def addOrderBy (select : SelectStmt F O) (plan : LogicalPlan F O) : LogicalPlan F O :=
  if select.orderBy.isEmpty then plan else .unary (.orderBy select.orderBy) plan

def addLimit (select : SelectStmt F O) (plan : LogicalPlan F O) : LogicalPlan F O :=
  if 0 ≤ select.limit then .unary (.limit select.limit) plan else plan

def addGroupBy (select : SelectStmt F O) (plan : LogicalPlan F O) :
    Except Fault (LogicalPlan F O) := do
  match ← createGroupByPlan select with
  | some aggregates => .ok (.unary (.groupBy select.groupBy aggregates) plan)
  | none => .ok plan

/-- `LogicalPlanGenerator::create_plan(SelectStmt)`. -/
def createPlan (select : SelectStmt F O) (isSubSelect : Bool) : Except Fault (LogicalPlan F O) := do
  let tablesAndFilter ← createFrom select isSubSelect
  let grouped ← addGroupBy select (addLimit select (addOrderBy select tablesAndFilter))
  let filtered ← addPredicate select.groupByFilterUnits grouped
  .ok (.unary (.projection select.queryExpressions) filtered)

end Sql

end ObHtap
