import ObHtap.Sql.Expression

/-!
# Tuples

The tuples that the physical operators hand on (`tuple.h`, `expression_tuple.h`,
`composite_tuple.cpp`), and how a cell is found in them.
-/

namespace ObHtap

namespace Sql

variable {F O : Type}

/-- An expression of a select list with its name. -/
structure NamedExpr (F O : Type) where
  name : String
  expr : Expression F O

/-- A record of a table under an alias: its fields by name. -/
structure Row (F : Type) where
  tableName : String
  tableAlias : String
  fields : List (String × Value F)

inductive Tuple (F O : Type) where
  | row (row : Row F)
  | joined (left right : Tuple F O)
  | valueList (specs : List TupleCellSpec) (cells : List (Value F))
  | composite (tuples : List (Tuple F O))
  | expression (expressions : List (NamedExpr F O)) (childTuple : Option (Tuple F O))
  | empty

/-- `RowTuple::find_cell`. -/
def Row.findCell (row : Row F) (spec : TupleCellSpec) : Except Fault (Value F) :=
  if spec.tableName ≠ row.tableName then .error (.rc .notFound)
  else match row.fields.find? fun field =>
      spec.aliasName = FieldExpr.fieldAlias ⟨row.tableName, field.1, row.tableAlias⟩ with
    | some field => .ok field.2
    | none => .error (.rc .notFound)

/-- `ValueListTuple::find_cell`. -/
def findCellOfList : List TupleCellSpec → List (Value F) → TupleCellSpec → Except Fault (Value F)
  | [], [], _ => .error (.rc .notFound)
  | spec' :: specs, cell :: cells, spec =>
    if spec' = spec then .ok cell else findCellOfList specs cells spec
  | _, _, _ => .error .abort

/-- The expressions of other kinds. -/
class OtherExpr (F O : Type) where
  getValue : (TupleCellSpec → Except Fault (Value F)) → O → Except Fault (Value F)
  tryGetValue : O → Except Fault (Value F)
  /-- `pure_value`: functions of constants have it. -/
  pureValue : O → Bool
  /-- The type that `get_value` gives the result before it writes it, as `ArithmeticExpr` does. -/
  typedFirst : O → Option AttrType

instance : OtherExpr ℚ Empty where
  getValue _ := nofun
  tryGetValue := nofun
  pureValue := nofun
  typedFirst := nofun

namespace Expression

/-- `pure_value`. -/
def pureValue [OtherExpr F O] : Expression F O → Bool
  | .value _ => true
  | .other expr => OtherExpr.pureValue F expr
  | _ => false

variable [Floats F]

/-- `try_get_value`; `other` has that of the expressions of other kinds. -/
def tryGetValue [StrLike F] (other : O → Except Fault (Value F)) :
    Expression F O → Except Fault (Value F)
  | .value v => .ok v
  | .cast child castType => do CastExpr.cast castType (← tryGetValue other child)
  | .comparison comp left right => ComparisonExpr.tryGetValue comp left right
  | .field _ | .conjunction _ _ | .aggregate _ _ _ => .error (.rc .unimplemented)
  | .other expr => other expr

end Expression

namespace Tuple

variable [Floats F] [StrLike F] [OtherExpr F O]

/-- What an expression reads from a tuple. -/
def cellsOf (findCell : TupleCellSpec → Except Fault (Value F)) : Cells F O where
  findCell := findCell
  other := OtherExpr.getValue findCell

/-- `ExpressionTuple::get_value`. -/
def expressionValue (findCell : Option (TupleCellSpec → Except Fault (Value F)))
    (expr : Expression F O) : Except Fault (Value F) :=
  match findCell with
  | some findCell => expr.getValue (cellsOf findCell)
  | none => expr.tryGetValue OtherExpr.tryGetValue

mutual

/-- `find_cell`. -/
def findCell : Tuple F O → TupleCellSpec → Except Fault (Value F)
  | .row r, spec => r.findCell spec
  | joined left right, spec =>
    match findCell left spec with
    | .error (.rc .notFound) => findCell right spec
    | result => result
  | valueList specs cells, spec => findCellOfList specs cells spec
  | composite tuples, spec => findCellIn tuples spec (.error (.rc .notFound))
  | expression expressions none, spec =>
    match expressions.find? fun named => spec.aliasName = named.name with
    | some named => expressionValue none named.expr
    | none => .error (.rc .notFound)
  | expression expressions (some childTuple), spec =>
    match findCell childTuple spec with
    | .error (.rc _) =>
      match expressions.find? fun named => spec.aliasName = named.name with
      | some named => expressionValue (some (findCell childTuple)) named.expr
      | none => .error (.rc .notFound)
    | result => result
  | empty, _ => .error (.rc .notFound)

/-- The loop of `CompositeTuple::find_cell`, which ends with the return code of the last tuple. -/
def findCellIn : List (Tuple F O) → TupleCellSpec → Except Fault (Value F) →
    Except Fault (Value F)
  | [], _, last => last
  | tuple :: tuples, spec, _ =>
    match findCell tuple spec with
    | .error (.rc rc) => findCellIn tuples spec (.error (.rc rc))
    | result => result

end

/-- The value of an expression on a tuple. -/
def eval (tuple : Tuple F O) (expr : Expression F O) : Except Fault (Value F) :=
  expr.getValue (cellsOf tuple.findCell)

mutual

/-- The cells in their order: `cell_at` for each index below `cell_num`. -/
def cells : Tuple F O → List (Except Fault (Value F))
  | .row r => r.fields.map fun field => .ok field.2
  | joined left right => cells left ++ cells right
  | valueList _ cells => cells.map .ok
  | composite tuples => cellsIn tuples
  | expression expressions none =>
    expressions.map fun named => expressionValue none named.expr
  | expression expressions (some childTuple) =>
    expressions.map fun named =>
      expressionValue (some (findCell childTuple)) named.expr
  | empty => []

def cellsIn : List (Tuple F O) → List (Except Fault (Value F))
  | [] => []
  | tuple :: tuples => cells tuple ++ cellsIn tuples

end

mutual

/-- `spec_at` for each index. -/
def specs : Tuple F O → List TupleCellSpec
  | .row r => r.fields.map fun field =>
    ⟨r.tableName, field.1, r.tableName ++ "." ++ field.1⟩
  | joined left right => specs left ++ specs right
  | valueList specs _ => specs
  | composite tuples => specsIn tuples
  | expression expressions _ => expressions.map fun named => ⟨"", "", named.name⟩
  | empty => []

def specsIn : List (Tuple F O) → List TupleCellSpec
  | [] => []
  | tuple :: tuples => specs tuple ++ specsIn tuples

end

end Tuple

end Sql

end ObHtap
