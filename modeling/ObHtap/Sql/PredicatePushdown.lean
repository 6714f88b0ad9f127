import ObHtap.Sql.PlanRewriter

/-!
# What push-down keeps

The comparisons that a scan takes over are evaluated before the rest of the predicate.  When a pass
keeps what a plan gives, and when it does not.
-/

namespace ObHtap

namespace Sql

open Cursor

variable {F O : Type}

/-! ## Conjuncts -/

namespace Expression

mutual

/-- The expressions that the `AND`s of an expression join, in their order. -/
def conjuncts : Expression F O → List (Expression F O)
  | .conjunction .and children => conjunctsIn children
  | expr => [expr]

def conjunctsIn : List (Expression F O) → List (Expression F O)
  | [] => []
  | child :: children => child.conjuncts ++ conjunctsIn children

end

/-- No conjunct is an `OR`. -/
def OnlyAnd (expr : Expression F O) : Prop :=
  ∀ children, .conjunction .or children ∉ expr.conjuncts

/-- The comparisons that are taken out, and the conjuncts that stay. -/
def taken (exprs : List (Expression F O)) : List (Expression F O) :=
  exprs.filter pushable

def kept (exprs : List (Expression F O)) : List (Expression F O) :=
  exprs.filter fun expr => !expr.pushable

theorem taken_append (exprs exprs' : List (Expression F O)) :
    taken (exprs ++ exprs') = taken exprs ++ taken exprs' :=
  List.filter_append _ _

theorem kept_append (exprs exprs' : List (Expression F O)) :
    kept (exprs ++ exprs') = kept exprs ++ kept exprs' :=
  List.filter_append _ _

mutual

theorem getExprsCanPushdown_eq (expr : Expression F O) (h : expr.OnlyAnd) :
    ∃ stays, expr.getExprsCanPushdown = .ok (stays, taken expr.conjuncts) ∧
      conjunctsIn stays.toList = kept expr.conjuncts := by
  cases expr with
  | conjunction conjunctionType children =>
    cases conjunctionType with
    | or => exact absurd (List.mem_singleton_self _) (h children)
    | and =>
      obtain ⟨rest, hrest, hkept⟩ := pushdownChildren_eq children h
      refine ⟨some (.conjunction .and rest), ?_, ?_⟩
      · rw [getExprsCanPushdown, hrest]
        rfl
      · rw [Option.toList, conjunctsIn, conjunctsIn, List.append_nil]
        exact hkept
  | comparison comp left right =>
    rw [getExprsCanPushdown]
    cases hpushable : pushable (.comparison comp left right) with
    | true =>
      refine ⟨none, ?_, ?_⟩
      · simp [conjuncts, taken, hpushable]
      · simp [conjuncts, conjunctsIn, kept, hpushable]
    | false =>
      refine ⟨some (.comparison comp left right), ?_, ?_⟩
      · simp [conjuncts, taken, hpushable]
      · simp [conjuncts, conjunctsIn, kept, hpushable]
  | _ => exact ⟨_, rfl, rfl⟩

theorem pushdownChildren_eq (children : List (Expression F O))
    (h : ∀ expr, .conjunction .or expr ∉ conjunctsIn children) :
    ∃ rest, pushdownChildren children = .ok (rest, taken (conjunctsIn children)) ∧
      conjunctsIn rest = kept (conjunctsIn children) := by
  cases children with
  | nil => exact ⟨[], rfl, rfl⟩
  | cons child children =>
    obtain ⟨stays, hchild, hstays⟩ := getExprsCanPushdown_eq child
      fun expr hmem => h expr (List.mem_append_left _ hmem)
    obtain ⟨rest, hchildren, hrest⟩ := pushdownChildren_eq children
      fun expr hmem => h expr (List.mem_append_right _ hmem)
    refine ⟨stays.toList ++ rest, ?_, ?_⟩
    · rw [pushdownChildren, hchild, hchildren, conjunctsIn, taken_append]
      rfl
    · rw [conjunctsIn, kept_append, ← hstays, ← hrest]
      cases stays with
      | none => rfl
      | some expr => simp [conjunctsIn]

end

end Expression

theorem kept_of_taken_eq_nil {exprs : List (Expression F O)} (h : Expression.taken exprs = []) :
    Expression.kept exprs = exprs := by
  apply List.filter_eq_self.mpr
  intro expr hmem
  have hnone := List.filter_eq_nil_iff.mp h expr hmem
  simpa using hnone

/-! ## Predicates as filters -/

variable [Floats F] [StrLike F] [OtherExpr F O] {tuple : Tuple F O}

theorem filter_append (exprs exprs' : List (Expression F O)) :
    filter (exprs ++ exprs') tuple =
      (do if ← filter exprs tuple then filter exprs' tuple else .ok false) := by
  induction exprs with
  | nil => rfl
  | cons expr exprs ih =>
    rw [List.cons_append, filter, filter, ih]
    cases tuple.eval expr with
    | error fault => rfl
    | ok value =>
      change (if _ then _ else _) = (if _ then _ else _) >>= _
      cases value.getBoolean with
      | true => rfl
      | false => rfl

theorem filter_singleton (expr : Expression F O) :
    filter [expr] tuple = (tuple.eval expr).map Value.getBoolean := by
  rw [filter]
  cases tuple.eval expr with
  | error fault => rfl
  | ok value =>
    change (if _ then _ else _) = Except.ok _
    cases value.getBoolean with
    | true => rfl
    | false => rfl

mutual

/-- A predicate is the filter of its conjuncts. -/
theorem filter_conjuncts (expr : Expression F O) :
    filter expr.conjuncts tuple = (tuple.eval expr).map Value.getBoolean := by
  cases expr with
  | conjunction conjunctionType children =>
    cases conjunctionType with
    | or => exact filter_singleton _
    | and =>
      cases children with
      | nil => rfl
      | cons child children => exact filter_conjunctsIn (child :: children)
  | _ => exact filter_singleton _

theorem filter_conjunctsIn (children : List (Expression F O)) :
    filter (Expression.conjunctsIn children) tuple =
      (Expression.conjunctionValue (Tuple.cellsOf tuple.findCell) .and children).map
        Value.getBoolean := by
  cases children with
  | nil => rfl
  | cons child children =>
    rw [Expression.conjunctsIn, filter_append, filter_conjuncts child,
      filter_conjunctsIn children, Expression.conjunctionValue, Tuple.eval]
    cases child.getValue (Tuple.cellsOf tuple.findCell) with
    | error fault => rfl
    | ok value =>
      change (if _ then _ else _) = (if _ then _ else _ : Except Fault (Value F)).map _
      cases value.getBoolean with
      | true => rfl
      | false => rfl

end

/-- The conjuncts that stay come after those that are taken, where the order makes no difference: no
conjunct that stays before one that is taken fails, and neither does the one that is taken. -/
def InOrder (tuple : Tuple F O) : List (Expression F O) → Prop
  | [] => True
  | expr :: exprs =>
    InOrder tuple exprs ∧ (expr.pushable = false → ∀ later ∈ Expression.taken exprs,
      (∃ value, tuple.eval expr = .ok value) ∧ ∃ value, tuple.eval later = .ok value)

/-- A filter of expressions that do not fail does not fail. -/
theorem filter_ok {exprs : List (Expression F O)}
    (h : ∀ expr ∈ exprs, ∃ value, tuple.eval expr = .ok value) :
    ∃ passes, filter exprs tuple = .ok passes := by
  induction exprs with
  | nil => exact ⟨true, rfl⟩
  | cons expr exprs ih =>
    obtain ⟨value, hvalue⟩ := h expr List.mem_cons_self
    obtain ⟨passes, hpasses⟩ := ih fun expr hmem => h expr (List.mem_cons_of_mem _ hmem)
    rw [filter, hvalue, hpasses]
    refine ⟨if value.getBoolean then passes else false, ?_⟩
    change (if value.getBoolean = true then _ else _) = _
    cases value.getBoolean with
    | true => rfl
    | false => rfl

theorem filter_inOrder {exprs : List (Expression F O)} (h : InOrder tuple exprs) :
    filter exprs tuple = filter (Expression.taken exprs ++ Expression.kept exprs) tuple := by
  induction exprs with
  | nil => rfl
  | cons expr exprs ih =>
    obtain ⟨hrest, horder⟩ := h
    have ih := ih hrest
    cases hpushable : expr.pushable with
    | true =>
      have htaken : Expression.taken (expr :: exprs) = expr :: Expression.taken exprs := by
        simp [Expression.taken, hpushable]
      have hkept : Expression.kept (expr :: exprs) = Expression.kept exprs := by
        simp [Expression.kept, hpushable]
      rw [htaken, hkept, List.cons_append, filter, filter, ih]
    | false =>
      have htaken : Expression.taken (expr :: exprs) = Expression.taken exprs := by
        simp [Expression.taken, hpushable]
      have hkept : Expression.kept (expr :: exprs) = expr :: Expression.kept exprs := by
        simp [Expression.kept, hpushable]
      rw [htaken, hkept, filter_append, filter, ih, filter_append, filter]
      have horder := horder hpushable
      cases hexprs : Expression.taken exprs with
      | nil => rfl
      | cons later rest =>
        rw [← hexprs]
        have hmem : later ∈ Expression.taken exprs := hexprs ▸ List.mem_cons_self
        obtain ⟨value, hvalue⟩ := (horder later hmem).1
        obtain ⟨passes, hpasses⟩ := filter_ok fun expr hmem => (horder expr hmem).2
        rw [hvalue, hpasses]
        change (if _ then (if _ then _ else _) else _) = (if _ then (if _ then _ else _) else _)
        cases value.getBoolean with
        | true => rfl
        | false =>
          cases passes with
          | true => rfl
          | false => rfl

/-! ## Filters of a scan -/

theorem predicateStep_eq (expr : Expression F O) (tuple : Tuple F O) :
    predicateStep expr tuple = filterStep expr.conjuncts tuple := by
  rw [predicateStep, filterStep, filter_conjuncts]
  cases tuple.eval expr with
  | error fault => rfl
  | ok value => rfl

theorem predicateTuples_eq (expr : Expression F O) (tuples : Tuples F O) :
    predicateTuples expr tuples = filterTuples expr.conjuncts tuples :=
  findList_congr fun tuple _ => predicateStep_eq expr tuple

theorem filterTuples_congr {exprs exprs' : List (Expression F O)} {tuples : Tuples F O}
    (h : ∀ tuple ∈ tuples.1, filter exprs tuple = filter exprs' tuple) :
    filterTuples exprs tuples = filterTuples exprs' tuples := by
  apply findList_congr
  intro tuple hmem
  rw [filterStep, filterStep, h tuple hmem]

theorem filterTuples_nil (tuples : Tuples F O) : filterTuples [] tuples = tuples :=
  findList_some

/-- One filter after the other. -/
theorem filterTuples_append (exprs exprs' : List (Expression F O)) (tuples : Tuples F O) :
    filterTuples (exprs ++ exprs') tuples = filterTuples exprs' (filterTuples exprs tuples) := by
  rw [filterTuples, filterTuples, filterTuples, findList_findList]
  apply findList_congr
  intro tuple _
  rw [filterStep, filter_append, andThen, filterStep]
  cases filter exprs tuple with
  | error fault => rfl
  | ok passes =>
    cases passes with
    | true => rfl
    | false => rfl

/-- An empty conjunction is true, and so is what takes its place. -/
theorem filter_remainder (stays : Option (Expression F O)) (tuple : Tuple F O) :
    filter (Expression.remainder stays).conjuncts tuple =
      filter (Expression.conjunctsIn stays.toList) tuple := by
  cases stays with
  | none => rfl
  | some expr =>
    have hlist : Expression.conjunctsIn (some expr).toList = expr.conjuncts :=
      List.append_nil _
    rw [hlist, Expression.remainder]
    split_ifs with hempty
    · cases expr with
      | conjunction conjunctionType children =>
        cases children with
        | nil =>
          cases conjunctionType with
          | and => rfl
          | or => rfl
        | cons child children => cases hempty
      | _ => cases hempty
    · rfl

/-- A predicate whose comparisons may go into the scan below it. -/
structure PushdownSafe (rows : List (Row F)) (predicates : List (Expression F O))
    (expr : Expression F O) : Prop where
  onlyAnd : expr.OnlyAnd
  unfiltered : predicates = [] ∨ Expression.taken expr.conjuncts = []
  inOrder : ∀ row ∈ rows, InOrder (.row row) expr.conjuncts

theorem predicate_scanYield (expr : Expression F O) (opened : Except Fault Unit)
    (tuples : Tuples F O) :
    (scanYield opened tuples).predicate expr = scanYield opened (predicateTuples expr tuples) := by
  cases opened with
  | error fault => rfl
  | ok _ => rfl

/-- What is left above the scan lets through what the whole predicate did. -/
theorem filterTuples_pushdown {rows : List (Row F)} {last : Fault} {exprs : List (Expression F O)}
    (h : ∀ row ∈ rows, InOrder (.row row) exprs) :
    filterTuples exprs (rows.map .row, last) =
      filterTuples (Expression.kept exprs)
        (filterTuples (Expression.taken exprs) (rows.map .row, last)) := by
  rw [← filterTuples_append]
  apply filterTuples_congr
  intro tuple hmem
  obtain ⟨row, hrow, rfl⟩ := List.mem_map.mp hmem
  exact filter_inOrder (h row hrow)

variable [ExprTypes F O]

omit [Floats F] [StrLike F] [OtherExpr F O] in
/-- What is left is still asserted to be a boolean, and of no other type than before. -/
theorem valueType_remainder {expr : Expression F O} {stays : Option (Expression F O)}
    {pushdownExprs : List (Expression F O)}
    (h : expr.getExprsCanPushdown = .ok (stays, pushdownExprs)) :
    (Expression.remainder stays).valueType = .booleans ↔ expr.valueType = .booleans := by
  cases expr with
  | conjunction conjunctionType children =>
    cases conjunctionType with
    | or =>
      rw [Expression.getExprsCanPushdown] at h
      cases h
    | and =>
      rw [Expression.getExprsCanPushdown] at h
      obtain ⟨⟨rest, taken⟩, -, h⟩ := bind_eq_ok h
      cases h
      rw [Expression.remainder]
      split_ifs <;> exact Iff.rfl
  | comparison comp left right =>
    rw [Expression.getExprsCanPushdown] at h
    split_ifs at h <;> cases h <;> exact Iff.rfl
  | _ =>
    cases h
    exact Iff.rfl

namespace LogicalPlan

variable [StdSort (Tuple F O)] {db : Contents F}

theorem yield_predicate_tableGet (expr : Expression F O) (tableName tableAlias : String)
    (predicates : List (Expression F O)) :
    (unary (.predicate expr) (tableGet tableName tableAlias predicates)).yield db =
      if expr.valueType = .booleans then
        .ok (scanYield (db tableName tableAlias).opened (filterTuples expr.conjuncts
          (filterTuples predicates (rowTuples (db tableName tableAlias).records))))
      else .error .abort := by
  have hscan : tableGet tableName tableAlias predicates ≠ absent := nofun
  rw [yield_unary _ hscan, yield_tableGet, ← predicateTuples_eq, ← predicate_scanYield]
  simp only [LogicalOperator.asserted, decide_eq_true_eq]
  rfl

/-- The push-down keeps all that the predicate over the scan gives. -/
theorem predicatePushdown_yield {expr : Expression F O} {tableName tableAlias : String}
    {predicates : List (Expression F O)}
    (h : PushdownSafe (rowsOf (db tableName tableAlias).records).1 predicates expr) :
    ∃ oper' changed, predicatePushdown
        (unary (.predicate expr) (tableGet tableName tableAlias predicates)) = .ok (oper', changed) ∧
      oper'.yield db =
        (unary (.predicate expr) (tableGet tableName tableAlias predicates)).yield db := by
  obtain ⟨stays, hexpr, hstays⟩ := expr.getExprsCanPushdown_eq h.onlyAnd
  have hremainder : ∀ tuples : Tuples F O,
      filterTuples (Expression.remainder stays).conjuncts tuples =
        filterTuples (Expression.kept expr.conjuncts) tuples := by
    intro tuples
    rw [← hstays]
    exact filterTuples_congr fun tuple _ => filter_remainder stays tuple
  rw [predicatePushdown, hexpr]
  by_cases htaken : Expression.taken expr.conjuncts = []
  · refine ⟨_, false, if_pos (by rw [htaken]; rfl), ?_⟩
    simp only [yield_predicate_tableGet, valueType_remainder hexpr]
    rw [hremainder,
      kept_of_taken_eq_nil htaken]
  · have hnil := h.unfiltered.resolve_right htaken
    refine ⟨_, true, if_neg (by simpa using htaken), ?_⟩
    simp only [yield_predicate_tableGet, valueType_remainder hexpr]
    rw [hremainder, hnil, filterTuples_nil,
      rowTuples, ← filterTuples_pushdown h.inOrder]

end LogicalPlan

end Sql

end ObHtap
