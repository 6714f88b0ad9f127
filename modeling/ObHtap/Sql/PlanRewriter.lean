import ObHtap.Sql.LogicalPlan

/-!
# Push-down of predicates

`PredicatePushdownRewriter` and `PredicateRewriteRule` at one operator, the pass of `Rewriter` over a
tree of operators, and the passes until one changes nothing (`OptimizeStage::rewrite`).
-/

namespace ObHtap

namespace Sql

variable {F O : Type}

namespace Expression

def isField : Expression F O → Bool
  | .field _ => true
  | _ => false

def isValue : Expression F O → Bool
  | .value _ => true
  | _ => false

/-- The comparisons that are taken: one side is a field. -/
def pushable : Expression F O → Bool
  | .comparison _ left right =>
    if !left.isField && !right.isField then false
    else !(!left.isField && !left.isValue && !right.isField && !right.isValue)
  | _ => false

/-- `is_empty_predicate`. -/
def isEmptyPredicate : Expression F O → Bool
  | .conjunction _ [] => true
  | _ => false

mutual

/-- `get_exprs_can_pushdown`: what stays of the expression, and what is taken out of it. -/
def getExprsCanPushdown :
    Expression F O → Except Fault (Option (Expression F O) × List (Expression F O))
  | .conjunction .or _ => .error (.rc .unimplemented)
  | .conjunction .and children => do
    let (children, pushdownExprs) ← pushdownChildren children
    .ok (some (.conjunction .and children), pushdownExprs)
  | .comparison comp left right =>
    if pushable (.comparison comp left right) then .ok (none, [.comparison comp left right])
    else .ok (some (.comparison comp left right), [])
  | expr => .ok (some expr, [])

/-- The loop over the children of a conjunction. -/
def pushdownChildren :
    List (Expression F O) → Except Fault (List (Expression F O) × List (Expression F O))
  | [] => .ok ([], [])
  | child :: children => do
    let (stays, pushdownExprs) ← getExprsCanPushdown child
    let (rest, pushdownExprs') ← pushdownChildren children
    .ok (stays.toList ++ rest, pushdownExprs ++ pushdownExprs')

end

/-- The expression of the predicate operator after the push-down. -/
def remainder : Option (Expression F O) → Expression F O
  | none => .value (.booleans true)
  | some expr => if expr.isEmptyPredicate then .value (.booleans true) else expr

mutual

/-- The number of comparisons. -/
def comparisons : Expression F O → Nat
  | .comparison _ _ _ => 1
  | .conjunction _ children => comparisonsIn children
  | _ => 0

def comparisonsIn : List (Expression F O) → Nat
  | [] => 0
  | child :: children => child.comparisons + comparisonsIn children

end

section

variable {expr : Expression F O} {stays : Option (Expression F O)}
  {pushdownExprs : List (Expression F O)}

mutual

/-- A comparison is taken out or stays. -/
theorem comparisons_of_pushdown (expr : Expression F O) {stays : Option (Expression F O)}
    {pushdownExprs : List (Expression F O)}
    (h : expr.getExprsCanPushdown = .ok (stays, pushdownExprs)) :
    stays.elim 0 comparisons + pushdownExprs.length = expr.comparisons := by
  cases expr with
  | conjunction conjunctionType children =>
    cases conjunctionType with
    | or =>
      rw [getExprsCanPushdown] at h
      cases h
    | and =>
      rw [getExprsCanPushdown] at h
      obtain ⟨⟨rest, taken⟩, hchildren, h⟩ := bind_eq_ok h
      cases h
      exact comparisons_of_pushdownChildren children hchildren
  | comparison comp left right =>
    rw [getExprsCanPushdown] at h
    split_ifs at h
    · cases h
      rfl
    · cases h
      rfl
  | _ =>
    cases h
    rfl

theorem comparisons_of_pushdownChildren (children : List (Expression F O))
    {rest pushdownExprs : List (Expression F O)}
    (h : pushdownChildren children = .ok (rest, pushdownExprs)) :
    comparisonsIn rest + pushdownExprs.length = comparisonsIn children := by
  cases children with
  | nil =>
    cases h
    rfl
  | cons child children =>
    rw [pushdownChildren] at h
    obtain ⟨⟨stays, taken⟩, hchild, h⟩ := bind_eq_ok h
    obtain ⟨⟨rest', taken'⟩, hchildren, h⟩ := bind_eq_ok h
    cases h
    have h₁ := comparisons_of_pushdown child hchild
    have h₂ := comparisons_of_pushdownChildren children hchildren
    rw [comparisonsIn, List.length_append, ← h₁, ← h₂]
    cases stays with
    | none =>
      simp only [Option.toList, List.nil_append, Option.elim]
      omega
    | some expr =>
      simp only [Option.toList, List.singleton_append, Option.elim, comparisonsIn]
      omega

end

theorem comparisons_remainder (stays : Option (Expression F O)) :
    (remainder stays).comparisons ≤ stays.elim 0 comparisons := by
  unfold remainder
  split
  · exact le_rfl
  · split_ifs
    · exact Nat.zero_le _
    · exact le_rfl

end

end Expression

namespace LogicalPlan

/-- `PredicatePushdownRewriter::rewrite`. -/
def predicatePushdown : LogicalPlan F O → Except Fault (LogicalPlan F O × Bool)
  | unary (.predicate expr) (tableGet tableName tableAlias predicates) => do
    let (stays, pushdownExprs) ← expr.getExprsCanPushdown
    if pushdownExprs.isEmpty then
      .ok (unary (.predicate (.remainder stays)) (tableGet tableName tableAlias predicates), false)
    else
      -- `set_predicates` puts these in the place of those that the operator has.
      .ok (unary (.predicate (.remainder stays)) (tableGet tableName tableAlias pushdownExprs),
        true)
  | oper => .ok (oper, false)

/-- `PredicateRewriteRule` on the only child of an operator. -/
def withoutConstant [Floats F] : LogicalPlan F O → LogicalPlan F O × Bool
  | unary (.predicate (.value value)) child =>
    if value.getBoolean then (child, true) else (absent, true)
  | child => (child, false)

/-- `PredicateRewriteRule::rewrite`. -/
def predicateRewrite [Floats F] : LogicalPlan F O → LogicalPlan F O × Bool
  | unary oper child => (unary oper child.withoutConstant.1, child.withoutConstant.2)
  | oper => (oper, false)

/-- The rules at one operator, in their order. -/
def applyRules [Floats F] (oper : LogicalPlan F O) : Except Fault (LogicalPlan F O × Bool) := do
  let (oper', changed) ← oper.predicateRewrite.1.predicatePushdown
  .ok (oper', oper.predicateRewrite.2 || changed)

/-- The number of operators. -/
def operators : LogicalPlan F O → Nat
  | unary _ child => child.operators + 1
  | join left right => left.operators + right.operators + 1
  | tableGet _ _ _ | fatherTuple | absent => 1

/-- What the rules take away: predicate operators and the comparisons in them. -/
def weight : LogicalPlan F O → Nat
  | unary (.predicate expr) child => expr.comparisons + child.weight + 1
  | unary _ child => child.weight
  | join left right => left.weight + right.weight
  | tableGet _ _ _ | fatherTuple | absent => 0

/-- A change takes something away, and no rule adds an operator or anything to take away. -/
structure Shrinks (oper oper' : LogicalPlan F O) (changed : Bool) : Prop where
  operators : oper'.operators ≤ oper.operators
  weight : oper'.weight ≤ oper.weight
  changed : changed = true → oper'.weight < oper.weight

theorem Shrinks.refl (oper : LogicalPlan F O) : Shrinks oper oper false :=
  ⟨le_rfl, le_rfl, nofun⟩

theorem Shrinks.trans {oper oper' oper'' : LogicalPlan F O} {changed changed' : Bool}
    (h : Shrinks oper oper' changed) (h' : Shrinks oper' oper'' changed') :
    Shrinks oper oper'' (changed || changed') := by
  refine ⟨h'.operators.trans h.operators, h'.weight.trans h.weight, ?_⟩
  intro hchanged
  rcases Bool.or_eq_true_iff.mp hchanged with hfirst | hsecond
  · exact h'.weight.trans_lt (h.changed hfirst)
  · exact (h'.changed hsecond).trans_le h.weight

theorem weight_unary (oper : LogicalOperator F O) :
    ∃ own, ∀ child : LogicalPlan F O, (unary oper child).weight = own + child.weight := by
  cases oper with
  | predicate expr => exact ⟨expr.comparisons + 1, fun child => Nat.add_right_comm _ _ _⟩
  | _ => exact ⟨0, fun child => (Nat.zero_add _).symm⟩

theorem Shrinks.unary {child child' : LogicalPlan F O} {changed : Bool}
    (h : Shrinks child child' changed) (oper : LogicalOperator F O) :
    Shrinks (.unary oper child) (.unary oper child') changed := by
  obtain ⟨own, hown⟩ := weight_unary oper
  refine ⟨Nat.succ_le_succ h.operators, ?_, fun hchanged => ?_⟩
  · rw [hown, hown]
    exact Nat.add_le_add_left h.weight own
  · rw [hown, hown]
    exact Nat.add_lt_add_left (h.changed hchanged) own

theorem one_le_operators (oper : LogicalPlan F O) : 1 ≤ oper.operators := by
  cases oper with
  | join left right => exact Nat.succ_le_succ (Nat.zero_le _)
  | unary oper child => exact Nat.succ_le_succ (Nat.zero_le _)
  | _ => exact le_rfl

theorem shrinks_predicatePushdown {oper oper' : LogicalPlan F O} {changed : Bool}
    (h : oper.predicatePushdown = .ok (oper', changed)) : Shrinks oper oper' changed := by
  unfold predicatePushdown at h
  split at h
  next expr tableName tableAlias predicates =>
    obtain ⟨⟨stays, pushdownExprs⟩, hexpr, h⟩ := bind_eq_ok h
    have hcomparisons := expr.comparisons_of_pushdown hexpr
    have hremainder := Expression.comparisons_remainder stays
    dsimp only at h
    split_ifs at h with hempty
    · cases h
      refine ⟨le_rfl, ?_, nofun⟩
      simp only [weight]
      omega
    · cases h
      have hpos : 0 < pushdownExprs.length :=
        List.length_pos_iff.mpr fun hnil => hempty (hnil ▸ rfl)
      refine ⟨le_rfl, ?_, fun _ => ?_⟩
      · simp only [weight]
        omega
      · simp only [weight]
        omega
  · cases h
    exact Shrinks.refl _

variable [Floats F]

theorem shrinks_withoutConstant (child : LogicalPlan F O) :
    Shrinks child child.withoutConstant.1 child.withoutConstant.2 := by
  unfold withoutConstant
  split
  · split_ifs
    · refine ⟨Nat.le_succ _, ?_, fun _ => ?_⟩
      · exact (Nat.le_add_left _ _).trans (Nat.le_succ _)
      · exact Nat.lt_succ_of_le (Nat.le_add_left _ _)
    · exact ⟨one_le_operators _, Nat.zero_le _, fun _ => Nat.succ_pos _⟩
  · exact Shrinks.refl _

theorem shrinks_applyRules {oper oper' : LogicalPlan F O} {changed : Bool}
    (h : oper.applyRules = .ok (oper', changed)) : Shrinks oper oper' changed := by
  obtain ⟨⟨oper₁, changed₁⟩, hpushdown, h⟩ := bind_eq_ok h
  cases h
  apply Shrinks.trans _ (shrinks_predicatePushdown hpushdown)
  cases oper with
  | unary oper child => exact (shrinks_withoutConstant child).unary oper
  | _ => exact Shrinks.refl _

/-! ## The rewriter -/

mutual

/-- `Rewriter::rewrite`. -/
def rewrite (oper : LogicalPlan F O) : Except Fault (LogicalPlan F O × Bool) :=
  match _h : oper.applyRules with
  | .error fault => .error fault
  | .ok (oper, changed) => do
    let (oper, childrenChanged) ← rewriteChildren oper
    .ok (oper, changed || childrenChanged)
termination_by (oper.operators, 1)
decreasing_by
  rcases (shrinks_applyRules _h).operators.lt_or_eq with hlt | heq
  · exact Prod.Lex.left _ _ hlt
  · rw [heq]
    exact Prod.Lex.right _ Nat.one_pos

/-- The children of an operator, one after the other. -/
def rewriteChildren : LogicalPlan F O → Except Fault (LogicalPlan F O × Bool)
  | join left right => do
    let (left, leftChanged) ← rewrite left
    let (right, rightChanged) ← rewrite right
    .ok (join left right, leftChanged || rightChanged)
  | unary oper child => do
    let (child, changed) ← rewrite child
    .ok (unary oper child, changed)
  | oper => .ok (oper, false)
termination_by oper => (oper.operators, 0)
decreasing_by
  all_goals
    apply Prod.Lex.left
    simp only [operators]
    omega

end

theorem rewrite_of_applyRules {oper oper' : LogicalPlan F O} {changed : Bool}
    (h : oper.applyRules = .ok (oper', changed)) :
    oper.rewrite = (do
      let (oper, childrenChanged) ← rewriteChildren oper'
      .ok (oper, changed || childrenChanged)) := by
  rw [rewrite, h]

/-- Nothing to do at an operator without children. -/
theorem rewrite_of_leaf {oper : LogicalPlan F O} (hrules : oper.applyRules = .ok (oper, false))
    (hjoin : ∀ left right, oper ≠ join left right) (hunary : ∀ op child, oper ≠ unary op child) :
    oper.rewrite = .ok (oper, false) := by
  rw [rewrite_of_applyRules hrules, rewriteChildren]
  · rfl
  · exact hjoin
  · exact hunary

/-- An operator with one child, which is rewritten after it. -/
theorem rewrite_of_unary {oper child' child'' : LogicalPlan F O} {op : LogicalOperator F O}
    {changed childChanged eitherChanged : Bool}
    (hrules : oper.applyRules = .ok (unary op child', changed))
    (hchild : child'.rewrite = .ok (child'', childChanged))
    (heither : (changed || childChanged) = eitherChanged) :
    oper.rewrite = .ok (unary op child'', eitherChanged) := by
  rw [rewrite_of_applyRules hrules, rewriteChildren, hchild, ← heither]
  rfl

theorem shrinks_rewrite (oper : LogicalPlan F O) :
    ∀ oper' changed, oper.rewrite = .ok (oper', changed) → Shrinks oper oper' changed := by
  apply rewrite.induct
    (fun oper => ∀ oper' changed, oper.rewrite = .ok (oper', changed) →
      Shrinks oper oper' changed)
    (fun oper => ∀ oper' changed, oper.rewriteChildren = .ok (oper', changed) →
      Shrinks oper oper' changed)
  case case1 =>
    intro oper fault hrules oper' changed h
    rw [rewrite, hrules] at h
    cases h
  case case2 =>
    intro oper oper₁ changed₁ hrules ih oper' changed h
    rw [rewrite_of_applyRules hrules] at h
    obtain ⟨⟨oper₂, changed₂⟩, hchildren, h⟩ := bind_eq_ok h
    cases h
    exact (shrinks_applyRules hrules).trans (ih _ _ hchildren)
  case case3 =>
    intro left right ihLeft ihRight oper' changed h
    rw [rewriteChildren] at h
    obtain ⟨⟨left', leftChanged⟩, hleft, h⟩ := bind_eq_ok h
    obtain ⟨⟨right', rightChanged⟩, hright, h⟩ := bind_eq_ok h
    cases h
    have hl := ihLeft _ _ hleft
    have hr := ihRight _ _ hright
    refine ⟨Nat.succ_le_succ (Nat.add_le_add hl.operators hr.operators),
      Nat.add_le_add hl.weight hr.weight, fun hchanged => ?_⟩
    rcases Bool.or_eq_true_iff.mp hchanged with hfirst | hsecond
    · exact Nat.add_lt_add_of_lt_of_le (hl.changed hfirst) hr.weight
    · exact Nat.add_lt_add_of_le_of_lt hl.weight (hr.changed hsecond)
  case case4 =>
    intro oper child ih oper' changed h
    rw [rewriteChildren] at h
    obtain ⟨⟨child', childChanged⟩, hchild, h⟩ := bind_eq_ok h
    cases h
    exact (ih _ _ hchild).unary oper
  case case5 =>
    intro oper hjoin hunary oper' changed h
    rw [rewriteChildren] at h
    · cases h
      exact Shrinks.refl _
    · exact hjoin
    · exact hunary

/-- `OptimizeStage::rewrite`: passes until one changes nothing. -/
def rewriteToFixpoint (oper : LogicalPlan F O) : Except Fault (LogicalPlan F O) :=
  match _h : oper.rewrite with
  | .error fault => .error fault
  | .ok (oper', true) => rewriteToFixpoint oper'
  | .ok (oper', false) => .ok oper'
termination_by oper.weight
decreasing_by exact (shrinks_rewrite _ _ _ _h).changed rfl

theorem rewriteToFixpoint_of_changed {oper oper' : LogicalPlan F O}
    (h : oper.rewrite = .ok (oper', true)) : oper.rewriteToFixpoint = oper'.rewriteToFixpoint := by
  rw [rewriteToFixpoint, h]

theorem rewriteToFixpoint_of_unchanged {oper oper' : LogicalPlan F O}
    (h : oper.rewrite = .ok (oper', false)) : oper.rewriteToFixpoint = .ok oper' := by
  rw [rewriteToFixpoint, h]

end LogicalPlan

end Sql

end ObHtap
