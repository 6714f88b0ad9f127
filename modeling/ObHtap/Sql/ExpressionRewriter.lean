import Mathlib.Logic.Relation
import ObHtap.Sql.Expression

/-!
# Simplification of expressions

`ExpressionRewriter` with its two rules (`expression_rewriter.cpp`,
`comparison_simplification_rule.cpp`, `conjunction_simplification_rule.cpp`).
-/

namespace ObHtap

namespace Sql

variable {F O : Type}

namespace Expression

mutual

/-- The number of nodes. -/
def size : Expression F O → Nat
  | .cast child _ => size child + 1
  | .comparison _ left right => size left + size right + 1
  | .conjunction _ children => childrenSize children + 1
  | _ => 1

def childrenSize : List (Expression F O) → Nat
  | [] => 0
  | child :: children => size child + childrenSize children

end

theorem one_le_size (expr : Expression F O) : 1 ≤ expr.size := by
  cases expr <;> simp [size]

end Expression

/-- The constant that leaves the result of a conjunction open. -/
def ConjunctionType.neutral : ConjunctionType → Bool
  | .and => true
  | .or => false

namespace ConjunctionSimplificationRule

/-- `try_to_get_bool_constant`. -/
def tryToGetBoolConstant : Expression F O → Option Bool
  | .value (.booleans constant) => some constant
  | _ => none

/-- The loop over the children, of which `kept` are behind the iterator.  A constant that leaves
the result open is erased; at one that decides the result the front child is taken. -/
def eraseConstants (conjunctionType : ConjunctionType) (kept : List (Expression F O)) :
    List (Expression F O) → Except (Expression F O) (List (Expression F O))
  | [] => .ok kept
  | child :: children =>
    match tryToGetBoolConstant child with
    | none => eraseConstants conjunctionType (kept ++ [child]) children
    | some constant =>
      if constant = conjunctionType.neutral then eraseConstants conjunctionType kept children
      else .error (kept.headD child)

/-- `ConjunctionSimplificationRule::rewrite`. -/
def rewrite : Expression F O → Expression F O × Bool
  | .conjunction conjunctionType children =>
    match eraseConstants conjunctionType [] children with
    | .error front => (front, false)
    | .ok [child] => (child, true)
    | .ok children => (.conjunction conjunctionType children, false)
  | expr => (expr, false)

end ConjunctionSimplificationRule

/-- `ComparisonSimplificationRule::rewrite`. -/
def ComparisonSimplificationRule.rewrite [Floats F] :
    Expression F O → Except Fault (Expression F O × Bool)
  | .comparison comp left right =>
    match ComparisonExpr.tryGetValue comp left right with
    | .ok value => .ok (.value value, true)
    | .error (.rc _) => .ok (.comparison comp left right, false)
    | .error fault => .error fault
  | expr => .ok (expr, false)

namespace ExpressionRewriter

/-- The rules at one node, in their order. -/
def applyRules [Floats F] (expr : Expression F O) : Except Fault (Expression F O × Bool) := do
  let (expr, comparisonChange) ← ComparisonSimplificationRule.rewrite expr
  let (expr, conjunctionChange) := ConjunctionSimplificationRule.rewrite expr
  .ok (expr, comparisonChange || conjunctionChange)

/-! ## What the rules do -/

open ConjunctionSimplificationRule

variable {conjunctionType : ConjunctionType} {kept children out : List (Expression F O)}
  {front child expr expr' : Expression F O} {changed : Bool}

/-- The children that are no constants. -/
def withoutConstants (children : List (Expression F O)) : List (Expression F O) :=
  children.filter fun child => (tryToGetBoolConstant child).isNone

/-- No constant decides the result. -/
def Undecided (conjunctionType : ConjunctionType) (children : List (Expression F O)) : Prop :=
  ∀ child ∈ children, ∀ constant, tryToGetBoolConstant child = some constant →
    constant = conjunctionType.neutral

theorem eraseConstants_of_ok (h : eraseConstants conjunctionType kept children = .ok out) :
    out = kept ++ withoutConstants children ∧ Undecided conjunctionType children := by
  induction children generalizing kept with
  | nil =>
    cases h
    simp [withoutConstants, Undecided]
  | cons child children ih =>
    rw [eraseConstants] at h
    split at h
    next hnone =>
      obtain ⟨hout, hrest⟩ := ih h
      constructor
      · simp [hout, withoutConstants, hnone]
      · simpa [Undecided, hnone] using hrest
    next constant hsome =>
      split_ifs at h with hopen
      obtain ⟨hout, hrest⟩ := ih h
      constructor
      · simp [hout, withoutConstants, hsome]
      · simpa [Undecided, hsome, hopen] using hrest

/-- The constant that decides the result is behind children that leave it open. -/
theorem eraseConstants_of_error
    (h : eraseConstants conjunctionType kept children = .error front) :
    ∃ before constant after, children = before ++ constant :: after ∧
      Undecided conjunctionType before ∧
      tryToGetBoolConstant constant = some (!conjunctionType.neutral) ∧
      front = (kept ++ withoutConstants before).headD constant := by
  induction children generalizing kept with
  | nil => cases h
  | cons child children ih =>
    rw [eraseConstants] at h
    split at h
    next hnone =>
      obtain ⟨before, constant, after, rfl, hbefore, hconstant, hfront⟩ := ih h
      refine ⟨child :: before, constant, after, rfl, ?_, hconstant, ?_⟩
      · simpa [Undecided, hnone] using hbefore
      · simpa [withoutConstants, hnone] using hfront
    next constant hsome =>
      split_ifs at h with hopen
      · obtain ⟨before, constant', after, rfl, hbefore, hconstant, hfront⟩ := ih h
        refine ⟨child :: before, constant', after, rfl, ?_, hconstant, ?_⟩
        · simpa [Undecided, hsome, hopen] using hbefore
        · simpa [withoutConstants, hsome] using hfront
      · cases h
        refine ⟨[], child, children, rfl, ?_, ?_, ?_⟩
        · simp [Undecided]
        · rw [hsome]
          exact congrArg some (Bool.eq_not_of_ne hopen)
        · simp [withoutConstants]

/-! ## Sizes -/

theorem size_le_of_mem (h : child ∈ children) : child.size ≤ Expression.childrenSize children := by
  induction children with
  | nil => cases h
  | cons first children ih =>
    rw [Expression.childrenSize]
    rcases List.mem_cons.mp h with rfl | hmem
    · exact Nat.le_add_right _ _
    · exact (ih hmem).trans (Nat.le_add_left _ _)

theorem childrenSize_withoutConstants :
    Expression.childrenSize (withoutConstants children) ≤ Expression.childrenSize children := by
  induction children with
  | nil => simp [withoutConstants]
  | cons child children ih =>
    rw [withoutConstants] at ih ⊢
    rw [List.filter_cons, Expression.childrenSize]
    split_ifs
    · exact Nat.add_le_add_left ih _
    · exact ih.trans (Nat.le_add_left _ _)

/-- The child that is taken is one of the children. -/
theorem mem_of_eraseConstants (h : eraseConstants conjunctionType [] children = .error front) :
    front ∈ children := by
  obtain ⟨before, constant, after, rfl, -, -, rfl⟩ := eraseConstants_of_error h
  rw [List.nil_append]
  cases hbefore : withoutConstants before with
  | nil => simp
  | cons first rest =>
    have hmem : first ∈ withoutConstants before := by simp [hbefore]
    exact List.mem_append_left _ (List.mem_of_mem_filter hmem)

/-- A change makes the expression smaller, and nothing makes it larger. -/
def Shrinks (expr expr' : Expression F O) (changed : Bool) : Prop :=
  expr'.size ≤ expr.size ∧ (changed = true → expr'.size < expr.size)

theorem shrinks_conjunctionRule (expr : Expression F O) :
    Shrinks expr (ConjunctionSimplificationRule.rewrite expr).1
      (ConjunctionSimplificationRule.rewrite expr).2 := by
  cases expr with
  | conjunction conjunctionType children =>
    rw [ConjunctionSimplificationRule.rewrite]
    split
    next front h =>
      have hle := size_le_of_mem (mem_of_eraseConstants h)
      exact ⟨hle.trans (Nat.le_succ _), nofun⟩
    next child h =>
      have hout := (eraseConstants_of_ok h).1
      have hle : Expression.childrenSize [child] ≤ Expression.childrenSize children := by
        rw [hout]
        exact childrenSize_withoutConstants
      have hlt : child.size < (Expression.conjunction conjunctionType children).size := by
        simp only [Expression.childrenSize, Expression.size] at hle ⊢
        omega
      exact ⟨hlt.le, fun _ => hlt⟩
    next out _ h =>
      have hle : Expression.childrenSize out ≤ Expression.childrenSize children := by
        rw [(eraseConstants_of_ok h).1]
        exact childrenSize_withoutConstants
      exact ⟨Nat.succ_le_succ hle, nofun⟩
  | _ => exact ⟨le_rfl, nofun⟩

variable [Floats F]

theorem shrinks_comparisonRule
    (h : ComparisonSimplificationRule.rewrite expr = .ok (expr', changed)) :
    Shrinks expr expr' changed := by
  cases expr with
  | comparison comp left right =>
    rw [ComparisonSimplificationRule.rewrite] at h
    split at h
    · cases h
      have hlt : 1 < left.size + right.size + 1 := by
        have hleft := left.one_le_size
        omega
      exact ⟨hlt.le, fun _ => hlt⟩
    · cases h
      exact ⟨le_rfl, nofun⟩
    · cases h
  | _ =>
    cases h
    exact ⟨le_rfl, nofun⟩

theorem shrinks_applyRules (h : applyRules expr = .ok (expr', changed)) :
    Shrinks expr expr' changed := by
  obtain ⟨⟨expr₁, changed₁⟩, hcomparison, h⟩ := bind_eq_ok h
  cases h
  have h₁ := shrinks_comparisonRule hcomparison
  have h₂ := shrinks_conjunctionRule expr₁
  refine ⟨h₂.1.trans h₁.1, ?_⟩
  intro hchanged
  rcases Bool.or_eq_true_iff.mp hchanged with hfirst | hsecond
  · exact h₂.1.trans_lt (h₁.2 hfirst)
  · exact (h₂.2 hsecond).trans_le h₁.1

/-! ## The rewriter -/

mutual

/-- `rewrite_expression`. -/
def rewriteExpression (expr : Expression F O) : Except Fault (Expression F O × Bool) :=
  match _h : applyRules expr with
  | .error fault => .error fault
  | .ok (expr', true) => .ok (expr', true)
  | .ok (expr', false) => rewriteInside expr'
termination_by (expr.size, 1)
decreasing_by
  have hle := (shrinks_applyRules _h).1
  rcases hle.lt_or_eq with hlt | heq
  · exact Prod.Lex.left _ _ hlt
  · rw [heq]
    exact Prod.Lex.right _ Nat.one_pos

/-- The expressions below a node that the rules leave as it is. -/
def rewriteInside : Expression F O → Except Fault (Expression F O × Bool)
  | .cast child castType => do
    let (child, changed) ← rewriteExpression child
    .ok (.cast child castType, changed)
  | .comparison comp left right => do
    let (left, leftChanged) ← rewriteExpression left
    let (right, rightChanged) ← rewriteExpression right
    .ok (.comparison comp left right, leftChanged || rightChanged)
  | .conjunction conjunctionType children => do
    let (children, changed) ← rewriteChildren children
    .ok (.conjunction conjunctionType children, changed)
  | expr => .ok (expr, false)
termination_by expr => (expr.size, 0)
decreasing_by
  all_goals
    apply Prod.Lex.left
    simp only [Expression.size]
    omega

def rewriteChildren :
    List (Expression F O) → Except Fault (List (Expression F O) × Bool)
  | [] => .ok ([], false)
  | child :: children => do
    let (child, childChanged) ← rewriteExpression child
    let (children, changed) ← rewriteChildren children
    .ok (child :: children, childChanged || changed)
termination_by children => (Expression.childrenSize children, 2)
decreasing_by
  · simp only [Expression.childrenSize]
    rcases (Nat.le_add_right child.size (Expression.childrenSize children)).lt_or_eq with hlt | heq
    · exact Prod.Lex.left _ _ hlt
    · rw [← heq]
      exact Prod.Lex.right _ (by decide)
  · apply Prod.Lex.left
    have hchild := child.one_le_size
    simp only [Expression.childrenSize]
    omega

end

theorem rewriteExpression_of_changed (h : applyRules expr = .ok (expr', true)) :
    rewriteExpression expr = .ok (expr', true) := by
  rw [rewriteExpression, h]

theorem rewriteExpression_of_unchanged (h : applyRules expr = .ok (expr', false)) :
    rewriteExpression expr = rewriteInside expr' := by
  rw [rewriteExpression, h]

theorem shrinks_rewriteExpression (expr : Expression F O) :
    ∀ expr' changed, rewriteExpression expr = .ok (expr', changed) →
      Shrinks expr expr' changed := by
  apply rewriteExpression.induct
    (fun expr => ∀ expr' changed, rewriteExpression expr = .ok (expr', changed) →
      Shrinks expr expr' changed)
    (fun expr => ∀ expr' changed, rewriteInside expr = .ok (expr', changed) →
      Shrinks expr expr' changed)
    (fun children => ∀ children' changed, rewriteChildren children = .ok (children', changed) →
      Expression.childrenSize children' ≤ Expression.childrenSize children ∧
        (changed = true →
          Expression.childrenSize children' < Expression.childrenSize children))
  case case1 =>
    intro expr fault hrules expr' changed h
    rw [rewriteExpression, hrules] at h
    cases h
  case case2 =>
    intro expr expr₁ hrules expr' changed h
    rw [rewriteExpression_of_changed hrules] at h
    cases h
    exact shrinks_applyRules hrules
  case case3 =>
    intro expr expr₁ hrules ih expr' changed h
    rw [rewriteExpression_of_unchanged hrules] at h
    have hinside := ih expr' changed h
    have hle := (shrinks_applyRules hrules).1
    exact ⟨hinside.1.trans hle, fun hchanged => (hinside.2 hchanged).trans_le hle⟩
  case case4 =>
    intro child castType ih expr' changed h
    rw [rewriteInside] at h
    obtain ⟨⟨child', changed'⟩, hchild, h⟩ := bind_eq_ok h
    cases h
    obtain ⟨hle, hlt⟩ := ih _ _ hchild
    exact ⟨Nat.succ_le_succ hle, fun hchanged => Nat.succ_lt_succ (hlt hchanged)⟩
  case case5 =>
    intro comp left right ihLeft ihRight expr' changed h
    rw [rewriteInside] at h
    obtain ⟨⟨left', leftChanged⟩, hleft, h⟩ := bind_eq_ok h
    obtain ⟨⟨right', rightChanged⟩, hright, h⟩ := bind_eq_ok h
    cases h
    obtain ⟨hleftLe, hleftLt⟩ := ihLeft _ _ hleft
    obtain ⟨hrightLe, hrightLt⟩ := ihRight _ _ hright
    constructor
    · exact Nat.succ_le_succ (Nat.add_le_add hleftLe hrightLe)
    · intro hchanged
      simp only [Expression.size]
      rcases Bool.or_eq_true_iff.mp hchanged with hfirst | hsecond
      · have := hleftLt hfirst
        omega
      · have := hrightLt hsecond
        omega
  case case6 =>
    intro conjunctionType children ih expr' changed h
    rw [rewriteInside] at h
    obtain ⟨⟨children', changed'⟩, hchildren, h⟩ := bind_eq_ok h
    cases h
    obtain ⟨hle, hlt⟩ := ih _ _ hchildren
    exact ⟨Nat.succ_le_succ hle, fun hchanged => Nat.succ_lt_succ (hlt hchanged)⟩
  case case7 =>
    intro expr hcast hcomparison hconjunction expr' changed h
    rw [rewriteInside] at h
    · cases h
      exact ⟨le_rfl, nofun⟩
    · exact hcast
    · exact hcomparison
    · exact hconjunction
  case case8 =>
    intro children' changed h
    rw [rewriteChildren] at h
    cases h
    exact ⟨le_rfl, nofun⟩
  case case9 =>
    intro child children ihChild ihChildren children' changed h
    rw [rewriteChildren] at h
    obtain ⟨⟨child', childChanged⟩, hchild, h⟩ := bind_eq_ok h
    obtain ⟨⟨rest, restChanged⟩, hrest, h⟩ := bind_eq_ok h
    cases h
    obtain ⟨hchildLe, hchildLt⟩ := ihChild _ _ hchild
    obtain ⟨hrestLe, hrestLt⟩ := ihChildren _ _ hrest
    constructor
    · exact Nat.add_le_add hchildLe hrestLe
    · intro hchanged
      simp only [Expression.childrenSize]
      rcases Bool.or_eq_true_iff.mp hchanged with hfirst | hsecond
      · have := hchildLt hfirst
        omega
      · have := hrestLt hsecond
        omega

/-- The rewriter, again and again until it reports no change (`OptimizeStage::rewrite`). -/
def rewriteToFixpoint (expr : Expression F O) : Except Fault (Expression F O) :=
  match _h : rewriteExpression expr with
  | .error fault => .error fault
  | .ok (expr', true) => rewriteToFixpoint expr'
  | .ok (expr', false) => .ok expr'
termination_by expr.size
decreasing_by exact (shrinks_rewriteExpression _ _ _ _h).2 rfl

theorem rewriteToFixpoint_of_changed (h : rewriteExpression expr = .ok (expr', true)) :
    rewriteToFixpoint expr = rewriteToFixpoint expr' := by
  rw [rewriteToFixpoint, h]

theorem rewriteToFixpoint_of_unchanged (h : rewriteExpression expr = .ok (expr', false)) :
    rewriteToFixpoint expr = .ok expr' := by
  rw [rewriteToFixpoint, h]

end ExpressionRewriter

end Sql

end ObHtap
