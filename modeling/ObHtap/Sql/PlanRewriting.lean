import ObHtap.Sql.PredicatePushdown

/-!
# What rewriting keeps

A pass over a plan keeps its results where the rules may be applied, and so does the rewriting to a
fixpoint.
-/

namespace ObHtap

namespace Sql

variable {F O : Type}

/-! ## Operators on what agrees -/

/-- The same from `open` on; under `strict` also the same without it. -/
structure Yield.Agrees (strict : Prop) (y y' : Yield F O) : Prop where
  opened : y'.opened = y.opened
  drained : y'.drained = y.drained
  unopened : strict → y'.unopened = y.unopened

namespace Yield.Agrees

variable {strict : Prop} {y y' z z' : Yield F O}

theorem refl (strict : Prop) (y : Yield F O) : Agrees strict y y :=
  ⟨rfl, rfl, fun _ => rfl⟩

theorem trans {y'' : Yield F O} (h : Agrees strict y y') (h' : Agrees strict y' y'') :
    Agrees strict y y'' :=
  ⟨h'.opened.trans h.opened, h'.drained.trans h.drained,
    fun hstrict => (h'.unopened hstrict).trans (h.unopened hstrict)⟩

theorem eager {σ : Type} (h : Agrees strict y y') (member : σ) (tuples : σ → Tuples F O)
    (opened : Tuples F O → Except Fault Unit × σ) :
    Agrees strict (y.eager member tuples opened) (y'.eager member tuples opened) := by
  rw [Yield.eager, Yield.eager, h.opened, h.drained]
  exact refl strict _

/-- A join opens its left child only when the right one has ended well. -/
theorem join {leftStrict : Prop} (hleft : Agrees leftStrict y y') (hright : Agrees False z z')
    (hstrict : strict → leftStrict) (hended : z.drained.2 ≠ eof → leftStrict) :
    Agrees strict (y.join z) (y'.join z') := by
  unfold Yield.join
  rw [hright.drained]
  split
  next =>
    refine ⟨hleft.opened, congrArg (joinTuples · _) hleft.drained, fun h => ?_⟩
    exact congrArg (joinTuples · _) (hleft.unopened (hstrict h))
  next hcode hlast =>
    have hunopened := hleft.unopened (hended (by rw [hlast]; simpa using hcode))
    rw [hunopened]
    exact refl strict _
  next hother =>
    have hunopened := hleft.unopened (hended (hother RC.recordEof))
    rw [hunopened]
    exact refl strict _

variable [Floats F] [StrLike F] [OtherExpr F O] [StdSort (Tuple F O)]

theorem unary (h : Agrees strict y y') (oper : LogicalOperator F O) :
    Agrees strict (oper.yield y) (oper.yield y') := by
  cases oper with
  | predicate expr =>
    exact ⟨h.opened, congrArg (predicateTuples expr) h.drained,
      fun hstrict => congrArg (predicateTuples expr) (h.unopened hstrict)⟩
  | orderBy exprs => exact h.eager [] (·, eof) fun tuples => sortTuples exprs tuples.1 tuples.2
  | limit n =>
    exact ⟨h.opened, congrArg (limitTuples n) h.drained,
      fun hstrict => congrArg (limitTuples n) (h.unopened hstrict)⟩
  | groupBy exprs calls =>
    cases exprs with
    | nil => exact h.eager _ _ _
    | cons expr exprs => exact h.eager _ _ _
  | projection expressions =>
    exact ⟨h.opened, congrArg (projectTuples expressions) h.drained,
      fun hstrict => congrArg (projectTuples expressions) (h.unopened hstrict)⟩

end Yield.Agrees

variable [Floats F] [StrLike F] [OtherExpr F O]

/-! ## Constant predicates -/

theorem predicateTuples_value (value : Value F) (tuples : Tuples F O) :
    predicateTuples (.value value) tuples =
      if value.getBoolean then tuples else ([], tuples.2) := by
  split
  next htrue =>
    have hstep : ∀ tuple ∈ tuples.1,
        predicateStep (.value value) tuple = Except.ok (some tuple) := by
      intro tuple _
      exact congrArg Except.ok (if_pos htrue)
    exact (Cursor.findList_congr hstep).trans Cursor.findList_some
  next hfalse =>
    have hstep : ∀ tuple ∈ tuples.1,
        predicateStep (.value value) tuple = Except.ok (none : Option (Tuple F O)) := by
      intro tuple _
      exact congrArg Except.ok (if_neg hfalse)
    exact (Cursor.findList_congr hstep).trans Cursor.findList_none

namespace LogicalPlan

variable [ExprTypes F O] [StdSort (Tuple F O)] (db : Contents F)

/-- A plan that can be executed gives the same after it is rewritten. -/
def Same (strict : Prop) (plan plan' : LogicalPlan F O) : Prop :=
  ∀ y, plan.yield db = .ok y → ∃ y', plan'.yield db = .ok y' ∧ Yield.Agrees strict y y'

/-- The child of a predicate that is always false is not missed: it is below a projection, it can be
opened, and it ends well, or the projection has only constants. -/
def CutSafe (strict : Prop) (child : LogicalPlan F O) : LogicalOperator F O → Prop
  | .projection expressions => ∀ y, child.yield db = .ok y → y.opened = .ok () ∧
      (expressions.all (fun named => named.expr.pureValue) = true ∨
        y.drained.2 = eof ∧ (strict → y.unopened.2 = eof))
  | _ => False

/-- `PredicateRewriteRule` may be applied to the only child of an operator. -/
def ConstantSafe (strict : Prop) (oper : LogicalOperator F O) : LogicalPlan F O → Prop
  | unary (.predicate (.value value)) child =>
    value.getBoolean = false → CutSafe db strict child oper
  | _ => True

/-- `PredicatePushdownRewriter` may be applied to an operator. -/
def PushdownSafeAt : LogicalPlan F O → Prop
  | unary (.predicate expr) (tableGet tableName tableAlias predicates) =>
    PushdownSafe (rowsOf (db tableName tableAlias).records).1 predicates expr
  | _ => True

/-- The rules may be applied to an operator. -/
def RulesSafe (strict : Prop) : LogicalPlan F O → Prop
  | unary oper child =>
    ConstantSafe db strict oper child ∧ PushdownSafeAt db (unary oper child.withoutConstant.1)
  | _ => True

/-- The tuples of a plan end with `RECORD_EOF`. -/
def EndsWell (plan : LogicalPlan F O) : Prop :=
  ∀ y, plan.yield db = .ok y → y.drained.2 = eof

mutual

/-- The rules may be applied at every operator that a pass comes to. -/
def Safe (strict : Prop) (oper : LogicalPlan F O) : Prop :=
  RulesSafe db strict oper ∧
    ∀ oper' changed, (_h : oper.applyRules = .ok (oper', changed)) → SafeChildren strict oper'
termination_by (oper.operators, 1)
decreasing_by
  rcases (shrinks_applyRules _h).operators.lt_or_eq with hlt | heq
  · exact Prod.Lex.left _ _ hlt
  · rw [heq]
    exact Prod.Lex.right _ Nat.one_pos

/-- The left child of a join is used without being opened when the right one has failed. -/
def SafeChildren (strict : Prop) : LogicalPlan F O → Prop
  | join left right => Safe (strict ∨ ¬EndsWell db right) left ∧ Safe False right
  | unary _ child => Safe strict child
  | _ => True
termination_by oper => (oper.operators, 0)
decreasing_by
  all_goals
    apply Prod.Lex.left
    simp only [operators]
    omega

end

variable {db} {strict : Prop} {oper : LogicalOperator F O} {child child' plan : LogicalPlan F O}

theorem Same.refl (strict : Prop) (plan : LogicalPlan F O) : Same db strict plan plan :=
  fun y hy => ⟨y, hy, Yield.Agrees.refl strict y⟩

theorem Same.trans {plan' plan'' : LogicalPlan F O} (h : Same db strict plan plan')
    (h' : Same db strict plan' plan'') : Same db strict plan plan'' := by
  intro y hy
  obtain ⟨y', hy', hagrees⟩ := h y hy
  obtain ⟨y'', hy'', hagrees'⟩ := h' y' hy'
  exact ⟨y'', hy'', hagrees.trans hagrees'⟩

theorem Same.unary (h : Same db strict child child') (oper : LogicalOperator F O)
    (hchild : child ≠ absent) : Same db strict (.unary oper child) (.unary oper child') := by
  intro y hy
  obtain ⟨z, hz, hasserted, rfl⟩ := yield_unary_cases hchild hy
  obtain ⟨z', hz', hagrees⟩ := h z hz
  exact ⟨oper.yield z', yield_unary_of_ok oper hasserted hz', hagrees.unary oper⟩

/-- What a predicate over a child gives is made from what the child gives. -/
theorem yield_predicate {expr : Expression F O} {y : Yield F O}
    (h : (unary (.predicate expr) child).yield db = .ok y) :
    ∃ z, child.yield db = .ok z ∧ y = z.predicate expr := by
  have hchild : child ≠ absent := by
    rintro rfl
    cases h
  obtain ⟨z, hz, -, hy⟩ := yield_unary_cases hchild h
  exact ⟨z, hz, hy⟩

theorem same_of_true {value : Value F} (h : value.getBoolean = true) :
    Same db strict (unary (.predicate (.value value)) child) child := by
  intro y hy
  obtain ⟨z, hz, rfl⟩ := yield_predicate hy
  refine ⟨z, hz, rfl, ?_, fun _ => ?_⟩
  · exact ((predicateTuples_value value z.drained).trans (if_pos h)).symm
  · exact ((predicateTuples_value value z.unopened).trans (if_pos h)).symm

/-- A child that is always empty is cut. -/
theorem same_of_cut {value : Value F} (h : value.getBoolean = false)
    (hcut : CutSafe db strict child oper) :
    Same db strict (unary oper (unary (.predicate (.value value)) child)) (unary oper absent) := by
  have hne : unary (.predicate (.value value)) child ≠ absent := nofun
  cases oper with
  | projection expressions =>
    intro y hy
    obtain ⟨z, hyield, -, rfl⟩ := yield_unary_cases hne hy
    obtain ⟨w, hw, rfl⟩ := yield_predicate hyield
    obtain ⟨hopened, hrest⟩ := hcut w hw
    have hproject : ∀ tuples : Tuples F O,
        expressions.all (fun named => named.expr.pureValue) = true ∨ tuples.2 = eof →
        projectTuples expressions ([], eof) =
          projectTuples expressions (predicateTuples (.value value) tuples) := by
      rintro tuples (hconstant | hended)
      · rw [projectTuples, if_pos hconstant, projectTuples, if_pos hconstant]
      · rw [predicateTuples_value, if_neg (by simp [h]), hended]
    refine ⟨_, yield_projection_absent expressions, hopened.symm, ?_, fun hstrict => ?_⟩
    · exact hproject _ (hrest.imp_right And.left)
    · exact hproject _ (hrest.imp_right fun hended => hended.2 hstrict)
  | _ => exact hcut.elim

/-- `PredicateRewriteRule` at an operator. -/
theorem same_predicateRewrite (h : ConstantSafe db strict oper child) :
    Same db strict (unary oper child) (unary oper child.withoutConstant.1) := by
  unfold withoutConstant
  split
  next value child =>
    split_ifs with htrue
    · exact (same_of_true htrue).unary oper nofun
    · exact same_of_cut (by simpa using htrue) (h (by simpa using htrue))
  next => exact Same.refl strict _

/-- `PredicatePushdownRewriter` at an operator. -/
theorem same_predicatePushdown (strict : Prop) (h : PushdownSafeAt db plan) :
    ∃ plan' changed, plan.predicatePushdown = .ok (plan', changed) ∧
      Same db strict plan plan' := by
  unfold PushdownSafeAt at h
  split at h
  next expr tableName tableAlias predicates =>
    obtain ⟨plan', changed, hpushdown, hyield⟩ := predicatePushdown_yield h
    refine ⟨plan', changed, hpushdown, fun y hy => ⟨y, ?_, Yield.Agrees.refl strict y⟩⟩
    rw [hyield, hy]
  next hother =>
    refine ⟨plan, false, ?_, Same.refl strict plan⟩
    unfold predicatePushdown
    split
    next expr tableName tableAlias predicates =>
      exact (hother expr tableName tableAlias predicates rfl).elim
    · rfl

/-- The rules at an operator where they may be applied. -/
theorem same_applyRules (h : RulesSafe db strict plan) :
    ∃ plan' changed, plan.applyRules = .ok (plan', changed) ∧ Same db strict plan plan' := by
  have hpushdown : PushdownSafeAt db plan.predicateRewrite.1 := by
    cases plan with
    | unary oper child => exact h.2
    | _ => trivial
  have hrewrite : Same db strict plan plan.predicateRewrite.1 := by
    cases plan with
    | unary oper child => exact same_predicateRewrite h.1
    | _ => exact Same.refl strict _
  obtain ⟨plan', changed, hok, hsame⟩ := same_predicatePushdown strict hpushdown
  refine ⟨plan', plan.predicateRewrite.2 || changed, ?_, hrewrite.trans hsame⟩
  rw [applyRules, hok]
  rfl

/-! ## Passes -/

theorem Same.join {left left' right right' : LogicalPlan F O}
    (hleft : Same db (strict ∨ ¬EndsWell db right) left left') (hright : Same db False right right') :
    Same db strict (.join left right) (.join left' right') := by
  intro y hy
  rw [yield_join] at hy
  obtain ⟨z, hz, hy⟩ := bind_eq_ok hy
  obtain ⟨w, hw, hy⟩ := bind_eq_ok hy
  cases hy
  obtain ⟨z', hz', hagreesLeft⟩ := hleft z hz
  obtain ⟨w', hw', hagreesRight⟩ := hright w hw
  refine ⟨z'.join w', ?_, hagreesLeft.join hagreesRight Or.inl fun hne => Or.inr fun hends => ?_⟩
  · rw [yield_join, hz', hw']
    rfl
  · exact hne (hends w hw)

/-- One pass. -/
theorem rewrite_same (plan : LogicalPlan F O) :
    ∀ strict, Safe db strict plan → ∃ plan' changed,
      plan.rewrite = .ok (plan', changed) ∧ Same db strict plan plan' := by
  apply rewrite.induct
    (fun plan => ∀ strict, Safe db strict plan → ∃ plan' changed,
      plan.rewrite = .ok (plan', changed) ∧ Same db strict plan plan')
    (fun plan => ∀ strict, SafeChildren db strict plan → ∃ plan' changed,
      plan.rewriteChildren = .ok (plan', changed) ∧ Same db strict plan plan')
  case case1 =>
    intro plan fault hrules strict h
    rw [Safe] at h
    obtain ⟨plan', changed, hok, -⟩ := same_applyRules h.1
    cases hrules.symm.trans hok
  case case2 =>
    intro plan plan₁ changed hrules ih strict h
    rw [Safe] at h
    obtain ⟨plan', changed', hok, hsame⟩ := same_applyRules h.1
    cases hrules.symm.trans hok
    obtain ⟨plan₂, childrenChanged, hchildren, hsame₂⟩ := ih strict (h.2 plan₁ changed hrules)
    refine ⟨plan₂, changed || childrenChanged, ?_, hsame.trans hsame₂⟩
    rw [rewrite_of_applyRules hrules, hchildren]
    rfl
  case case3 =>
    intro left right ihLeft ihRight strict h
    rw [SafeChildren] at h
    obtain ⟨left', leftChanged, hleft, hsameLeft⟩ := ihLeft _ h.1
    obtain ⟨right', rightChanged, hright, hsameRight⟩ := ihRight _ h.2
    refine ⟨join left' right', leftChanged || rightChanged, ?_, hsameLeft.join hsameRight⟩
    rw [rewriteChildren, hleft, hright]
    rfl
  case case4 =>
    intro oper child ih strict h
    rw [SafeChildren] at h
    obtain ⟨child', changed, hchild, hsame⟩ := ih strict h
    refine ⟨unary oper child', changed, ?_, ?_⟩
    · rw [rewriteChildren, hchild]
      rfl
    · by_cases habsent : child = absent
      · subst habsent
        have hleaf : (absent : LogicalPlan F O).rewrite = .ok (absent, false) :=
          rewrite_of_leaf rfl (by simp) (by simp)
        cases hleaf.symm.trans hchild
        exact Same.refl strict _
      · exact hsame.unary oper habsent
  case case5 =>
    intro plan hjoin hunary strict h
    refine ⟨plan, false, ?_, Same.refl strict plan⟩
    rw [rewriteChildren]
    · exact hjoin
    · exact hunary

/-- The rules may be applied at every operator that the passes come to, in the plan itself and in
those that the passes make of it. -/
def Rewritable (db : Contents F) (plan : LogicalPlan F O) : Prop :=
  ∀ plan', Relation.ReflTransGen
      (fun before after => before.rewrite = .ok (after, true)) plan plan' →
    Safe db False plan'

theorem rewriteToFixpoint_same (h : Rewritable db plan) :
    ∃ plan', plan.rewriteToFixpoint = .ok plan' ∧ Same db False plan plan' := by
  induction plan using rewriteToFixpoint.induct with
  | case1 plan fault hrewrite =>
    obtain ⟨plan', changed, hok, -⟩ := rewrite_same plan False (h plan .refl)
    cases hrewrite.symm.trans hok
  | case2 plan plan₁ hrewrite ih =>
    obtain ⟨plan', changed, hok, hsame⟩ := rewrite_same plan False (h plan .refl)
    cases hrewrite.symm.trans hok
    obtain ⟨plan₂, hfixpoint, hsame₂⟩ := ih fun plan' hsteps => h plan' (.head hrewrite hsteps)
    refine ⟨plan₂, ?_, hsame.trans hsame₂⟩
    rw [rewriteToFixpoint_of_changed hrewrite, hfixpoint]
  | case3 plan plan₁ hrewrite =>
    obtain ⟨plan', changed, hok, hsame⟩ := rewrite_same plan False (h plan .refl)
    cases hrewrite.symm.trans hok
    exact ⟨plan₁, rewriteToFixpoint_of_unchanged hrewrite, hsame⟩

theorem safe_of_unary {oper : LogicalOperator F O} {changed : Bool}
    (hrules : RulesSafe db strict plan) (happly : plan.applyRules = .ok (unary oper child, changed)) (hchild : Safe db strict child) :
    Safe db strict plan := by
  rw [Safe]
  refine ⟨hrules, fun oper' changed' h => ?_⟩
  cases happly.symm.trans h
  rw [SafeChildren]
  exact hchild

theorem safe_tableGet (tableName tableAlias : String) (predicates : List (Expression F O)) :
    Safe db strict (tableGet tableName tableAlias predicates) := by
  rw [Safe]
  refine ⟨trivial, fun oper' changed' h => ?_⟩
  cases h
  rw [SafeChildren]
  · trivial
  · nofun
  · nofun

theorem rewritable_of_changed {plan' : LogicalPlan F O} (hsafe : Safe db False plan)
    (hrewrite : plan.rewrite = .ok (plan', true)) (h : Rewritable db plan') :
    Rewritable db plan := by
  intro last hsteps
  rcases hsteps.cases_head with rfl | ⟨next, hnext, hrest⟩
  · exact hsafe
  · cases hrewrite.symm.trans hnext
    exact h last hrest

theorem rewritable_of_unchanged {plan' : LogicalPlan F O} (hsafe : Safe db False plan)
    (hrewrite : plan.rewrite = .ok (plan', false)) : Rewritable db plan := by
  intro last hsteps
  rcases hsteps.cases_head with rfl | ⟨next, hnext, -⟩
  · exact hsafe
  · cases hrewrite.symm.trans hnext

section

/-- The column `a` of `t`. -/
def columnA : Expression ℚ Empty :=
  .field ⟨"t", "a", "t"⟩

/-- `a < n`. -/
def lessThan (n : Int32) : Expression ℚ Empty :=
  .comparison .lessThan columnA (.value (.ints n))

/-- `SELECT a FROM t` with a predicate or more. -/
def selectA (child : LogicalPlan ℚ Empty) : LogicalPlan ℚ Empty :=
  unary (.projection [⟨"a", columnA⟩]) child

/-- `t` with one row. -/
def oneRow (a : Int32) : Contents ℚ :=
  fun _ _ => ⟨.ok (), [.ok ⟨"t", "t", [("a", .ints a)]⟩], fun _ => false⟩

/-- `a < 3` below `a < 9`. -/
def stacked : LogicalPlan ℚ Empty :=
  selectA (unary (.predicate (lessThan 9)) (unary (.predicate (lessThan 3)) (tableGet "t" "t" [])))

theorem rewrite_scan (predicates : List (Expression ℚ Empty)) :
    (tableGet "t" "t" predicates).rewrite = .ok (tableGet "t" "t" predicates, false) :=
  rewrite_of_leaf rfl nofun nofun

theorem rewriteToFixpoint_stacked :
    stacked.rewriteToFixpoint = .ok (selectA (tableGet "t" "t" [lessThan 9])) := by
  have hfirst : stacked.rewrite = .ok (selectA (unary (.predicate (lessThan 9))
      (unary (.predicate (.value (.booleans true))) (tableGet "t" "t" [lessThan 3]))), true) :=
    rewrite_of_unary rfl (rewrite_of_unary rfl (rewrite_of_unary rfl (rewrite_scan _) rfl) rfl) rfl
  have hsecond : (selectA (unary (.predicate (lessThan 9))
      (unary (.predicate (.value (.booleans true))) (tableGet "t" "t" [lessThan 3])))).rewrite =
      .ok (selectA (unary (.predicate (.value (.booleans true))) (tableGet "t" "t" [lessThan 9])),
        true) :=
    rewrite_of_unary rfl (rewrite_of_unary rfl (rewrite_scan _) rfl) rfl
  have hthird : (selectA (unary (.predicate (.value (.booleans true)))
      (tableGet "t" "t" [lessThan 9]))).rewrite =
      .ok (selectA (tableGet "t" "t" [lessThan 9]), true) :=
    rewrite_of_unary rfl (rewrite_scan _) rfl
  rw [rewriteToFixpoint_of_changed hfirst, rewriteToFixpoint_of_changed hsecond,
    rewriteToFixpoint_of_changed hthird]
  exact rewriteToFixpoint_of_unchanged (rewrite_of_unary rfl (rewrite_scan _) rfl)

/-- `a < 9 AND a < 3` over the scan. -/
def conjoined : LogicalPlan ℚ Empty :=
  selectA (unary (.predicate (.conjunction .and [lessThan 9, lessThan 3])) (tableGet "t" "t" []))

theorem pushdownSafe_conjoined (rows : List (Row ℚ)) :
    PushdownSafe rows [] (.conjunction .and [lessThan 9, lessThan 3]) where
  onlyAnd := by
    intro children hmem
    change .conjunction .or children ∈ [lessThan 9, lessThan 3] at hmem
    simp [lessThan] at hmem
  unfiltered := Or.inl rfl
  inOrder := fun _ _ => ⟨⟨trivial, nofun⟩, nofun⟩

theorem rewritable_conjoined : Rewritable (oneRow 1) conjoined := by
  have hfirst : conjoined.rewrite = .ok (selectA (unary (.predicate (.value (.booleans true)))
      (tableGet "t" "t" [lessThan 9, lessThan 3])), true) :=
    rewrite_of_unary rfl (rewrite_of_unary rfl (rewrite_scan _) rfl) rfl
  have hsecond : (selectA (unary (.predicate (.value (.booleans true)))
      (tableGet "t" "t" [lessThan 9, lessThan 3]))).rewrite =
      .ok (selectA (tableGet "t" "t" [lessThan 9, lessThan 3]), true) :=
    rewrite_of_unary rfl (rewrite_scan _) rfl
  have hthird : (selectA (tableGet "t" "t" [lessThan 9, lessThan 3])).rewrite =
      .ok (selectA (tableGet "t" "t" [lessThan 9, lessThan 3]), false) :=
    rewrite_of_unary rfl (rewrite_scan _) rfl
  have hscan : ∀ predicates : List (Expression ℚ Empty),
      Safe (oneRow 1) False (tableGet "t" "t" predicates) :=
    safe_tableGet "t" "t"
  apply rewritable_of_changed _ hfirst
  · apply rewritable_of_changed _ hsecond
    · apply rewritable_of_unchanged _ hthird
      apply safe_of_unary _ rfl (hscan _)
      exact ⟨trivial, trivial⟩
    · apply safe_of_unary _ rfl (hscan _)
      exact ⟨nofun, trivial⟩
  · apply safe_of_unary _ rfl
    · apply safe_of_unary _ rfl (hscan _)
      exact ⟨trivial, pushdownSafe_conjoined _⟩
    · exact ⟨trivial, trivial⟩

end

end LogicalPlan

end Sql

end ObHtap
