import ObHtap.Sql.ExpressionRewriter

/-!
# What simplification keeps

Where the value of an expression is used as a boolean, a conjunction may give way to the one child
it has left; below a cast or a comparison the child must have boolean values itself.
-/

namespace ObHtap

namespace Sql

namespace Expression

open ConjunctionSimplificationRule ExpressionRewriter

variable {F O : Type} {conjunctionType : ConjunctionType}
  {children children' : List (Expression F O)} {child expr expr' : Expression F O}

theorem tryToGetBoolConstant_eq_some {constant : Bool}
    (h : tryToGetBoolConstant child = some constant) : child = .value (.booleans constant) := by
  unfold tryToGetBoolConstant at h
  split at h
  · cases h
    rfl
  · cases h

variable [Floats F] [StrLike F] {tuple : Cells F O} {strict : Bool}

/-- The same value for every tuple, or, when `strict` is off, the same boolean; or the same
failure. -/
def Same : Bool → Expression F O → Expression F O → Prop
  | true, expr, expr' => ∀ tuple, expr'.getValue tuple = expr.getValue tuple
  | false, expr, expr' => ∀ tuple, expr'.getBoolean tuple = expr.getBoolean tuple

/-- What `try_get_value` says of two constants is what `get_value` says. -/
def ConstantsAgree (comp : CompOp) : Expression F O → Expression F O → Prop
  | .value left, .value right =>
    (∀ result, ComparisonExpr.compareValue comp left right = .ok result →
      ComparisonExpr.evalComp comp left right = .ok result) ∧
    ∀ fault, ComparisonExpr.compareValue comp left right = .error fault → ∃ rc, fault = .rc rc
  | _, _ => True

/-- Of a conjunction with these children the rule makes no other one: when it takes the front
child for the whole, that is the constant which decides; it does not erase all children of an
`OR`; and below a cast or a comparison the child that takes the place of the conjunction has
boolean values. -/
structure RuleApplies (strict : Bool) (conjunctionType : ConjunctionType)
    (children : List (Expression F O)) : Prop where
  decided : ∀ front, eraseConstants conjunctionType [] children = .error front →
    (tryToGetBoolConstant front).isSome
  emptied : conjunctionType = .or → eraseConstants conjunctionType [] children = .ok [] →
    children = []
  promoted : strict = true → ∀ child, eraseConstants conjunctionType [] children = .ok [child] →
    ∀ tuple value, child.getValue tuple = .ok value → value.attrType = .booleans

mutual

/-- The rules apply at every node that one pass comes to. -/
def Safe (strict : Bool) : Expression F O → Prop
  | .cast child _ => Safe true child
  | .comparison comp left right => ConstantsAgree comp left right ∧ Safe true left ∧ Safe true right
  | .conjunction conjunctionType children =>
    RuleApplies strict conjunctionType children ∧
      ((∀ front, eraseConstants conjunctionType [] children ≠ .error front) →
        (withoutConstants children).length ≠ 1 → SafeChildren children)
  | _ => True

def SafeChildren : List (Expression F O) → Prop
  | [] => True
  | child :: children => Safe false child ∧ SafeChildren children

end

/-! ## Conjunctions -/

theorem conjunctionValue_cons :
    conjunctionValue tuple conjunctionType (child :: children) =
      child.getBoolean tuple >>= fun boolean =>
        if boolean = conjunctionType.neutral then conjunctionValue tuple conjunctionType children
        else .ok (.booleans boolean) := by
  rw [conjunctionValue, getBoolean]
  cases child.getValue tuple with
  | error fault => rfl
  | ok value =>
    change (if _ then _ else _) = if value.getBoolean = _ then _ else _
    cases conjunctionType <;> cases value.getBoolean <;> rfl

theorem getValue_conjunction (h : children = [] → conjunctionType = .and) :
    getValue tuple (.conjunction conjunctionType children) =
      conjunctionValue tuple conjunctionType children := by
  cases children with
  | nil =>
    rw [h rfl, getValue, conjunctionValue]
    rfl
  | cons child children => rw [getValue]

@[simp] theorem getBoolean_constant (constant : Bool) :
    getBoolean tuple (.value (.booleans constant)) = .ok constant := by
  rw [getBoolean, getValue]
  rfl

/-- Constants that leave the result open can be erased. -/
theorem conjunctionValue_withoutConstants (tuple : Cells F O) (h : Undecided conjunctionType children)
    (rest : List (Expression F O)) :
    conjunctionValue tuple conjunctionType (withoutConstants children ++ rest) =
      conjunctionValue tuple conjunctionType (children ++ rest) := by
  induction children with
  | nil => rfl
  | cons child children ih =>
    have ih := ih fun other hother => h other (List.mem_cons_of_mem _ hother)
    rw [List.cons_append, conjunctionValue_cons, ← ih]
    cases hchild : tryToGetBoolConstant child with
    | none =>
      rw [withoutConstants, List.filter_cons_of_pos (by simp [hchild]), List.cons_append,
        conjunctionValue_cons]
      rfl
    | some constant =>
      rw [withoutConstants, List.filter_cons_of_neg (by simp [hchild]),
        tryToGetBoolConstant_eq_some hchild, getBoolean_constant]
      have hneutral := h child List.mem_cons_self constant hchild
      change _ = if constant = _ then _ else _
      rw [if_pos hneutral]
      rfl

/-- A conjunction of one child has the boolean of the child. -/
theorem getValue_conjunction_singleton :
    getValue tuple (.conjunction conjunctionType [child]) =
      (child.getBoolean tuple).map .booleans := by
  rw [getValue, conjunctionValue_cons]
  cases child.getBoolean tuple with
  | error fault => rfl
  | ok boolean =>
    change (if _ then _ else _) = Except.ok _
    split_ifs with hneutral
    · rw [conjunctionValue, hneutral]
      cases conjunctionType <;> rfl
    · rfl

theorem getBoolean_eq_of_getValue_eq (h : expr'.getValue tuple = expr.getValue tuple) :
    expr'.getBoolean tuple = expr.getBoolean tuple := by
  rw [getBoolean, getBoolean, h]

theorem Same.refl (strict : Bool) (expr : Expression F O) : Same strict expr expr := by
  cases strict with
  | true => exact fun _ => rfl
  | false => exact fun _ => rfl

theorem Same.of_strict (h : Same true expr expr') (strict : Bool) : Same strict expr expr' := by
  cases strict with
  | true => exact h
  | false => exact fun tuple => getBoolean_eq_of_getValue_eq (h tuple)

theorem Same.trans {expr'' : Expression F O} (h : Same strict expr expr')
    (h' : Same strict expr' expr'') : Same strict expr expr'' := by
  cases strict with
  | true => exact fun tuple => (h' tuple).trans (h tuple)
  | false => exact fun tuple => (h' tuple).trans (h tuple)

/-- A conjunction reads its children as booleans only. -/
theorem conjunctionValue_congr (h : List.Forall₂ (Same false) children children') :
    conjunctionValue tuple conjunctionType children' =
      conjunctionValue tuple conjunctionType children := by
  induction h with
  | nil => rfl
  | cons hchild _ ih => rw [conjunctionValue_cons, conjunctionValue_cons, ih, hchild tuple]

theorem Same.conjunction (h : List.Forall₂ (Same false) children children') :
    Same true (.conjunction conjunctionType children)
      (.conjunction conjunctionType children') := by
  intro tuple
  cases h with
  | nil => rfl
  | cons hchild hrest =>
    rw [getValue, getValue]
    exact conjunctionValue_congr (.cons hchild hrest)

/-! ## The rules -/

/-- A conjunction that has kept a child, or is an `AND`, is worth what the loop says. -/
theorem getValue_withoutConstants (hopen : Undecided conjunctionType children)
    (h : conjunctionType = .or → withoutConstants children = [] → children = []) :
    getValue tuple (.conjunction conjunctionType (withoutConstants children)) =
      getValue tuple (.conjunction conjunctionType children) := by
  by_cases hnil : children = []
  · subst hnil
    rfl
  · have hkept : withoutConstants children = [] → conjunctionType = .and := by
      intro hempty
      cases conjunctionType with
      | and => rfl
      | or => exact absurd (h rfl hempty) hnil
    have herase := conjunctionValue_withoutConstants tuple hopen []
    rw [List.append_nil, List.append_nil] at herase
    rw [getValue_conjunction hkept, getValue_conjunction fun heq => absurd heq hnil, herase]

theorem conjunctionRule_same (h : RuleApplies strict conjunctionType children) :
    Same strict (.conjunction conjunctionType children)
      (ConjunctionSimplificationRule.rewrite (.conjunction conjunctionType children)).1 := by
  rw [ConjunctionSimplificationRule.rewrite]
  split
  next front herase =>
    obtain ⟨before, constant, after, rfl, hbefore, hconstant, hfront⟩ :=
      eraseConstants_of_error herase
    have hsome := h.decided front herase
    have hempty : withoutConstants before = [] := by
      cases hfirst : withoutConstants before with
      | nil => rfl
      | cons first rest =>
        have hmem : first ∈ withoutConstants before := by simp [hfirst]
        obtain rfl : front = first := by simpa [hfirst] using hfront
        have hnone := (List.mem_filter.mp hmem).2
        rw [Option.isNone_iff_eq_none.mp hnone] at hsome
        cases hsome
    obtain rfl : front = constant := by simpa [hempty] using hfront
    apply Same.of_strict
    intro tuple
    change front.getValue tuple = _
    rw [getValue_conjunction (by simp), ← conjunctionValue_withoutConstants tuple hbefore, hempty,
      tryToGetBoolConstant_eq_some hconstant, List.nil_append, conjunctionValue_cons,
      getBoolean_constant, getValue]
    cases conjunctionType <;> rfl
  next child herase =>
    obtain ⟨hout, hopen⟩ := eraseConstants_of_ok herase
    rw [List.nil_append] at hout
    have hvalue (tuple : Cells F O) :
        getValue tuple (.conjunction conjunctionType children) =
          (child.getBoolean tuple).map .booleans := by
      rw [← getValue_withoutConstants hopen (by simp [← hout]), ← hout,
        getValue_conjunction_singleton]
    cases strict with
    | true =>
      intro tuple
      change child.getValue tuple = _
      rw [hvalue, getBoolean]
      cases hchild : child.getValue tuple with
      | error fault => rfl
      | ok value =>
        have htype := h.promoted rfl child herase tuple value hchild
        cases value with
        | booleans boolean => rfl
        | _ => cases htype
    | false =>
      intro tuple
      change child.getBoolean tuple = _
      rw [getBoolean, getBoolean, hvalue, getBoolean]
      cases child.getValue tuple <;> rfl
  next out hsingle herase =>
    obtain ⟨hout, hopen⟩ := eraseConstants_of_ok herase
    rw [List.nil_append] at hout
    subst hout
    apply Same.of_strict
    intro tuple
    apply getValue_withoutConstants hopen
    intro hor hempty
    rw [hempty] at herase
    exact h.emptied hor herase

/-- What a pass needs of an expression that the rules have left, to go on inside it. -/
def SafeInside : Expression F O → Prop
  | .cast child _ => Safe true child
  | .comparison _ left right => Safe true left ∧ Safe true right
  | .conjunction _ children => SafeChildren children
  | _ => True

theorem safeChildren_iff : SafeChildren children ↔ ∀ child ∈ children, Safe false child := by
  induction children with
  | nil => simp [SafeChildren]
  | cons child children ih => simp [SafeChildren, ih]

/-- The rules together at a node where they apply. -/
def AppliedAt (strict : Bool) (expr : Expression F O) : Prop :=
  ∃ expr' changed, applyRules expr = .ok (expr', changed) ∧ Same strict expr expr' ∧
    (changed = false → SafeInside expr')

theorem appliedAt_comparison {comp : CompOp} {left right : Expression F O}
    (h : Safe strict (.comparison comp left right)) :
    AppliedAt strict (.comparison comp left right) := by
  rw [Safe] at h
  obtain ⟨hconstants, hleft, hright⟩ := h
  have hunchanged {rc : RC} (htry : ComparisonExpr.tryGetValue comp left right = .error (.rc rc)) :
      AppliedAt strict (.comparison comp left right) := by
    refine ⟨.comparison comp left right, false, ?_, Same.refl _ _, fun _ => ⟨hleft, hright⟩⟩
    rw [applyRules, ComparisonSimplificationRule.rewrite, htry]
    rfl
  cases left with
  | value leftValue =>
    cases right with
    | value rightValue =>
      cases hcompare : ComparisonExpr.compareValue comp leftValue rightValue with
      | ok result =>
        refine ⟨.value (.booleans result), true, ?_, ?_, by simp⟩
        · rw [applyRules, ComparisonSimplificationRule.rewrite, ComparisonExpr.tryGetValue,
            hcompare]
          rfl
        · apply Same.of_strict
          intro tuple
          rw [getValue, getValue, getValue, getValue]
          change _ = (ComparisonExpr.evalComp comp leftValue rightValue).map _
          rw [hconstants.1 result hcompare]
          rfl
      | error fault =>
        obtain ⟨rc, rfl⟩ := hconstants.2 fault hcompare
        apply hunchanged
        rw [ComparisonExpr.tryGetValue, hcompare]
        rfl
    | _ => exact hunchanged rfl
  | _ => exact hunchanged rfl

theorem appliedAt_conjunction (h : Safe strict (.conjunction conjunctionType children)) :
    AppliedAt strict (.conjunction conjunctionType children) := by
  rw [Safe] at h
  obtain ⟨happlies, hchildren⟩ := h
  refine ⟨_, _, rfl, conjunctionRule_same happlies, ?_⟩
  change (ConjunctionSimplificationRule.rewrite (.conjunction conjunctionType children)).2 = false →
    SafeInside (ConjunctionSimplificationRule.rewrite (.conjunction conjunctionType children)).1
  rw [ConjunctionSimplificationRule.rewrite]
  split
  next front herase =>
    intro _
    obtain ⟨constant, hconstant⟩ := Option.isSome_iff_exists.mp (happlies.decided front herase)
    rw [tryToGetBoolConstant_eq_some hconstant]
    exact trivial
  next child herase =>
    intro hchanged
    cases hchanged
  next out hsingle herase =>
    intro _
    obtain ⟨hout, -⟩ := eraseConstants_of_ok herase
    rw [List.nil_append] at hout
    have hall := hchildren (by simp [herase]) (by
      rw [← hout]
      intro hlength
      obtain ⟨child, hchild⟩ := List.length_eq_one_iff.mp hlength
      exact hsingle child hchild)
    apply safeChildren_iff.mpr
    intro child hchild
    rw [hout] at hchild
    exact safeChildren_iff.mp hall child (List.mem_of_mem_filter hchild)

theorem appliedAt_of_safe (h : Safe strict expr) : AppliedAt strict expr := by
  cases expr with
  | comparison comp left right => exact appliedAt_comparison h
  | conjunction conjunctionType children => exact appliedAt_conjunction h
  | cast child castType =>
    rw [Safe] at h
    exact ⟨_, _, rfl, Same.refl _ _, fun _ => h⟩
  | _ => exact ⟨_, _, rfl, Same.refl _ _, fun _ => trivial⟩

/-! ## The rewriter -/

/-- One pass over an expression whose rules apply. -/
theorem rewriteExpression_same (expr : Expression F O) :
    ∀ strict, Safe strict expr → ∃ expr' changed,
      rewriteExpression expr = .ok (expr', changed) ∧ Same strict expr expr' := by
  apply rewriteExpression.induct
    (fun expr => ∀ strict, Safe strict expr → ∃ expr' changed,
      rewriteExpression expr = .ok (expr', changed) ∧ Same strict expr expr')
    (fun expr => SafeInside expr → ∃ expr' changed,
      rewriteInside expr = .ok (expr', changed) ∧ Same true expr expr')
    (fun children => SafeChildren children → ∃ children' changed,
      rewriteChildren children = .ok (children', changed) ∧
        List.Forall₂ (Same false) children children')
  case case1 =>
    intro expr fault hrules strict h
    obtain ⟨expr', changed, hok, -⟩ := appliedAt_of_safe h
    cases hrules.symm.trans hok
  case case2 =>
    intro expr expr₁ hrules strict h
    obtain ⟨expr', changed, hok, hsame, -⟩ := appliedAt_of_safe h
    cases hrules.symm.trans hok
    exact ⟨expr₁, true, rewriteExpression_of_changed hrules, hsame⟩
  case case3 =>
    intro expr expr₁ hrules ih strict h
    obtain ⟨expr', changed, hok, hsame, hinside⟩ := appliedAt_of_safe h
    cases hrules.symm.trans hok
    obtain ⟨expr₂, changed, hrewrite, hsame₂⟩ := ih (hinside rfl)
    refine ⟨expr₂, changed, ?_, hsame.trans (hsame₂.of_strict strict)⟩
    rw [rewriteExpression_of_unchanged hrules, hrewrite]
  case case4 =>
    intro child castType ih h
    obtain ⟨child', changed, hchild, hsame⟩ := ih true h
    refine ⟨.cast child' castType, changed, ?_, ?_⟩
    · rw [rewriteInside, hchild]
      rfl
    · intro tuple
      rw [getValue, getValue, hsame tuple]
  case case5 =>
    intro comp left right ihLeft ihRight h
    obtain ⟨left', leftChanged, hleft, hsameLeft⟩ := ihLeft true h.1
    obtain ⟨right', rightChanged, hright, hsameRight⟩ := ihRight true h.2
    refine ⟨.comparison comp left' right', leftChanged || rightChanged, ?_, ?_⟩
    · rw [rewriteInside, hleft, hright]
      rfl
    · intro tuple
      rw [getValue, getValue, hsameLeft tuple, hsameRight tuple]
  case case6 =>
    intro conjunctionType children ih h
    obtain ⟨children', changed, hchildren, hsame⟩ := ih h
    refine ⟨.conjunction conjunctionType children', changed, ?_, Same.conjunction hsame⟩
    rw [rewriteInside, hchildren]
    rfl
  case case7 =>
    intro expr hcast hcomparison hconjunction h
    refine ⟨expr, false, ?_, Same.refl _ _⟩
    rw [rewriteInside]
    · exact hcast
    · exact hcomparison
    · exact hconjunction
  case case8 =>
    intro h
    refine ⟨[], false, ?_, .nil⟩
    rw [rewriteChildren]
  case case9 =>
    intro child children ihChild ihChildren h
    rw [SafeChildren] at h
    obtain ⟨child', childChanged, hchild, hsameChild⟩ := ihChild false h.1
    obtain ⟨children', changed, hchildren, hsame⟩ := ihChildren h.2
    refine ⟨child' :: children', childChanged || changed, ?_, .cons hsameChild hsame⟩
    rw [rewriteChildren, hchild, hchildren]
    rfl

/-- The rules apply at every node that the passes come to, in the expression itself and in those
that the passes make of it. -/
def Simplifiable (expr : Expression F O) : Prop :=
  ∀ expr', Relation.ReflTransGen
      (fun before after => rewriteExpression before = .ok (after, true)) expr expr' →
    Safe false expr'

/-- Apart from `IN`, `NOT IN`, `LIKE` and `NOT LIKE` two constants that can be compared at all
agree. -/
theorem constantsAgree_of_compare {comp : CompOp} {left right : Value F} {cmpResult : Int}
    (hcomp : comp ∉ [.inValueList, .notInValueList, .likeOp, .notLikeOp])
    (h : left.compare right = .ok cmpResult) :
    ConstantsAgree comp (.value left : Expression F O) (.value right) := by
  have heval : ComparisonExpr.evalComp comp left right =
      ComparisonExpr.compareValue comp left right := by
    cases comp with
    | inValueList | notInValueList | likeOp | notLikeOp => simp at hcomp
    | _ => rfl
  constructor
  · intro result hresult
    rw [heval, hresult]
  · exact fun fault hfault => ComparisonExpr.compareValue_error h hfault

theorem simplifiable_of_changed (hsafe : Safe false expr)
    (hrewrite : rewriteExpression expr = .ok (expr', true)) (h : Simplifiable expr') :
    Simplifiable expr := by
  intro last hsteps
  rcases hsteps.cases_head with rfl | ⟨next, hnext, hrest⟩
  · exact hsafe
  · cases hrewrite.symm.trans hnext
    exact h last hrest

theorem simplifiable_of_unchanged (hsafe : Safe false expr)
    (hrewrite : rewriteExpression expr = .ok (expr', false)) : Simplifiable expr := by
  intro last hsteps
  rcases hsteps.cases_head with rfl | ⟨next, hnext, -⟩
  · exact hsafe
  · cases hrewrite.symm.trans hnext

/-! ## Expressions over one column -/

/-- `a < 3`. -/
def lessThanThree : Expression ℚ Empty :=
  .comparison .lessThan (.field ⟨"t", "a", "t"⟩) (.value (.ints 3))

/-- A row of `t` with the number in `a`. -/
def rowWith (a : Int32) : Cells ℚ Empty where
  findCell _ := .ok (.ints a)
  other := nofun

theorem rewriteInside_lessThanThree :
    rewriteInside lessThanThree = .ok (lessThanThree, false) := by
  rw [lessThanThree, rewriteInside, rewriteExpression_of_unchanged rfl,
    rewriteExpression_of_unchanged rfl, rewriteInside, rewriteInside]
  · rfl
  all_goals simp

/-- `1 = 1 AND (a < 3 OR FALSE)`. -/
def nested : Expression ℚ Empty :=
  .conjunction .and [.comparison .equalTo (.value (.ints 1)) (.value (.ints 1)),
    .conjunction .or [lessThanThree, .value (.booleans false)]]

theorem safe_lessThanThree (strict : Bool) : Safe strict lessThanThree :=
  ⟨trivial, trivial, trivial⟩

theorem ruleApplies_of_kept {kept : List (Expression F O)}
    (herase : eraseConstants conjunctionType [] children = .ok kept) (hkept : kept ≠ []) :
    RuleApplies false conjunctionType children where
  decided front hfront := by cases herase.symm.trans hfront
  emptied _ hempty := by
    cases herase.symm.trans hempty
    exact absurd rfl hkept
  promoted h := by cases h

theorem safe_nested : Safe false nested := by
  refine ⟨ruleApplies_of_kept rfl (by simp), fun _ _ => ⟨⟨?_, trivial, trivial⟩, ?_, trivial⟩⟩
  · exact constantsAgree_of_compare (by decide)
      (show Value.compare (.ints 1) (.ints 1) = .ok 0 from rfl)
  · exact ⟨ruleApplies_of_kept rfl (by simp), fun _ h => absurd rfl h⟩

theorem simplifiable_nested : Simplifiable nested := by
  have hinside : rewriteInside nested =
      .ok (.conjunction .and [.value (.booleans true), lessThanThree], true) := by
    rw [nested, rewriteInside, rewriteChildren, rewriteChildren, rewriteChildren,
      rewriteExpression_of_changed rfl, rewriteExpression_of_changed rfl]
    rfl
  have hpass : rewriteExpression nested =
      .ok (.conjunction .and [.value (.booleans true), lessThanThree], true) :=
    (rewriteExpression_of_unchanged rfl).trans hinside
  have hsecond : rewriteExpression
      (.conjunction .and [.value (.booleans true), lessThanThree]) =
        .ok (lessThanThree, true) :=
    rewriteExpression_of_changed rfl
  have hthird : rewriteExpression lessThanThree = .ok (lessThanThree, false) :=
    (rewriteExpression_of_unchanged rfl).trans rewriteInside_lessThanThree
  apply simplifiable_of_changed safe_nested hpass
  apply simplifiable_of_changed _ hsecond
  · exact simplifiable_of_unchanged (safe_lessThanThree false) hthird
  · exact ⟨ruleApplies_of_kept rfl (by simp), fun _ h => absurd rfl h⟩

end Expression

end Sql

end ObHtap
