import ObHtap.Sql.GroupByOperator

/-!
# Operators that are opened again

The operators of a sub-query are closed and opened again for every row of the outer query.  What
`close` and `open` leave in their members is what the next round begins with.
-/

namespace ObHtap

namespace Sql

open Cursor

variable {F O : Type}

/-! ## Joins -/

section

variable {left right : PhysicalOperator F O} {relLeft : left.State → left.State → Prop}
  {relRight : right.State → right.State → Prop}
  {st st' : JoinState F O left.State right.State}

/-- The next call begins a round. -/
def JoinState.Idle {σ τ : Type} (st : JoinState F O σ τ) : Prop :=
  st.roundDone = true ∨ st.rightIndex = -1

/-- Joins in the same place of the same tuples.  The place does not matter between two rounds, and
without right tuples every round is over at once. -/
structure JoinAlike (relLeft : left.State → left.State → Prop)
    (relRight : right.State → right.State → Prop)
    (st st' : JoinState F O left.State right.State) : Prop where
  left : relLeft st.left st'.left
  right : relRight st.right st'.right
  leftTuple : st.leftTuple = st'.leftTuple
  rightTuples : st.rightTuples = st'.rightTuples
  place : st.roundDone = st'.roundDone ∧ (st.roundDone = true ∨ st.rightIndex = st'.rightIndex) ∨
    st.rightTuples = [] ∧ st.Idle ∧ st'.Idle

theorem rightStep_alike (h : JoinAlike relLeft relRight st st')
    (hdone : st.roundDone = st'.roundDone) (hindex : st.rightIndex = st'.rightIndex) :
    Agree (JoinAlike relLeft relRight) st.rightStep st'.rightStep := by
  unfold JoinState.rightStep
  rw [← h.leftTuple, ← h.rightTuples, ← hindex]
  split
  · exact ⟨rfl, h.left, h.right, rfl, rfl, Or.inl ⟨rfl, Or.inl rfl⟩⟩
  · split
    · exact ⟨rfl, h.left, h.right, rfl, rfl, Or.inl ⟨hdone, Or.inr rfl⟩⟩
    · exact ⟨rfl, h.left, h.right, h.leftTuple, h.rightTuples, Or.inl ⟨hdone, Or.inr hindex⟩⟩

theorem leftAndRightNext_alike (hleft : IsBisimulation left relLeft)
    (h : JoinAlike relLeft relRight st st') (hdone : st.roundDone = true)
    (hdone' : st'.roundDone = true) :
    Agree (JoinAlike relLeft relRight) (leftAndRightNext left right st)
      (leftAndRightNext left right st') := by
  obtain ⟨hresult, hrel⟩ := hleft.next h.left
  unfold leftAndRightNext
  cases hnext : left.next st.left with
  | mk result state =>
    cases hnext' : left.next st'.left with
    | mk result' state' =>
      rw [hnext, hnext'] at hresult hrel
      obtain rfl : result = result' := hresult
      cases result with
      | error fault =>
        exact ⟨rfl, hrel, h.right, h.leftTuple, h.rightTuples,
          Or.inl ⟨hdone.trans hdone'.symm, Or.inl hdone⟩⟩
      | ok tuple =>
        have hround : ({ st with left := state, leftTuple := some tuple } :
            JoinState F O left.State right.State).newRound =
              { st with
                left := state, leftTuple := some tuple, rightIndex := -1, roundDone := false } :=
          if_pos hdone
        have hround' : ({ st' with left := state', leftTuple := some tuple } :
            JoinState F O left.State right.State).newRound =
              { st' with
                left := state', leftTuple := some tuple, rightIndex := -1, roundDone := false } :=
          if_pos hdone'
        change Agree _ (JoinState.newRound _).rightStep (JoinState.newRound _).rightStep
        rw [hround, hround']
        exact rightStep_alike
          ⟨hrel, h.right, rfl, h.rightTuples, Or.inl ⟨rfl, Or.inr rfl⟩⟩ rfl rfl

/-- Without right tuples and between two rounds, `next` goes on to the next left tuple. -/
theorem joinNext_of_idle (htuples : st.rightTuples = []) (hidle : st.Idle) :
    ∃ st₁, joinNext left right st = leftAndRightNext left right st₁ ∧ st₁.left = st.left ∧
      st₁.right = st.right ∧ st₁.leftTuple = st.leftTuple ∧ st₁.rightTuples = st.rightTuples ∧
      st₁.roundDone = true := by
  unfold joinNext
  split
  next hdone => exact ⟨st, rfl, rfl, rfl, rfl, rfl, hdone⟩
  next hdone =>
    have hindex : st.rightIndex = -1 := hidle.resolve_left hdone
    have hright : rightNext st =
        (.error eof, { st with rightIndex := st.rightIndex + 1, roundDone := true }) := by
      rw [rightNext, JoinState.newRound, if_neg hdone, JoinState.rightStep, if_pos]
      rw [htuples, hindex]
      rfl
    rw [hright]
    exact ⟨_, rfl, rfl, rfl, rfl, rfl, rfl⟩

theorem joinNext_alike (hleft : IsBisimulation left relLeft)
    (h : JoinAlike relLeft relRight st st') :
    Agree (JoinAlike relLeft relRight) (joinNext left right st) (joinNext left right st') := by
  rcases h.place with ⟨hdone, hplace⟩ | ⟨hnil, hidle, hidle'⟩
  · unfold joinNext
    rw [← hdone]
    split
    next hround => exact leftAndRightNext_alike hleft h hround (hdone ▸ hround)
    next hround =>
      have hstep := rightStep_alike h hdone (hplace.resolve_left hround)
      have hright : rightNext st = st.rightStep := congrArg _ (if_neg hround)
      have hright' : rightNext st' = st'.rightStep := congrArg _ (if_neg (hdone ▸ hround))
      rw [← hright, ← hright'] at hstep
      split
      next st₁ heof =>
        rw [heof] at hstep
        have heof' : rightNext st' = (.error eof, (rightNext st').2) :=
          Prod.ext hstep.1.symm rfl
        rw [heof']
        exact leftAndRightNext_alike hleft hstep.2 (rightNext_eof heof).2.2
          (rightNext_eof heof').2.2
      next hne =>
        split
        next st₁' heof' =>
          rw [heof'] at hstep
          exact (hne (rightNext st).2 (Prod.ext hstep.1 rfl)).elim
        · exact hstep
  · obtain ⟨st₁, heq, hl, hr, ht, hts, hdone⟩ :=
      @joinNext_of_idle _ _ left right _ hnil hidle
    obtain ⟨st₁', heq', hl', hr', ht', hts', hdone'⟩ :=
      @joinNext_of_idle _ _ left right _ (h.rightTuples ▸ hnil) hidle'
    rw [heq, heq']
    apply leftAndRightNext_alike hleft _ hdone hdone'
    refine ⟨?_, ?_, ?_, ?_, Or.inl ⟨hdone.trans hdone'.symm, Or.inl hdone⟩⟩
    · rw [hl, hl']
      exact h.left
    · rw [hr, hr']
      exact h.right
    · rw [ht, ht', h.leftTuple]
    · rw [hts, hts', h.rightTuples]

theorem joinOpenLeft_alike (hleft : IsBisimulation left relLeft) (last : Fault)
    (h : JoinAlike relLeft relRight st st') (hdone : st.roundDone = true)
    (hdone' : st'.roundDone = true) :
    Agree (JoinAlike relLeft relRight) (joinOpenLeft left right last st)
      (joinOpenLeft left right last st') := by
  unfold joinOpenLeft
  split
  · obtain ⟨hresult, hrel⟩ := hleft.openOp h.left
    exact ⟨hresult, hrel, h.right, h.leftTuple, h.rightTuples,
      Or.inl ⟨hdone.trans hdone'.symm, Or.inl hdone⟩⟩
  · exact ⟨rfl, h⟩
  · exact ⟨rfl, h⟩

theorem joinOpen_alike (hleft : IsBisimulation left relLeft)
    (hright : IsBisimulation right relRight) (h : JoinAlike relLeft relRight st st') :
    Agree (JoinAlike relLeft relRight) (joinOpen left right st) (joinOpen left right st') := by
  obtain ⟨hdrained, hrel⟩ := hright.drain (hright.openOp h.right).2
  unfold joinOpen
  dsimp only
  rw [← hdrained]
  exact joinOpenLeft_alike hleft _
    ⟨h.left, hrel, h.leftTuple, congrArg (· ++ _) h.rightTuples, Or.inl ⟨rfl, Or.inl rfl⟩⟩ rfl rfl

theorem isBisimulation_nestedLoopJoin (hleft : IsBisimulation left relLeft)
    (hright : IsBisimulation right relRight) :
    IsBisimulation (nestedLoopJoin left right) (JoinAlike relLeft relRight) :=
  ⟨joinOpen_alike hleft hright, joinNext_alike hleft⟩

end

/-! ## The other operators -/

section

variable {child : PhysicalOperator F O} {rel : child.State → child.State → Prop}

/-- Limits on related children, with the same count. -/
def LimitAlike (rel : child.State → child.State → Prop) (st st' : LimitState child.State) : Prop :=
  rel st.child st'.child ∧ st.count = st'.count

theorem limitNext_alike (n : Int) (h : IsBisimulation child rel) {st st' : LimitState child.State}
    (halike : LimitAlike rel st st') :
    Agree (LimitAlike rel) (limitNext n child st) (limitNext n child st') := by
  obtain ⟨hrel, hcount⟩ := halike
  unfold limitNext
  rw [← hcount]
  split_ifs
  · obtain ⟨hresult, hrel₁⟩ := h.next hrel
    exact ⟨hresult, hrel₁, rfl⟩
  · exact ⟨rfl, hrel, hcount⟩

theorem isBisimulation_limit (n : Int) (h : IsBisimulation child rel) :
    IsBisimulation (limit n child) (LimitAlike rel) where
  openOp := fun ⟨hrel, hcount⟩ => ⟨(h.openOp hrel).1, (h.openOp hrel).2, hcount⟩
  next := limitNext_alike n h

/-- Sorts on related children, with the same tuples. -/
def SortAlike (rel : child.State → child.State → Prop) (st st' : SortState F O child.State) :
    Prop :=
  rel st.child st'.child ∧ st.tupleSet = st'.tupleSet

theorem sortNext_alike {st st' : SortState F O child.State} (halike : SortAlike rel st st') :
    Agree (SortAlike rel) (sortNext st) (sortNext st') := by
  obtain ⟨hrel, htuples⟩ := halike
  unfold sortNext
  rw [← htuples]
  split
  · exact ⟨rfl, hrel, htuples⟩
  · exact ⟨rfl, hrel, rfl⟩

/-- Projections on related children; those to constants are both before or both after their
row. -/
def ProjectAlike [OtherExpr F O] (expressions : List (NamedExpr F O)) (rel : child.State → child.State → Prop)
    (st st' : ProjectState child.State) : Prop :=
  rel st.child st'.child ∧
    (expressions.all (fun named => named.expr.pureValue) = true → st.iterated = st'.iterated)

theorem projectNext_alike [OtherExpr F O] (expressions : List (NamedExpr F O)) (h : IsBisimulation child rel)
    {st st' : ProjectState child.State} (halike : ProjectAlike expressions rel st st') :
    Agree (ProjectAlike expressions rel) (projectNext expressions child st)
      (projectNext expressions child st') := by
  obtain ⟨hrel, hiterated⟩ := halike
  unfold projectNext
  split
  next hconstant =>
    rw [← hiterated hconstant]
    split
    · exact ⟨rfl, hrel, hiterated⟩
    · exact ⟨rfl, hrel, fun _ => rfl⟩
  next =>
    obtain ⟨hresult, hrel₁⟩ := h.next hrel
    exact ⟨congrArg (Except.map _) hresult, hrel₁, hiterated⟩

/-- Scalar group-bys on related children, with the same group. -/
def ScalarGroupAlike (rel : child.State → child.State → Prop)
    (st st' : ScalarGroupByState F O child.State) : Prop :=
  rel st.child st'.child ∧ st.groupValue = st'.groupValue ∧ st.emitted = st'.emitted

theorem scalarGroupByNext_alike {st st' : ScalarGroupByState F O child.State}
    (halike : ScalarGroupAlike rel st st') :
    Agree (ScalarGroupAlike rel) (scalarGroupByNext st) (scalarGroupByNext st') := by
  obtain ⟨hrel, hgroup, hemitted⟩ := halike
  unfold scalarGroupByNext
  rw [← hgroup, ← hemitted]
  split
  · exact ⟨rfl, hrel, hgroup, hemitted⟩
  · split
    · exact ⟨rfl, hrel, hgroup, hemitted⟩
    · exact ⟨rfl, hrel, rfl, rfl⟩

theorem isBisimulation_project [OtherExpr F O] (expressions : List (NamedExpr F O))
    (h : IsBisimulation child rel) :
    IsBisimulation (project expressions child) (ProjectAlike expressions rel) where
  openOp := fun ⟨hrel, hiterated⟩ => ⟨(h.openOp hrel).1, (h.openOp hrel).2, hiterated⟩
  next := projectNext_alike expressions h

theorem isBisimulation_eq (op : PhysicalOperator F O) : IsBisimulation op Eq where
  openOp := fun heq => ⟨congrArg (fun st => (op.openOp st).1) heq,
    congrArg (fun st => (op.openOp st).2) heq⟩
  next := fun heq => ⟨congrArg (fun st => (op.next st).1) heq,
    congrArg (fun st => (op.next st).2) heq⟩

variable [Floats F] [StrLike F] [OtherExpr F O]

theorem isBisimulation_predicate (expr : Expression F O) (h : IsBisimulation child rel) :
    IsBisimulation (predicate expr child) rel :=
  ⟨h.openOp, h.find⟩

/-- Hash group-bys on related children, with the same groups. -/
def HashGroupAlike (rel : child.State → child.State → Prop)
    (st st' : HashGroupByState F O child.State) : Prop :=
  rel st.child st'.child ∧ st.groups = st'.groups

theorem hashGroupByOpen_alike (groupBy : List (NamedExpr F O)) (calls : List (AggregateCall F O))
    (h : IsBisimulation child rel) {st st' : HashGroupByState F O child.State}
    (halike : HashGroupAlike rel st st') :
    Agree (HashGroupAlike rel) (hashGroupByOpen groupBy calls child st)
      (hashGroupByOpen groupBy calls child st') := by
  obtain ⟨hrel, hgroups⟩ := halike
  unfold hashGroupByOpen
  cases hopen : child.openOp st.child with
  | mk result state =>
    obtain ⟨state', hopen', hrel₁⟩ := h.openOp_eq hrel hopen
    rw [hopen']
    cases result with
    | error fault => exact ⟨rfl, hrel₁, hgroups⟩
    | ok _ =>
      obtain ⟨hended, hacc, hrel₂⟩ :=
        h.forEach (HashGroups.step groupBy calls) st.groups hrel₁
      dsimp only
      rw [← hgroups, ← hended, ← hacc]
      exact ⟨rfl, hrel₂, rfl⟩

theorem isBisimulation_hashGroupBy (groupBy : List (NamedExpr F O))
    (calls : List (AggregateCall F O)) (h : IsBisimulation child rel) :
    IsBisimulation (hashGroupBy groupBy calls child) (HashGroupAlike rel) where
  openOp := hashGroupByOpen_alike groupBy calls h
  next := fun ⟨hrel, hgroups⟩ => ⟨congrArg (fun groups => groups.next.1) hgroups, hrel,
    congrArg (fun groups => groups.next.2) hgroups⟩

theorem scalarGroupByOpen_alike (calls : List (AggregateCall F O)) (h : IsBisimulation child rel)
    {st st' : ScalarGroupByState F O child.State} (halike : ScalarGroupAlike rel st st') :
    Agree (ScalarGroupAlike rel) (scalarGroupByOpen calls child st)
      (scalarGroupByOpen calls child st') := by
  obtain ⟨hrel, hgroup, hemitted⟩ := halike
  unfold scalarGroupByOpen
  cases hopen : child.openOp st.child with
  | mk result state =>
    obtain ⟨state', hopen', hrel₁⟩ := h.openOp_eq hrel hopen
    rw [hopen']
    cases result with
    | error fault => exact ⟨rfl, hrel₁, hgroup, hemitted⟩
    | ok _ =>
      obtain ⟨hended, hacc, hrel₂⟩ :=
        h.forEach (scalarGroupStep calls) st.groupValue hrel₁
      dsimp only
      rw [← hgroup, ← hemitted, ← hended, ← hacc]
      exact ⟨rfl, hrel₂, rfl, rfl⟩

theorem isBisimulation_scalarGroupBy (calls : List (AggregateCall F O))
    (h : IsBisimulation child rel) :
    IsBisimulation (scalarGroupBy calls child) (ScalarGroupAlike rel) :=
  ⟨scalarGroupByOpen_alike calls h, scalarGroupByNext_alike⟩

variable [StdSort (Tuple F O)]

theorem sortOpen_alike (orderBy : List (Expression F O × OrderByType))
    (h : IsBisimulation child rel) {st st' : SortState F O child.State}
    (halike : SortAlike rel st st') :
    Agree (SortAlike rel) (sortOpen orderBy child st) (sortOpen orderBy child st') := by
  obtain ⟨hrel, htuples⟩ := halike
  unfold sortOpen
  cases hopen : child.openOp st.child with
  | mk result state =>
    obtain ⟨state', hopen', hrel₁⟩ := h.openOp_eq hrel hopen
    rw [hopen']
    cases result with
    | error fault => exact ⟨rfl, hrel₁, htuples⟩
    | ok _ =>
      obtain ⟨hdrained, hrel₂⟩ := h.drain hrel₁
      cases hd : child.drain state with
      | mk given state₁ =>
        cases hd' : child.drain state' with
        | mk given' state₁' =>
          rw [hd, hd'] at hdrained hrel₂
          obtain rfl : given = given' := hdrained
          dsimp only
          rw [hd, hd', ← htuples]
          exact ⟨rfl, hrel₂, rfl⟩

theorem isBisimulation_sort (orderBy : List (Expression F O × OrderByType))
    (h : IsBisimulation child rel) : IsBisimulation (sort orderBy child) (SortAlike rel) :=
  ⟨sortOpen_alike orderBy h, sortNext_alike⟩

end

/-! ## Trees -/

namespace PhysicalPlan

variable [Floats F] [StrLike F] [OtherExpr F O] [StdSort (Tuple F O)]

/-- Members that `open` and `next` cannot tell apart. -/
def Alike : (plan : PhysicalPlan F O) → plan.State → plan.State → Prop
  | predicate _ child => child.Alike
  | nestedLoopJoin left right => @JoinAlike F O left.cursor right.cursor left.Alike right.Alike
  | sort _ child => @SortAlike F O child.cursor child.Alike
  | limit _ child => @LimitAlike F O child.cursor child.Alike
  | hashGroupBy _ _ child => @HashGroupAlike F O child.cursor child.Alike
  | scalarGroupBy _ child => @ScalarGroupAlike F O child.cursor child.Alike
  | project expressions child => @ProjectAlike F O child.cursor _ expressions child.Alike
  | tableScan _ _ | indexScan _ _ _ | absent | fatherTuple => Eq

theorem isBisimulation_alike (plan : PhysicalPlan F O) :
    IsBisimulation plan.cursor plan.Alike := by
  induction plan with
  | tableScan scanner predicates => exact isBisimulation_eq _
  | indexScan opened entries predicates => exact isBisimulation_eq _
  | predicate expr child ih => exact isBisimulation_predicate expr ih
  | nestedLoopJoin left right ihLeft ihRight => exact isBisimulation_nestedLoopJoin ihLeft ihRight
  | sort orderBy child ih => exact isBisimulation_sort orderBy ih
  | limit n child ih => exact isBisimulation_limit n ih
  | hashGroupBy groupBy calls child ih => exact isBisimulation_hashGroupBy groupBy calls ih
  | scalarGroupBy calls child ih => exact isBisimulation_scalarGroupBy calls ih
  | project expressions child ih => exact isBisimulation_project expressions ih
  | absent => exact isBisimulation_eq _
  | fatherTuple => exact isBisimulation_eq _

/-- The members that `close` does not set back are as they were at first: no call of a `LIMIT` is
counted, a sort has given all its tuples, a hash group-by has no groups, a projection to constants
has not given its row, and no slot is left to the page iterator of a table scan. -/
def NothingLeft : (plan : PhysicalPlan F O) → plan.State → Prop
  | predicate _ child => child.NothingLeft
  | nestedLoopJoin left right => fun (st : JoinState F O left.State right.State) =>
      left.NothingLeft st.left ∧ right.NothingLeft st.right
  | sort _ child => fun (st : SortState F O child.State) =>
      child.NothingLeft st.child ∧ st.tupleSet = []
  | limit _ child => fun (st : LimitState child.State) =>
      child.NothingLeft st.child ∧ st.count = 0
  | hashGroupBy _ _ child => fun (st : HashGroupByState F O child.State) =>
      child.NothingLeft st.child ∧ st.groups = ⟨[], some 0, false⟩
  | scalarGroupBy _ child => fun (st : ScalarGroupByState F O child.State) =>
      child.NothingLeft st.child
  | project expressions child => fun (st : ProjectState child.State) =>
      child.NothingLeft st.child ∧
        (expressions.all (fun named => named.expr.pureValue) = true → st.iterated = false)
  | tableScan _ _ => fun (st : TableScanState F) => st.iterator = .atEnd
  | indexScan _ _ _ | absent | fatherTuple => fun _ => True

/-- Closed with nothing left, an operator is as good as new. -/
theorem alike_close {plan : PhysicalPlan F O} {st : plan.State} (h : plan.NothingLeft st) :
    plan.Alike (plan.cursor.close st) plan.cursor.init := by
  induction plan with
  | tableScan scanner predicates =>
    obtain ⟨records, iterator⟩ := st
    obtain rfl : iterator = .atEnd := h
    exact rfl
  | indexScan opened entries predicates => exact rfl
  | predicate expr child ih => exact ih h
  | nestedLoopJoin left right ihLeft ihRight =>
    -- `close` leaves `round_done_` alone, but there are no right tuples.
    exact ⟨ihLeft h.1, ihRight h.2, rfl, rfl, Or.inr ⟨rfl, Or.inr rfl, Or.inl rfl⟩⟩
  | sort orderBy child ih => exact ⟨ih h.1, h.2⟩
  | limit n child ih => exact ⟨ih h.1, h.2⟩
  | hashGroupBy groupBy calls child ih => exact ⟨ih h.1, h.2⟩
  | scalarGroupBy calls child ih => exact ⟨ih h, rfl, rfl⟩
  | project expressions child ih => exact ⟨ih h.1, h.2⟩
  | absent => exact rfl
  | fatherTuple => exact rfl

/-- Opening again after `close` starts afresh. -/
theorem openAndDrain_close {plan : PhysicalPlan F O} {st : plan.State} (h : plan.NothingLeft st) :
    plan.cursor.openAndDrain (plan.cursor.close st) = plan.cursor.openAndDrain plan.cursor.init :=
  plan.isBisimulation_alike.openAndDrain (alike_close h)

/-- The members after opening and `k` calls of `next`. -/
def afterNexts (plan : PhysicalPlan F O) (k : Nat) : plan.State :=
  plan.cursor.nextTimes k (plan.cursor.openOp plan.cursor.init).2

section

/-- One row of one column. -/
def oneRow : Row ℚ :=
  ⟨"t", "t", [("a", .ints 1)]⟩

/-- `SELECT … LIMIT n` over one row. -/
def limitedScan (n : Int) : PhysicalPlan ℚ Empty :=
  .limit n (.tableScan ⟨.ok (), [.ok oneRow], fun _ => false⟩ [])

/-- A scan of two pages with one row each. -/
def twoPages : PhysicalPlan ℚ Empty :=
  .tableScan ⟨.ok (), [.ok oneRow, .ok oneRow], fun _ => false⟩ []

theorem drain_twoPages :
    twoPages.cursor.drain ⟨some [.ok oneRow, .ok oneRow], .atEnd⟩ =
      (([.row oneRow, .row oneRow], eof), ⟨some [], .atEnd⟩) := by
  have hfirst : twoPages.cursor.next ⟨some [.ok oneRow, .ok oneRow], .atEnd⟩ =
      (.ok (.row oneRow), ⟨some [.ok oneRow], .atEnd⟩) := rfl
  have hsecond : twoPages.cursor.next ⟨some [.ok oneRow], .atEnd⟩ =
      (.ok (.row oneRow), ⟨some [], .atEnd⟩) := rfl
  have hend : twoPages.cursor.next ⟨some [], .atEnd⟩ = (.error eof, ⟨some [], .atEnd⟩) := rfl
  rw [drain_of_ok hfirst, drain_of_ok hsecond, drain_of_error hend]

end

end PhysicalPlan

end Sql

end ObHtap
