import ObHtap.Sql.GroupByOperator

/-!
# What the operators give

All that the calls of an operator give is made from all that those of its children give.
-/

namespace ObHtap

namespace Sql

open Cursor

variable {F O : Type}

/-- The tuples up to the first call of `next` that fails, with its error. -/
abbrev Tuples (F O : Type) :=
  List (Tuple F O) × Fault

/-- The tuples of an operator that nobody has opened, the return code of `open`, and the tuples
after it. -/
@[ext]
structure Yield (F O : Type) where
  unopened : Tuples F O
  opened : Except Fault Unit
  drained : Tuples F O

/-- All that an operator gives from its initial state on. -/
def yieldOf (op : PhysicalOperator F O) : Yield F O where
  unopened := (op.drain op.init).1
  opened := (op.openOp op.init).1
  drained := (op.drain (op.openOp op.init).2).1

/-! ## Joins -/

/-- Each left tuple with all the right ones. -/
def pairs (left right : List (Tuple F O)) : List (Tuple F O) :=
  left.flatMap fun tuple => right.map (.joined tuple)

/-- The tuples of a join.  Without right tuples it ends at the first left one. -/
def joinTuples (left : Tuples F O) (right : List (Tuple F O)) : Tuples F O :=
  (pairs left.1 right, if right.isEmpty && !left.1.isEmpty then eof else left.2)

/-- The right tuples are all read first; the left child is opened only when they end well. -/
def Yield.join (left right : Yield F O) : Yield F O :=
  match right.drained.2 with
  | .rc .recordEof =>
    ⟨joinTuples left.unopened [], left.opened, joinTuples left.drained right.drained.1⟩
  | .rc _ =>
    ⟨joinTuples left.unopened [], .error (.rc .error),
      joinTuples left.unopened right.drained.1⟩
  | fault =>
    ⟨joinTuples left.unopened [], .error fault, joinTuples left.unopened right.drained.1⟩

section

variable {left right : PhysicalOperator F O} {st : JoinState F O left.State right.State}

theorem joinNext_of_roundDone (hround : st.roundDone = true) :
    joinNext left right st = leftAndRightNext left right st :=
  if_pos hround

theorem joinOpenLeft_rc {code : RC} (hcode : code ≠ .recordEof) :
    joinOpenLeft left right (.rc code) st = (.error (.rc .error), st) := by
  unfold joinOpenLeft
  split
  next heq =>
    cases heq
    exact absurd rfl hcode
  · rfl
  next hrc => exact (hrc code rfl).elim

theorem joinOpenLeft_other {fault : Fault} (hother : ∀ code, fault ≠ .rc code) :
    joinOpenLeft left right fault st = (.error fault, st) := by
  unfold joinOpenLeft
  split
  · exact absurd rfl (hother _)
  · exact absurd rfl (hother _)
  · rfl

theorem rightStep_of_getElem {tuple tuple' : Tuple F O} (htuple : st.leftTuple = some tuple)
    {index : Nat} (hindex : st.rightIndex + 1 = index)
    (hright : st.rightTuples[index]? = some tuple') :
    st.rightStep = (.ok (.joined tuple tuple'), { st with rightIndex := st.rightIndex + 1 }) := by
  have hlt := (List.getElem?_eq_some_iff.mp hright).1
  rw [JoinState.rightStep, if_neg, htuple, hindex, Int.toNat_natCast, hright]
  omega

theorem joinNext_of_getElem {tuple tuple' : Tuple F O} (htuple : st.leftTuple = some tuple)
    (hround : st.roundDone = false) {index : Nat} (hindex : st.rightIndex + 1 = index)
    (hright : st.rightTuples[index]? = some tuple') :
    joinNext left right st =
      (.ok (.joined tuple tuple'), { st with rightIndex := st.rightIndex + 1 }) := by
  rw [joinNext, if_neg (by simp [hround]), rightNext, JoinState.newRound,
    if_neg (by simp [hround]), rightStep_of_getElem htuple hindex hright]

theorem joinNext_of_length (hround : st.roundDone = false)
    (hindex : st.rightIndex + 1 = st.rightTuples.length) :
    joinNext left right st = leftAndRightNext left right
      { st with rightIndex := st.rightIndex + 1, roundDone := true } := by
  have hstep : rightNext st =
      (.error eof, { st with rightIndex := st.rightIndex + 1, roundDone := true }) := by
    rw [rightNext, JoinState.newRound, if_neg (by simp [hround]), JoinState.rightStep,
      if_pos hindex]
  rw [joinNext, if_neg (by simp [hround]), hstep]

/-- The rest of a round, and what comes after it. -/
theorem drain_round {tuple : Tuple F O} {rest : List (Tuple F O)} {index : Nat}
    (htuple : st.leftTuple = some tuple) (hround : st.roundDone = false)
    (hrest : st.rightTuples.drop index = rest) (hle : index ≤ st.rightTuples.length)
    (hindex : st.rightIndex + 1 = index) :
    ∃ st', st'.left = st.left ∧ st'.rightTuples = st.rightTuples ∧ st'.roundDone = true ∧
      ((nestedLoopJoin left right).drain st).1 =
        (rest.map (.joined tuple) ++ ((nestedLoopJoin left right).drain st').1.1,
          ((nestedLoopJoin left right).drain st').1.2) := by
  induction rest generalizing st index with
  | nil =>
    have hlength : index = st.rightTuples.length :=
      Nat.le_antisymm hle (List.drop_eq_nil_iff.mp hrest)
    let st' : JoinState F O left.State right.State :=
      { st with rightIndex := st.rightIndex + 1, roundDone := true }
    have hnext : joinNext left right st = joinNext left right st' := by
      rw [joinNext_of_length hround (hlength ▸ hindex), joinNext_of_roundDone rfl]
    exact ⟨st', rfl, rfl, rfl, congrArg Prod.fst
      (drain_congr (c := nestedLoopJoin left right) hnext)⟩
  | cons tuple' rest ih =>
    have hright : st.rightTuples[index]? = some tuple' := by
      rw [← List.head?_drop, hrest]
      rfl
    have hnext : joinNext left right st = _ :=
      joinNext_of_getElem htuple hround hindex hright
    obtain ⟨st', hl, hr, hdone, hdrain⟩ :=
      @ih { st with rightIndex := st.rightIndex + 1 } (index + 1) htuple hround
        (by rw [← List.tail_drop, hrest]; rfl) (List.getElem?_eq_some_iff.mp hright).1
        (by rw [hindex]; rfl)
    refine ⟨st', hl, hr, hdone, ?_⟩
    rw [drain_of_ok (c := nestedLoopJoin left right) hnext, hdrain]
    rfl

theorem drain_join {state : left.State} (hstate : st.left = state) (hround : st.roundDone = true) :
    ((nestedLoopJoin left right).drain st).1 = joinTuples (left.drain state).1 st.rightTuples := by
  induction state using drain.induct left generalizing st with
  | case1 state e state₁ hleft =>
    have hnext : joinNext left right st = (.error e, { st with left := state₁ }) := by
      rw [joinNext_of_roundDone hround, leftAndRightNext, hstate, hleft]
    rw [drain_of_error (c := nestedLoopJoin left right) hnext, drain_of_error hleft]
    simp [joinTuples, pairs]
  | case2 state tuple state₁ hleft ih =>
    -- The round of the left tuple that comes now.
    let st₂ : JoinState F O left.State right.State :=
      { st with left := state₁, leftTuple := some tuple, rightIndex := -1, roundDone := false }
    have hnext : joinNext left right st = st₂.rightStep := by
      rw [joinNext_of_roundDone hround, leftAndRightNext, hstate, hleft]
      exact congrArg JoinState.rightStep (if_pos hround)
    rw [drain_of_ok hleft]
    cases hright : st.rightTuples with
    | nil =>
      have heof : joinNext left right st =
          (.error eof, { st₂ with rightIndex := 0, roundDone := true }) := by
        rw [hnext, JoinState.rightStep, if_pos]
        · rfl
        · exact congrArg (fun tuples => (tuples.length : Int)) hright.symm
      rw [drain_of_error (c := nestedLoopJoin left right) heof]
      simp [joinTuples, pairs]
    | cons tuple' rest =>
      have hzero : st₂.rightTuples[0]? = some tuple' := congrArg (·[0]?) hright
      have hround' : (nestedLoopJoin left right).next st = (nestedLoopJoin left right).next st₂ :=
        (hnext.trans (rightStep_of_getElem rfl rfl hzero)).trans
          (joinNext_of_getElem rfl rfl rfl hzero).symm
      obtain ⟨st', hl, hr, hdone, hdrain⟩ :=
        @drain_round _ _ left right st₂ tuple _ 0 rfl rfl hright (Nat.zero_le _) rfl
      rw [drain_congr hround', hdrain, ih hl hdone, hr, show st₂.rightTuples = _ from hright]
      simp [joinTuples, pairs]

theorem yieldOf_nestedLoopJoin :
    yieldOf (nestedLoopJoin left right) = (yieldOf left).join (yieldOf right) := by
  have hunopened : ((nestedLoopJoin left right).drain (nestedLoopJoin left right).init).1 =
      joinTuples (left.drain left.init).1 [] :=
    drain_join rfl rfl
  -- After `open`, and also when it fails, the join is between two rounds.
  have hopened : ∀ last, ((right.drain (right.openOp right.init).2).1.2 = last) →
      (nestedLoopJoin left right).openOp (nestedLoopJoin left right).init =
        joinOpenLeft left right last ⟨left.init, (right.drain (right.openOp right.init).2).2, none,
          (right.drain (right.openOp right.init).2).1.1, -1, true⟩ := by
    intro last hlast
    rw [← hlast]
    rfl
  have hyield : ∀ (result : Except Fault Unit) (st : JoinState F O left.State right.State),
      (nestedLoopJoin left right).openOp (nestedLoopJoin left right).init = (result, st) →
      st.roundDone = true → yieldOf (nestedLoopJoin left right) =
        ⟨joinTuples (left.drain left.init).1 [], result,
          joinTuples (left.drain st.left).1 st.rightTuples⟩ := by
    intro result st hopen hround
    ext1
    · exact hunopened
    · exact congrArg Prod.fst hopen
    · exact (congrArg (fun opened => ((nestedLoopJoin left right).drain opened.2).1) hopen).trans
        (drain_join rfl hround)
  unfold Yield.join
  split
  next hlast => exact hyield _ _ (hopened _ hlast) rfl
  next code hcode hlast => exact hyield _ _ ((hopened _ hlast).trans (joinOpenLeft_rc hcode)) rfl
  next hother => exact hyield _ _ ((hopened _ rfl).trans (joinOpenLeft_other hother)) rfl

end

/-! ## Predicates -/

section

variable [Floats F] [StrLike F] [OtherExpr F O]

/-- The tuples that a predicate lets through. -/
def predicateTuples (expr : Expression F O) (tuples : Tuples F O) : Tuples F O :=
  findList (predicateStep expr) tuples.1 tuples.2

def Yield.predicate (expr : Expression F O) (y : Yield F O) : Yield F O where
  unopened := predicateTuples expr y.unopened
  opened := y.opened
  drained := predicateTuples expr y.drained

theorem yieldOf_predicate (expr : Expression F O) (child : PhysicalOperator F O) :
    yieldOf (predicate expr child) = (yieldOf child).predicate expr := by
  ext1
  · exact drain_of_find (c := child) (d := predicate expr child) id (fun _ => rfl) child.init
  · rfl
  · exact drain_of_find (c := child) (d := predicate expr child) id (fun _ => rfl) (child.openOp child.init).2

end

/-! ## Projections -/

section

variable [OtherExpr F O]

/-- The tuples of a projection. -/
def projectTuples (expressions : List (NamedExpr F O)) (tuples : Tuples F O) : Tuples F O :=
  if expressions.all fun named => named.expr.pureValue then ([.expression expressions none], eof)
  else (tuples.1.map fun tuple => .expression expressions (some tuple), tuples.2)

def Yield.project (expressions : List (NamedExpr F O)) (y : Yield F O) : Yield F O where
  unopened := projectTuples expressions y.unopened
  opened := y.opened
  drained := projectTuples expressions y.drained

theorem drain_project (expressions : List (NamedExpr F O)) {child : PhysicalOperator F O}
    (state : child.State) :
    ((project expressions child).drain ⟨state, false⟩).1 =
      projectTuples expressions (child.drain state).1 := by
  unfold projectTuples
  split
  next hconstant =>
    have hlast : projectNext expressions child ⟨state, true⟩ = (.error eof, ⟨state, true⟩) := by
      rw [projectNext, if_pos hconstant]
      rfl
    have hfirst : projectNext expressions child ⟨state, false⟩ =
        (.ok (.expression expressions none), ⟨state, true⟩) := by
      rw [projectNext, if_pos hconstant]
      rfl
    rw [drain_of_ok (c := project expressions child) hfirst,
      drain_of_error (c := project expressions child) hlast]
  next hconstant =>
    induction state using drain.induct child with
    | case1 state e state₁ hchild =>
      have hnext : projectNext expressions child ⟨state, false⟩ = (.error e, ⟨state₁, false⟩) := by
        rw [projectNext, if_neg hconstant, hchild]
        rfl
      rw [drain_of_error (c := project expressions child) hnext, drain_of_error hchild]
      rfl
    | case2 state tuple state₁ hchild ih =>
      have hnext : projectNext expressions child ⟨state, false⟩ =
          (.ok (.expression expressions (some tuple)), ⟨state₁, false⟩) := by
        rw [projectNext, if_neg hconstant, hchild]
        rfl
      rw [drain_of_ok (c := project expressions child) hnext, drain_of_ok hchild, ih]
      rfl

theorem yieldOf_project (expressions : List (NamedExpr F O)) (child : PhysicalOperator F O) :
    yieldOf (project expressions child) = (yieldOf child).project expressions := by
  ext1
  · exact drain_project expressions child.init
  · rfl
  · exact drain_project expressions (child.openOp child.init).2

end

/-! ## Scans -/

theorem yieldOf_absent : yieldOf (absent : PhysicalOperator F O) = ⟨([], eof), .ok (), ([], eof)⟩ := by
  have hdrain : ((absent : PhysicalOperator F O).drain ()).1 = ([], eof) :=
    congrArg Prod.fst (drain_of_error rfl)
  ext1
  · exact hdrain
  · rfl
  · exact hdrain

/-- The rows of a scanner up to its first failure, or `RECORD_EOF`. -/
def rowsOf : List (Except Fault (Row F)) → List (Row F) × Fault
  | [] => ([], eof)
  | .error fault :: _ => ([], fault)
  | .ok row :: records => (row :: (rowsOf records).1, (rowsOf records).2)

/-- The tuples that the scanner has for those who want them all. -/
def rowTuples (records : List (Except Fault (Row F))) : Tuples F O :=
  ((rowsOf records).1.map .row, (rowsOf records).2)

variable [Floats F] [StrLike F] [OtherExpr F O]

/-- A tuple, when all predicates are true. -/
def filterStep (predicates : List (Expression F O)) (tuple : Tuple F O) :
    Except Fault (Option (Tuple F O)) :=
  do .ok (if ← filter predicates tuple then some tuple else none)

/-- The tuples that pass all predicates. -/
def filterTuples (predicates : List (Expression F O)) (tuples : Tuples F O) : Tuples F O :=
  findList (filterStep predicates) tuples.1 tuples.2

omit [Floats F] [StrLike F] [OtherExpr F O] in
theorem iteratorAfter_ne (scanner : TableScanner F) (result : Except Fault (Tuple F O))
    (rest : Option (List (Except Fault (Row F)))) :
    scanner.iteratorAfter result rest ≠ .dangling := by
  unfold TableScanner.iteratorAfter
  split
  · nofun
  · split <;> nofun

theorem drain_tableScan {scanner : TableScanner F} {predicates : List (Expression F O)}
    (rest : List (Except Fault (Row F))) {iterator : PageIterator} (hiterator : iterator ≠ .dangling) :
    ((tableScan scanner predicates).drain ⟨some rest, iterator⟩).1 =
      filterTuples predicates (rowTuples rest) := by
  have hnext (rest : List (Except Fault (Row F))) {iterator : PageIterator}
      (hiterator : iterator ≠ .dangling) :
      (tableScan scanner predicates).next ⟨some rest, iterator⟩ =
        ((tableScanNext predicates rest).1, ⟨(tableScanNext predicates rest).2,
          scanner.iteratorAfter (tableScanNext predicates rest).1
            (tableScanNext predicates rest).2⟩) :=
    if_neg hiterator
  induction rest generalizing iterator with
  | nil =>
    rw [drain_of_error (hnext [] hiterator)]
    rfl
  | cons record rest ih =>
    cases record with
    | error fault =>
      rw [drain_of_error (hnext (.error fault :: rest) hiterator)]
      rfl
    | ok row =>
      have hstep := hnext (.ok row :: rest) hiterator
      cases hfilter : filter predicates (.row row) with
      | error fault =>
        have hfilterStep : filterStep predicates (.row row) = .error fault := by
          rw [filterStep, hfilter]
          rfl
        have hscan : tableScanNext predicates (.ok row :: rest) = (.error fault, some rest) := by
          rw [tableScanNext, hfilter]
        rw [hscan] at hstep
        rw [drain_of_error hstep]
        exact (findList_cons_error hfilterStep).symm
      | ok passes =>
        have hfilterStep : filterStep predicates (.row row) =
            .ok (if passes then some (.row row) else none) := by
          rw [filterStep, hfilter]
          rfl
        cases passes with
        | true =>
          have hscan : tableScanNext predicates (.ok row :: rest) = (.ok (.row row), some rest) := by
            rw [tableScanNext, hfilter]
          rw [hscan] at hstep
          rw [drain_of_ok hstep, ih (iteratorAfter_ne _ _ _)]
          exact (findList_cons_some hfilterStep).symm
        | false =>
          have hskip : tableScanNext predicates (.ok row :: rest) = tableScanNext predicates rest := by
            rw [tableScanNext, hfilter]
          rw [hskip, ← hnext rest hiterator] at hstep
          rw [drain_congr hstep, ih hiterator]
          exact (findList_cons_none hfilterStep).symm

/-- A scan: without an open scanner there is nothing to call. -/
def scanYield (opened : Except Fault Unit) (tuples : Tuples F O) : Yield F O where
  unopened := ([], .abort)
  opened := opened
  drained :=
    match opened with
    | .ok () => tuples
    | .error _ => ([], .abort)

theorem yieldOf_tableScan (scanner : TableScanner F) (predicates : List (Expression F O)) :
    yieldOf (tableScan scanner predicates) =
      scanYield scanner.opened (filterTuples predicates (rowTuples scanner.records)) := by
  have hnone : ((tableScan scanner predicates).drain ⟨none, .atEnd⟩).1 = ([], .abort) :=
    congrArg Prod.fst (drain_of_error rfl)
  obtain ⟨opened, records, slotLeft⟩ := scanner
  cases opened with
  | error fault =>
    ext1
    · exact hnone
    · rfl
    · exact hnone
  | ok _ =>
    ext1
    · exact hnone
    · rfl
    · exact drain_tableScan records nofun

end Sql

end ObHtap
