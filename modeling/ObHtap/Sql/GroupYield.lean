import ObHtap.Sql.Yield

/-!
# What limits, sorts and group-bys give
-/

namespace ObHtap

namespace Sql

open Cursor

variable {F O : Type} {child : PhysicalOperator F O}

/-! ## Limits -/

/-- The first `n` tuples. -/
def limitTuples (n : Int) (tuples : Tuples F O) : Tuples F O :=
  if n ≤ tuples.1.length then (tuples.1.take n.toNat, eof) else tuples

def Yield.limit (n : Int) (y : Yield F O) : Yield F O where
  unopened := limitTuples n y.unopened
  opened := y.opened
  drained := limitTuples n y.drained

theorem limitTuples_of_nonpos {n : Int} (hn : n ≤ 0) (tuples : Tuples F O) :
    limitTuples n tuples = ([], eof) := by
  rw [limitTuples, if_pos (hn.trans (Int.natCast_nonneg _)), Int.toNat_of_nonpos hn]
  rfl

theorem limitTuples_cons {n : Int} (hn : 0 < n) (tuple : Tuple F O) (tuples : List (Tuple F O))
    (last : Fault) :
    limitTuples n (tuple :: tuples, last) =
      (tuple :: (limitTuples (n - 1) (tuples, last)).1, (limitTuples (n - 1) (tuples, last)).2) := by
  have htoNat : n.toNat = (n - 1).toNat + 1 := by omega
  have hle : n ≤ (tuple :: tuples).length ↔ n - 1 ≤ tuples.length := by
    rw [List.length_cons]
    omega
  unfold limitTuples
  simp only [hle]
  split
  · rw [htoNat]
    rfl
  · rfl

theorem drain_limit {n : Int} (state : child.State) (count : Int) :
    ((limit n child).drain ⟨state, count⟩).1 = limitTuples (n - count) (child.drain state).1 := by
  induction state using drain.induct child generalizing count with
  | case1 state e state₁ hchild =>
    rw [drain_of_error hchild]
    by_cases hcount : count < n
    · have hnext : limitNext n child ⟨state, count⟩ = (.error e, ⟨state₁, count + 1⟩) := by
        rw [limitNext, if_pos hcount, hchild]
      rw [drain_of_error (c := limit n child) hnext, limitTuples, if_neg]
      exact Int.not_le.mpr (Int.sub_pos_of_lt hcount)
    · have hnext : limitNext n child ⟨state, count⟩ = (.error eof, ⟨state, count⟩) :=
        if_neg hcount
      rw [drain_of_error (c := limit n child) hnext, limitTuples_of_nonpos (by omega)]
  | case2 state tuple state₁ hchild ih =>
    by_cases hcount : count < n
    · have hnext : limitNext n child ⟨state, count⟩ = (.ok tuple, ⟨state₁, count + 1⟩) := by
        rw [limitNext, if_pos hcount, hchild]
      rw [drain_of_ok (c := limit n child) hnext, drain_of_ok hchild,
        limitTuples_cons (Int.sub_pos_of_lt hcount), ih, Int.sub_sub]
    · have hnext : limitNext n child ⟨state, count⟩ = (.error eof, ⟨state, count⟩) :=
        if_neg hcount
      rw [drain_of_error (c := limit n child) hnext, limitTuples_of_nonpos (by omega)]

theorem yieldOf_limit (n : Int) : yieldOf (limit n child) = (yieldOf child).limit n := by
  have hzero : n - 0 = n := Int.sub_zero n
  ext1
  · exact (drain_limit child.init 0).trans (by rw [hzero]; rfl)
  · rfl
  · exact (drain_limit (child.openOp child.init).2 0).trans (by rw [hzero]; rfl)

/-! ## Operators that read their child to the end when they are opened -/

/-- What such an operator gives is in a member: `tuples` of it are to come, and `open` makes it from
the tuples of the child. -/
def Yield.eager {σ : Type} (member : σ) (tuples : σ → Tuples F O)
    (opened : Tuples F O → Except Fault Unit × σ) (y : Yield F O) : Yield F O :=
  match y.opened with
  | .error fault => ⟨tuples member, .error fault, tuples member⟩
  | .ok () => ⟨tuples member, (opened y.drained).1, tuples (opened y.drained).2⟩

theorem yieldOf_eager {op : PhysicalOperator F O} {σ : Type} {member : σ} {tuples : σ → Tuples F O}
    {opened : Tuples F O → Except Fault Unit × σ} (toState : child.State → σ → op.State)
    (hinit : op.init = toState child.init member)
    (hdrain : ∀ state member, (op.drain (toState state member)).1 = tuples member)
    (herror : ∀ fault state, child.openOp child.init = (.error fault, state) →
      op.openOp op.init = (.error fault, toState state member))
    (hok : ∀ state, child.openOp child.init = (.ok (), state) →
      ∃ state', op.openOp op.init = ((opened (child.drain state).1).1,
        toState state' (opened (child.drain state).1).2)) :
    yieldOf op = (yieldOf child).eager member tuples opened := by
  have hunopened : (op.drain op.init).1 = tuples member := by
    rw [hinit, hdrain]
  cases hopen : child.openOp child.init with
  | mk result state =>
    have hopened : (yieldOf child).opened = result := congrArg Prod.fst hopen
    have hdrained : (yieldOf child).drained = (child.drain state).1 := by
      rw [yieldOf, hopen]
    rw [Yield.eager, hopened, hdrained]
    cases result with
    | error fault =>
      have hop := herror fault state hopen
      ext1
      · exact hunopened
      · exact congrArg Prod.fst hop
      · rw [yieldOf, hop]
        exact hdrain state member
    | ok _ =>
      obtain ⟨state', hop⟩ := hok state hopen
      ext1
      · exact hunopened
      · exact congrArg Prod.fst hop
      · rw [yieldOf, hop]
        exact hdrain state' _

/-! ## Groups -/

/-- The groups that are still to come. -/
def HashGroups.tuples (st : HashGroups F O) : Tuples F O :=
  match st.currentGroup with
  | none => ([], .abort)
  | some index =>
    ((st.groups.drop (if st.firstEmitted then index + 1 else index)).map
      fun group => .composite group.composite, eof)

theorem HashGroups.next_of_getElem {st : HashGroups F O} {index start : Nat} {group : Group F O}
    (hcurrent : st.currentGroup = some index)
    (hstart : (if st.firstEmitted then index + 1 else index) = start)
    (hgroup : st.groups[start]? = some group) :
    st.next = (.ok (.composite group.composite), ⟨st.groups, some start, true⟩) := by
  have hlt := (List.getElem?_eq_some_iff.mp hgroup).1
  have hindex : index ≠ st.groups.length := by
    split_ifs at hstart
    · omega
    · omega
  unfold HashGroups.next
  rw [hcurrent]
  dsimp only
  rw [if_neg hindex, hstart, hgroup]

theorem HashGroups.next_of_length_le {st : HashGroups F O} {index start : Nat}
    (hcurrent : st.currentGroup = some index)
    (hstart : (if st.firstEmitted then index + 1 else index) = start)
    (hle : st.groups.length ≤ start) : ∃ st', st.next = (.error eof, st') := by
  unfold HashGroups.next
  rw [hcurrent]
  dsimp only
  split
  · exact ⟨_, rfl⟩
  · rw [hstart, List.getElem?_eq_none hle]
    exact ⟨_, rfl⟩

/-- The tuple of the only group. -/
def scalarTuples : Option (Group F O) × Bool → Tuples F O
  | (some group, false) => ([.composite group.composite], eof)
  | _ => ([], eof)

variable [Floats F] [StrLike F] [OtherExpr F O]

section

variable {groupBy : List (NamedExpr F O)} {calls : List (AggregateCall F O)}

theorem drain_hashGroupBy (state : child.State) (groups : HashGroups F O) :
    ((hashGroupBy groupBy calls child).drain ⟨state, groups⟩).1 = groups.tuples := by
  have hnext : (hashGroupBy groupBy calls child).next ⟨state, groups⟩ =
      (groups.next.1, ⟨state, groups.next.2⟩) :=
    rfl
  cases hcurrent : groups.currentGroup with
  | none =>
    have habort : groups.next = (.error .abort, groups) := by
      unfold HashGroups.next
      rw [hcurrent]
    rw [habort] at hnext
    rw [drain_of_error hnext, HashGroups.tuples, hcurrent]
  | some index =>
    rw [HashGroups.tuples, hcurrent]
    dsimp only
    generalize hstart : (if groups.firstEmitted then index + 1 else index) = start
    -- The induction is on the groups that are to come.
    generalize hrest : groups.groups.drop start = rest
    induction rest generalizing groups index start with
    | nil =>
      obtain ⟨groups', heof⟩ :=
        HashGroups.next_of_length_le hcurrent hstart (List.drop_eq_nil_iff.mp hrest)
      rw [heof] at hnext
      rw [drain_of_error hnext]
      rfl
    | cons group rest ih =>
      have hgroup : groups.groups[start]? = some group := by
        rw [← List.head?_drop, hrest]
        rfl
      rw [HashGroups.next_of_getElem hcurrent hstart hgroup] at hnext
      rw [drain_of_ok hnext, ih ⟨groups.groups, some start, true⟩ rfl start rfl (start + 1) rfl]
      · rfl
      · rw [← List.tail_drop, hrest]
        rfl

theorem drain_scalarGroupBy (state : child.State) (member : Option (Group F O) × Bool) :
    ((scalarGroupBy calls child).drain ⟨state, member.1, member.2⟩).1 = scalarTuples member := by
  obtain ⟨groupValue, emitted⟩ := member
  cases groupValue with
  | none => exact congrArg Prod.fst (drain_of_error (c := scalarGroupBy calls child) rfl)
  | some group =>
    have hend : (scalarGroupBy calls child).next ⟨state, some group, true⟩ =
        (.error eof, ⟨state, some group, true⟩) :=
      rfl
    have hlast := drain_of_error hend
    cases emitted with
    | true => exact congrArg Prod.fst hlast
    | false =>
      have hfirst : (scalarGroupBy calls child).next ⟨state, some group, false⟩ =
          (.ok (.composite group.composite), ⟨state, some group, true⟩) :=
        rfl
      rw [drain_of_ok hfirst, hlast]
      rfl

end

/-- `open` on the tuples of the child: its return code and the groups. -/
def hashGroups (groupBy : List (NamedExpr F O)) (calls : List (AggregateCall F O))
    (tuples : Tuples F O) : Except Fault Unit × HashGroups F O :=
  let (ended, groups) :=
    forEachList (HashGroups.step groupBy calls) tuples.1 tuples.2 ⟨[], some 0, false⟩
  groups.finish calls ended

def Yield.hashGroupBy (groupBy : List (NamedExpr F O)) (calls : List (AggregateCall F O))
    (y : Yield F O) : Yield F O :=
  y.eager ⟨[], some 0, false⟩ HashGroups.tuples (hashGroups groupBy calls)

theorem yieldOf_hashGroupBy (groupBy : List (NamedExpr F O)) (calls : List (AggregateCall F O)) :
    yieldOf (Sql.hashGroupBy groupBy calls child) = (yieldOf child).hashGroupBy groupBy calls := by
  apply yieldOf_eager (fun state groups => (⟨state, groups⟩ : HashGroupByState F O child.State)) rfl
    drain_hashGroupBy
  · intro fault state hopen
    change hashGroupByOpen groupBy calls child ⟨child.init, _⟩ = _
    unfold hashGroupByOpen
    rw [hopen]
    rfl
  · intro state hopen
    have hended := forEach_eq_forEachList (c := child) (HashGroups.step groupBy calls) state
      ⟨[], some 0, false⟩
    refine ⟨(child.forEach (HashGroups.step groupBy calls) state ⟨[], some 0, false⟩).2.2, ?_⟩
    change hashGroupByOpen groupBy calls child ⟨child.init, _⟩ = _
    unfold hashGroupByOpen hashGroups
    rw [hopen, ← hended]
    rfl

/-- `open` on the tuples of the child: its return code, the group and whether it has been
emitted. -/
def scalarGroup (calls : List (AggregateCall F O)) (tuples : Tuples F O) :
    Except Fault Unit × Option (Group F O) × Bool :=
  let (ended, groupValue) := forEachList (scalarGroupStep calls) tuples.1 tuples.2 none
  scalarGroupFinish calls groupValue false ended

def Yield.scalarGroupBy (calls : List (AggregateCall F O)) (y : Yield F O) : Yield F O :=
  y.eager (none, false) scalarTuples (scalarGroup calls)

theorem yieldOf_scalarGroupBy (calls : List (AggregateCall F O)) :
    yieldOf (Sql.scalarGroupBy calls child) = (yieldOf child).scalarGroupBy calls := by
  apply yieldOf_eager (fun state member =>
    (⟨state, member.1, member.2⟩ : ScalarGroupByState F O child.State)) rfl drain_scalarGroupBy
  · intro fault state hopen
    change scalarGroupByOpen calls child ⟨child.init, none, false⟩ = _
    unfold scalarGroupByOpen
    rw [hopen]
    rfl
  · intro state hopen
    have hended := forEach_eq_forEachList (c := child) (scalarGroupStep calls) state none
    refine ⟨(child.forEach (scalarGroupStep calls) state none).2.2, ?_⟩
    change scalarGroupByOpen calls child ⟨child.init, none, false⟩ = _
    unfold scalarGroupByOpen scalarGroup
    rw [hopen, ← hended]
    rfl

/-! ## Sorts -/

variable [StdSort (Tuple F O)]

def Yield.sort (orderBy : List (Expression F O × OrderByType)) (y : Yield F O) : Yield F O :=
  y.eager [] (·, eof) fun tuples => sortTuples orderBy tuples.1 tuples.2

theorem drain_sort {orderBy : List (Expression F O × OrderByType)} (state : child.State)
    (tupleSet : List (Tuple F O)) :
    ((sort orderBy child).drain ⟨state, tupleSet⟩).1 = (tupleSet, eof) := by
  induction tupleSet with
  | nil =>
    have hnext : (sort orderBy child).next ⟨state, []⟩ = (.error eof, ⟨state, []⟩) := rfl
    rw [drain_of_error hnext]
  | cons tuple tupleSet ih =>
    have hnext : (sort orderBy child).next ⟨state, tuple :: tupleSet⟩ =
        (.ok tuple, ⟨state, tupleSet⟩) :=
      rfl
    rw [drain_of_ok hnext, ih]

theorem yieldOf_sort (orderBy : List (Expression F O × OrderByType)) :
    yieldOf (Sql.sort orderBy child) = (yieldOf child).sort orderBy := by
  apply yieldOf_eager (fun state tupleSet => (⟨state, tupleSet⟩ : SortState F O child.State)) rfl
    drain_sort
  · intro fault state hopen
    change sortOpen orderBy child ⟨child.init, []⟩ = _
    unfold sortOpen
    rw [hopen]
    rfl
  · intro state hopen
    refine ⟨(child.drain state).2, ?_⟩
    change sortOpen orderBy child ⟨child.init, []⟩ = _
    unfold sortOpen
    rw [hopen]
    rfl

end Sql

end ObHtap
