import ObHtap.Sql.TupleSource

/-!
# Joins by their pointers

`NestedLoopJoinPhysicalOperator` with the pointers that it collects from its children, and what
they read as when the join has come to its end.
-/

namespace ObHtap

namespace Sql

variable {F O : Type}

/-- `NestedLoopJoinPhysicalOperator`: the right pointers are kept from `open` on, and the joined
tuple has the last left and right one. -/
structure JoinPointers (left right : TupleSource F O) where
  leftState : left.State
  rightState : right.State
  leftTuple : Option left.Pointer
  rightTuple : Option right.Pointer
  rightTuples : List right.Pointer
  rightIndex : Int
  roundDone : Bool

namespace JoinPointers

variable {left right : TupleSource F O}

/-- `left_next`. -/
def leftNext (st : JoinPointers left right) : Except Fault Unit × JoinPointers left right :=
  match left.next st.leftState with
  | (.error fault, state) => (.error fault, { st with leftState := state })
  | (.ok (), state) =>
    (.ok (),
      { st with
        leftState := (left.currentTuple state).2, leftTuple := some (left.currentTuple state).1 })

/-- Once a round is over, the next begins before the first right tuple. -/
def newRound (st : JoinPointers left right) : JoinPointers left right :=
  if st.roundDone then { st with rightIndex := -1, roundDone := false } else st

/-- The next right tuple of a round. -/
def rightStep (st : JoinPointers left right) : Except Fault Unit × JoinPointers left right :=
  if st.rightIndex + 1 = st.rightTuples.length then
    (.error eof, { st with rightIndex := st.rightIndex + 1, roundDone := true })
  else match st.rightTuples[(st.rightIndex + 1).toNat]? with
    | some p => (.ok (), { st with rightIndex := st.rightIndex + 1, rightTuple := some p })
    | none => (.error .abort, st)

/-- `right_next`. -/
def rightNext (st : JoinPointers left right) : Except Fault Unit × JoinPointers left right :=
  st.newRound.rightStep

/-- The step of `next` to the next left tuple and the first right one. -/
def leftAndRightNext (st : JoinPointers left right) :
    Except Fault Unit × JoinPointers left right :=
  match st.leftNext with
  | (.error fault, st) => (.error fault, st)
  | (.ok (), st) => st.rightNext

/-- `next`. -/
def next (st : JoinPointers left right) : Except Fault Unit × JoinPointers left right :=
  if st.roundDone then st.leftAndRightNext
  else match st.rightNext with
    | (.error (.rc .recordEof), st) => st.leftAndRightNext
    | result => result

/-- The end of `open`, when the right child has ended with an error. -/
def openLeft (last : Fault) (st : JoinPointers left right) :
    Except Fault Unit × JoinPointers left right :=
  match last with
  | .rc .recordEof =>
    ((left.openOp st.leftState).1, { st with leftState := (left.openOp st.leftState).2 })
  | .rc _ => (.error (.rc .error), st)
  | fault => (.error fault, st)

/-- `open`, which collects the right pointers. -/
def openOp (st : JoinPointers left right) : Except Fault Unit × JoinPointers left right :=
  let drained := right.pointers.drain (right.openOp st.rightState).2
  openLeft drained.1.2
    { st with
      rightState := drained.2, rightTuples := st.rightTuples ++ drained.1.1, roundDone := true }

/-- `close`. -/
def close (st : JoinPointers left right) : JoinPointers left right :=
  { st with
    leftState := left.close st.leftState, rightState := right.close st.rightState,
    leftTuple := none, rightTuple := none, rightTuples := [], rightIndex := -1 }

/-- What a joined tuple reads as. -/
def read (st : JoinPointers left right) :
    Option left.Pointer × Option right.Pointer → Option (Tuple F O)
  | (p, q) => do
    let leftTuple ← left.read st.leftState (← p)
    let rightTuple ← right.read st.rightState (← q)
    some (.joined leftTuple rightTuple)

/-- The right tuples still to come with the current left one. -/
def toCome (st : JoinPointers left right) : Nat :=
  if st.roundDone then 0 else (st.rightTuples.length - (st.rightIndex + 1)).toNat

/-- A bound for the pairs to come. -/
def remaining (st : JoinPointers left right) : Nat :=
  left.remaining st.leftState * st.rightTuples.length + st.toCome

/-- The children are in valid states, and all pointers read.  Between two right tuples there is a
left one. -/
structure Valid (st : JoinPointers left right) : Prop where
  leftValid : left.Valid st.leftState
  rightValid : right.Valid st.rightState
  leftTuple : ∀ p ∈ st.leftTuple, (left.read st.leftState p).isSome
  rightTuple : ∀ p ∈ st.rightTuple, (right.read st.rightState p).isSome
  rightTuples : ∀ p ∈ st.rightTuples, (right.read st.rightState p).isSome
  inRound : st.roundDone = false → st.rightTuples ≠ [] → st.leftTuple.isSome

variable {st st' : JoinPointers left right}

/-! ## One step -/

theorem newRound_frame (st : JoinPointers left right) :
    st.newRound.leftState = st.leftState ∧ st.newRound.rightState = st.rightState ∧
      st.newRound.leftTuple = st.leftTuple ∧ st.newRound.rightTuples = st.rightTuples ∧
      st.newRound.rightTuple = st.rightTuple := by
  unfold newRound
  split_ifs <;> exact ⟨rfl, rfl, rfl, rfl, rfl⟩

/-- What `right_next` does to the members. -/
theorem rightNext_frame (st : JoinPointers left right) :
    st.rightNext.2.leftState = st.leftState ∧ st.rightNext.2.rightState = st.rightState ∧
      st.rightNext.2.leftTuple = st.leftTuple ∧ st.rightNext.2.rightTuples = st.rightTuples ∧
      (∀ p ∈ st.rightNext.2.rightTuple, p ∈ st.rightTuple ∨ p ∈ st.rightTuples) := by
  obtain ⟨hl, hr, hlt, hrts, hrt⟩ := newRound_frame st
  unfold rightNext rightStep
  split
  · exact ⟨hl, hr, hlt, hrts, fun p hp => Or.inl (hrt ▸ hp)⟩
  · split
    next p hp =>
      refine ⟨hl, hr, hlt, hrts, fun p' hp' => Or.inr ?_⟩
      cases hp'
      rw [hrts] at hp
      exact List.mem_of_getElem? hp
    · exact ⟨hl, hr, hlt, hrts, fun p hp => Or.inl (hrt ▸ hp)⟩

theorem rightNext_valid (h : st.Valid) (hleft : st.rightTuples ≠ [] → st.leftTuple.isSome) :
    st.rightNext.2.Valid := by
  obtain ⟨hl, hr, hlt, hrts, hrt⟩ := rightNext_frame st
  refine ⟨hl ▸ h.leftValid, hr ▸ h.rightValid, ?_, ?_, ?_, ?_⟩
  · rw [hl, hlt]
    exact h.leftTuple
  · rw [hr]
    exact fun p hp => (hrt p hp).elim (h.rightTuple p) (h.rightTuples p)
  · rw [hr, hrts]
    exact h.rightTuples
  · rw [hlt, hrts]
    exact fun _ => hleft

theorem leftNext_kept (h : st.Valid) :
    st.leftNext.2.Valid ∧ (st.leftNext.1 = .ok () → st.leftNext.2.leftTuple.isSome) ∧
      left.Keeps st.leftState st.leftNext.2.leftState ∧
      st.leftNext.2.rightState = st.rightState := by
  have hkeeps := TupleSource.Keeps.next h.leftValid
  unfold leftNext
  rcases TupleSource.next_cases h.leftValid with
    ⟨fault, state, hnext⟩ | ⟨state, tuple, hnext, htuple, hv⟩
  · rw [hnext] at hkeeps ⊢
    exact ⟨⟨hkeeps.valid, h.rightValid, fun p hp => hkeeps.isSome (h.leftTuple p hp),
      h.rightTuple, h.rightTuples, h.inRound⟩, nofun, hkeeps, rfl⟩
  · rw [hnext] at hkeeps ⊢
    refine ⟨⟨hv, h.rightValid, fun p hp => ?_, h.rightTuple, h.rightTuples, fun _ _ => rfl⟩,
      fun _ => rfl, hkeeps.trans (.currentTuple hkeeps.valid), rfl⟩
    cases hp
    rw [left.currentTuple_reads, htuple]
    rfl

/-- What `leftAndRightNext` and `next` keep. -/
def Kept (st : JoinPointers left right) (result : Except Fault Unit × JoinPointers left right) :
    Prop :=
  result.2.Valid ∧ (result.1 = .ok () → result.2.leftTuple.isSome ∧ result.2.rightTuple.isSome) ∧
    left.Keeps st.leftState result.2.leftState ∧ result.2.rightState = st.rightState

theorem rightNext_ok (h : st.rightNext.1 = .ok ()) :
    st.rightTuples ≠ [] ∧ st.rightNext.2.rightTuple.isSome := by
  obtain ⟨-, -, -, hrts, -⟩ := newRound_frame st
  unfold rightNext rightStep at h ⊢
  split_ifs at h ⊢
  split at h
  next p hp =>
    refine ⟨?_, rfl⟩
    rw [← hrts]
    exact List.ne_nil_of_mem (List.mem_of_getElem? hp)
  · cases h

theorem leftAndRightNext_kept (h : st.Valid) : Kept st st.leftAndRightNext := by
  obtain ⟨hvalid, hsome, hkeeps, hright⟩ := leftNext_kept h
  unfold leftAndRightNext
  cases hnext : st.leftNext with
  | mk result st₁ =>
    rw [hnext] at hvalid hsome hkeeps hright
    cases result with
    | error fault => exact ⟨hvalid, nofun, hkeeps, hright⟩
    | ok =>
      obtain ⟨hl, hr, hlt, -, -⟩ := rightNext_frame st₁
      refine ⟨rightNext_valid hvalid fun _ => hsome rfl, fun hok => ⟨?_, (rightNext_ok hok).2⟩,
        ?_, hr.trans hright⟩
      · change st₁.rightNext.2.leftTuple.isSome = true
        rw [hlt]
        exact hsome rfl
      · change left.Keeps _ st₁.rightNext.2.leftState
        rw [hl]
        exact hkeeps

theorem next_kept (h : st.Valid) : Kept st st.next := by
  unfold next
  split_ifs with hround
  · exact leftAndRightNext_kept h
  · have hleft := h.inRound (by simpa using hround)
    have hvalid := rightNext_valid h hleft
    obtain ⟨hl, hr, hlt, -, -⟩ := rightNext_frame st
    split
    next st₁ heof =>
      rw [heof] at hvalid hl hr
      obtain ⟨hv, hok, hkeeps, hright⟩ := leftAndRightNext_kept hvalid
      rw [hl] at hkeeps
      exact ⟨hv, hok, hkeeps, hright.trans hr⟩
    · refine ⟨hvalid, fun hok => ?_, by rw [hl]; exact .refl h.leftValid, hr⟩
      obtain ⟨hne, hsome⟩ := rightNext_ok hok
      rw [hlt]
      exact ⟨hleft hne, hsome⟩

/-- What `open` keeps. -/
theorem openOp_kept (h : st.Valid) : st.openOp.2.Valid ∧
    left.Keeps st.leftState st.openOp.2.leftState ∧
    right.Keeps st.rightState st.openOp.2.rightState := by
  have hopened := TupleSource.Keeps.openOp h.rightValid
  obtain ⟨hdrained, ps, hps, hreads⟩ := TupleSource.read_drain hopened.valid
  have hright := hopened.trans hdrained
  have hcollected (p : right.Pointer) (hp : p ∈ ps) :
      (right.read (right.tuples.drain (right.openOp st.rightState).2).2 p).isSome := by
    have hmem := List.mem_map_of_mem (f :=
      right.read (right.tuples.drain (right.openOp st.rightState).2).2) hp
    rw [hreads] at hmem
    obtain ⟨tuple, -, hread⟩ := List.mem_map.mp hmem
    rw [← hread]
    rfl
  -- the state before the left child is opened
  let st₁ : JoinPointers left right :=
    { st with
      rightState := (right.tuples.drain (right.openOp st.rightState).2).2,
      rightTuples := st.rightTuples ++ ps, roundDone := true }
  have hvalid : st₁.Valid := by
    refine ⟨h.leftValid, hright.valid, h.leftTuple,
      fun p hp => hright.isSome (h.rightTuple p hp), ?_, nofun⟩
    intro p hp
    rcases List.mem_append.mp hp with hold | hnew
    · exact hright.isSome (h.rightTuples p hold)
    · exact hcollected p hnew
  have heq : st.openOp =
      openLeft (right.tuples.drain (right.openOp st.rightState).2).1.2 st₁ := by
    unfold openOp
    rw [hps]
  rw [heq]
  unfold openLeft
  split
  · have hleft := TupleSource.Keeps.openOp h.leftValid
    exact ⟨⟨hleft.valid, hvalid.rightValid, fun p hp => hleft.isSome (h.leftTuple p hp),
      hvalid.rightTuple, hvalid.rightTuples, nofun⟩, hleft, hright⟩
  · exact ⟨hvalid, .refl h.leftValid, hright⟩
  · exact ⟨hvalid, .refl h.leftValid, hright⟩

theorem close_valid (h : st.Valid) : st.close.Valid :=
  ⟨left.valid_close h.leftValid, right.valid_close h.rightValid, nofun, nofun, nofun,
    fun _ hne => absurd rfl hne⟩

/-! ## The pairs to come -/

theorem rightStep_toCome (hdone : st.roundDone = false) (h : st.rightStep = (.ok (), st')) :
    st'.toCome < st.toCome := by
  unfold rightStep at h
  split at h
  · cases h
  · split at h
    next p hp =>
      cases h
      have hlt := (List.getElem?_eq_some_iff.mp hp).1
      simp only [toCome, hdone, Bool.false_eq_true, if_false]
      omega
    · cases h

theorem rightNext_toCome (h : st.rightNext = (.ok (), st')) :
    st'.toCome < if st.roundDone then st.rightTuples.length else st.toCome := by
  rw [rightNext, newRound] at h
  split_ifs at h ⊢ with hdone
  · have hstep := rightStep_toCome rfl h
    simpa [toCome] using hstep
  · exact rightStep_toCome (by simpa using hdone) h

theorem leftAndRightNext_remaining (hdone : st.roundDone = true)
    (h : st.leftAndRightNext = (.ok (), st')) :
    st'.remaining < left.remaining st.leftState * st.rightTuples.length := by
  unfold leftAndRightNext leftNext at h
  cases hnext : left.next st.leftState with
  | mk result state =>
    rw [hnext] at h
    cases result with
    | error fault => cases h
    | ok =>
      have hlt := left.remaining_lt hnext
      have hframe := rightNext_frame { st with
        leftState := (left.currentTuple state).2, leftTuple := some (left.currentTuple state).1 }
      have hcome := rightNext_toCome h
      dsimp only at h
      rw [h] at hframe
      obtain ⟨hl, -, -, hrts, -⟩ := hframe
      rw [if_pos hdone] at hcome
      unfold remaining
      rw [hl, hrts, left.remaining_currentTuple]
      calc
        _ < left.remaining state * st.rightTuples.length + st.rightTuples.length :=
          Nat.add_lt_add_left hcome _
        _ = (left.remaining state + 1) * st.rightTuples.length := (Nat.succ_mul _ _).symm
        _ ≤ left.remaining st.leftState * st.rightTuples.length := Nat.mul_le_mul_right _ hlt

theorem rightNext_eof (h : st.rightNext = (.error eof, st')) : st'.roundDone = true := by
  unfold rightNext rightStep at h
  split_ifs at h
  · cases h
    rfl
  · split at h <;> cases h

theorem next_remaining (h : st.next = (.ok (), st')) : st'.remaining < st.remaining := by
  unfold next at h
  split_ifs at h with hdone
  · exact (leftAndRightNext_remaining hdone h).trans_le (Nat.le_add_right _ _)
  · obtain ⟨hl, -, -, hrts, -⟩ := rightNext_frame st
    split at h
    next st₁ heof =>
      rw [heof] at hl hrts
      have hlt := leftAndRightNext_remaining (rightNext_eof heof) h
      rw [hl, hrts] at hlt
      exact hlt.trans_le (Nat.le_add_right _ _)
    · have hcome := rightNext_toCome h
      rw [h] at hl hrts
      rw [if_neg hdone] at hcome
      unfold remaining
      rw [hl, hrts]
      exact Nat.add_lt_add_left hcome _

end JoinPointers

theorem isSome_read_joined {left right : TupleSource F O} {st : JoinPointers left right}
    {p : Option left.Pointer} {q : Option right.Pointer} {tuple : Tuple F O}
    (h : st.read (p, q) = some tuple) :
    ∃ p' q' t u, p = some p' ∧ q = some q' ∧ left.read st.leftState p' = some t ∧
      right.read st.rightState q' = some u ∧ tuple = .joined t u := by
  obtain ⟨p', hleft, h⟩ := Option.bind_eq_some_iff.mp h
  obtain ⟨t, hp, h⟩ := Option.bind_eq_some_iff.mp h
  obtain ⟨q', hright, h⟩ := Option.bind_eq_some_iff.mp h
  obtain ⟨u, hq, h⟩ := Option.bind_eq_some_iff.mp h
  exact ⟨p', q', t, u, hleft, hright, hp, hq, (Option.some.inj h).symm⟩

theorem read_joined {left right : TupleSource F O} {st : JoinPointers left right}
    {p : left.Pointer} {q : right.Pointer} {t u : Tuple F O}
    (hp : left.read st.leftState p = some t) (hq : right.read st.rightState q = some u) :
    st.read (some p, some q) = some (.joined t u) := by
  simp [JoinPointers.read, hp, hq]

/-- `NestedLoopJoinPhysicalOperator`; `current_tuple` makes a copy of the pair of pointers. -/
def joinSource (left right : TupleSource F O) : TupleSource F O where
  State := JoinPointers left right
  Pointer := Option left.Pointer × Option right.Pointer
  init := ⟨left.init, right.init, none, none, [], -1, true⟩
  openOp := JoinPointers.openOp
  next := JoinPointers.next
  currentTuple st := ((st.leftTuple, st.rightTuple), st)
  close := JoinPointers.close
  read := JoinPointers.read
  current st := st.read (st.leftTuple, st.rightTuple)
  remaining := JoinPointers.remaining
  Valid := JoinPointers.Valid
  valid_init := ⟨left.valid_init, right.valid_init, nofun, nofun, nofun, nofun⟩
  valid_open h := (JoinPointers.openOp_kept h).1
  valid_next h := (JoinPointers.next_kept h).1
  valid_currentTuple h := h
  valid_close := JoinPointers.close_valid
  open_keeps := by
    rintro st ⟨p, q⟩ tuple hvalid h
    obtain ⟨p', q', t, u, rfl, rfl, hp, hq, rfl⟩ := isSome_read_joined h
    obtain ⟨-, hleft, hright⟩ := JoinPointers.openOp_kept hvalid
    exact read_joined (hleft.reads p' t hp) (hright.reads q' u hq)
  next_keeps := by
    rintro st ⟨p, q⟩ tuple hvalid h
    obtain ⟨p', q', t, u, rfl, rfl, hp, hq, rfl⟩ := isSome_read_joined h
    obtain ⟨-, -, hleft, hright⟩ := JoinPointers.next_kept hvalid
    exact read_joined (hleft.reads p' t hp) (by rw [hright]; exact hq)
  currentTuple_keeps h := h
  currentTuple_reads _ := rfl
  current_currentTuple _ := rfl
  current_next := by
    intro st st' hvalid h
    obtain ⟨hvalid', hok, -, -⟩ := JoinPointers.next_kept hvalid
    rw [h] at hvalid' hok
    obtain ⟨hleft, hright⟩ := hok rfl
    obtain ⟨p, hp⟩ := Option.isSome_iff_exists.mp hleft
    obtain ⟨q, hq⟩ := Option.isSome_iff_exists.mp hright
    obtain ⟨t, ht⟩ := Option.isSome_iff_exists.mp (hvalid'.leftTuple p hp)
    obtain ⟨u, hu⟩ := Option.isSome_iff_exists.mp (hvalid'.rightTuple q hq)
    exact ⟨_, by rw [hp, hq]; exact read_joined ht hu⟩
  remaining_lt := JoinPointers.next_remaining
  remaining_currentTuple _ := rfl

/-! ## The pairs of a join -/

namespace JoinPointers

variable {left right : TupleSource F O} {st : JoinPointers left right}

/-- The next right tuple in a round. -/
theorem rightStep_of_getElem {q : right.Pointer} {index : Nat}
    (hindex : st.rightIndex + 1 = index) (hq : st.rightTuples[index]? = some q) :
    st.rightStep = (.ok (), { st with rightIndex := st.rightIndex + 1, rightTuple := some q }) := by
  have hlt := (List.getElem?_eq_some_iff.mp hq).1
  rw [rightStep, if_neg, hindex, Int.toNat_natCast, hq]
  omega

theorem rightNext_of_inRound (hround : st.roundDone = false) : st.rightNext = st.rightStep :=
  congrArg rightStep (if_neg (by simp [hround]))

theorem next_of_getElem {q : right.Pointer} {index : Nat} (hround : st.roundDone = false)
    (hindex : st.rightIndex + 1 = index) (hq : st.rightTuples[index]? = some q) :
    st.next = (.ok (), { st with rightIndex := st.rightIndex + 1, rightTuple := some q }) := by
  rw [next, if_neg (by simp [hround]), rightNext_of_inRound hround, rightStep_of_getElem hindex hq]

/-- The end of a round. -/
theorem next_of_length (hround : st.roundDone = false)
    (hindex : st.rightIndex + 1 = st.rightTuples.length) :
    st.next = JoinPointers.next { st with rightIndex := st.rightIndex + 1, roundDone := true } := by
  have hstep : st.rightNext =
      (.error eof, { st with rightIndex := st.rightIndex + 1, roundDone := true }) := by
    rw [rightNext_of_inRound hround, rightStep, if_pos hindex]
  rw [next, if_neg (by simp [hround]), hstep]
  exact (if_pos rfl).symm

/-- The rest of a round, and what comes after it. -/
theorem drain_round {p : left.Pointer} {t : Tuple F O} {rest : List (Tuple F O)} {index : Nat}
    (htuple : st.leftTuple = some p) (ht : left.read st.leftState p = some t)
    (hround : st.roundDone = false)
    (hrest : (st.rightTuples.drop index).map (right.read st.rightState) = rest.map some)
    (hle : index ≤ st.rightTuples.length) (hindex : st.rightIndex + 1 = index) :
    ∃ st' : JoinPointers left right, st'.leftState = st.leftState ∧
      st'.rightState = st.rightState ∧ st'.rightTuples = st.rightTuples ∧ st'.roundDone = true ∧
      (joinSource left right).tuples.drain st =
        ((rest.map (.joined t) ++ ((joinSource left right).tuples.drain st').1.1,
          ((joinSource left right).tuples.drain st').1.2),
          ((joinSource left right).tuples.drain st').2) := by
  induction rest generalizing st index with
  | nil =>
    have hlength : index = st.rightTuples.length :=
      Nat.le_antisymm hle (List.drop_eq_nil_iff.mp (List.map_eq_nil_iff.mp hrest))
    refine ⟨{ st with rightIndex := st.rightIndex + 1, roundDone := true }, rfl, rfl, rfl, rfl, ?_⟩
    have hnext : (joinSource left right).tuples.next st = (joinSource left right).tuples.next
        { st with rightIndex := st.rightIndex + 1, roundDone := true } := by
      unfold TupleSource.tuples
      dsimp only [joinSource]
      rw [next_of_length hround (hlength ▸ hindex)]
    rw [Cursor.drain_congr hnext]
    rfl
  | cons u rest ih =>
    obtain ⟨q, qs, hdrop, hq, hqs⟩ := List.map_eq_cons_iff.mp hrest
    have hget : st.rightTuples[index]? = some q := by
      rw [← List.head?_drop, hdrop]
      rfl
    have hnext := @TupleSource.tuples_next_ok _ _ (joinSource left right) _ _ _
      (next_of_getElem hround hindex hget) (htuple ▸ read_joined ht hq)
    obtain ⟨st', hl, hr, hrts, hdone, hdrain⟩ :=
      @ih { st with rightIndex := st.rightIndex + 1, rightTuple := some q } (index + 1) htuple ht
        hround (by rw [← List.tail_drop, hdrop]; exact hqs)
        (List.getElem?_eq_some_iff.mp hget).1 (by rw [hindex]; rfl)
    refine ⟨st', hl, hr, hrts, hdone, ?_⟩
    rw [Cursor.drain_of_ok hnext, show (joinSource left right).tuples.drain
      ((joinSource left right).currentTuple _).2 = _ from hdrain]
    rfl

theorem next_of_roundDone (hround : st.roundDone = true) : st.next = st.leftAndRightNext :=
  if_pos hround

theorem leftAndRightNext_error {state : left.State} {fault : Fault}
    (hnext : left.next st.leftState = (.error fault, state)) :
    st.leftAndRightNext = (.error fault, { st with leftState := state }) := by
  unfold leftAndRightNext leftNext
  rw [hnext]

/-- The next left tuple begins a round. -/
theorem leftAndRightNext_ok {state : left.State} (hround : st.roundDone = true)
    (hnext : left.next st.leftState = (.ok (), state)) :
    st.leftAndRightNext = rightStep
      { st with
        leftState := (left.currentTuple state).2,
        leftTuple := some (left.currentTuple state).1, rightIndex := -1, roundDone := false } := by
  unfold leftAndRightNext leftNext
  rw [hnext]
  exact congrArg rightStep (if_pos hround)

/-- The tuples of a join between two rounds. -/
theorem drain_join {state : left.State} {rows : List (Tuple F O)} (hstate : st.leftState = state)
    (hvalid : left.Valid state) (hround : st.roundDone = true)
    (hrows : st.rightTuples.map (right.read st.rightState) = rows.map some) :
    ((joinSource left right).tuples.drain st).1 =
      joinTuples (left.tuples.drain state).1 rows := by
  induction state using Cursor.drain.induct left.tuples generalizing st with
  | case1 state fault state₁ hleft =>
    rcases TupleSource.next_cases hvalid with ⟨fault', state', hnext⟩ | ⟨state', t, hnext, ht, -⟩
    · cases (TupleSource.tuples_next_error hnext).symm.trans hleft
      have herror := @TupleSource.tuples_next_error _ _ (joinSource left right) _ _ _
        ((next_of_roundDone hround).trans (leftAndRightNext_error (hstate ▸ hnext)))
      rw [Cursor.drain_of_error herror, Cursor.drain_of_error hleft]
      simp [joinTuples, pairs]
    · cases (TupleSource.tuples_next_ok hnext ht).symm.trans hleft
  | case2 state t state₁ hleft ih =>
    rcases TupleSource.next_cases hvalid with ⟨fault', state', hnext⟩ | ⟨state', t', hnext, ht, hv⟩
    · cases (TupleSource.tuples_next_error hnext).symm.trans hleft
    · cases (TupleSource.tuples_next_ok hnext ht).symm.trans hleft
      -- the round of the left tuple that comes now
      let st₂ : JoinPointers left right :=
        { st with
          leftState := (left.currentTuple state').2,
          leftTuple := some (left.currentTuple state').1, rightIndex := -1, roundDone := false }
      have hstep : st.next = st₂.rightStep :=
        (next_of_roundDone hround).trans (leftAndRightNext_ok hround (hstate ▸ hnext))
      have hread : left.read st₂.leftState (left.currentTuple state').1 = some t :=
        (left.currentTuple_reads state').trans ht
      rw [Cursor.drain_of_ok hleft]
      cases rows with
      | nil =>
        have hnil : st.rightTuples = [] := List.map_eq_nil_iff.mp hrows
        have heof : st.next = (.error eof, { st₂ with rightIndex := 0, roundDone := true }) := by
          rw [hstep, rightStep, if_pos]
          · rfl
          · exact congrArg (fun tuples => (tuples.length : Int)) hnil.symm
        have herror := @TupleSource.tuples_next_error _ _ (joinSource left right) _ _ _ heof
        rw [Cursor.drain_of_error herror]
        simp [joinTuples, pairs]
      | cons u rows =>
        have hround' : (joinSource left right).tuples.next st =
            (joinSource left right).tuples.next st₂ := by
          have hnext₂ : st.next = st₂.next :=
            hstep.trans (by
              obtain ⟨q, qs, hqs, -, -⟩ := List.map_eq_cons_iff.mp hrows
              have hzero : st₂.rightTuples[0]? = some q := by
                change st.rightTuples[0]? = some q
                rw [hqs]
                rfl
              rw [rightStep_of_getElem rfl hzero, next_of_getElem rfl rfl hzero])
          unfold TupleSource.tuples
          dsimp only [joinSource]
          rw [hnext₂]
        obtain ⟨st', hl, hr, hrts, hdone, hdrain⟩ :=
          @drain_round _ _ left right st₂ _ t (u :: rows) 0 rfl hread rfl hrows (Nat.zero_le _) rfl
        have hrest := ih hl hv hdone (by rw [hr, hrts]; exact hrows)
        rw [Cursor.drain_congr hround', hdrain, hrest]
        simp [joinTuples, pairs]

/-- What `open` collects of a join that is closed or new. -/
theorem openOp_spec {rows : List (Tuple F O)} {rightState : right.State} (hvalid : st.Valid)
    (hclosed : st.rightTuples = [])
    (hright : right.tuples.drain (right.openOp st.rightState).2 = ((rows, eof), rightState)) :
    ∃ qs, qs.map (right.read rightState) = rows.map some ∧
      st.openOp = ((left.openOp st.leftState).1,
        { st with
          leftState := (left.openOp st.leftState).2, rightState := rightState, rightTuples := qs,
          roundDone := true }) := by
  obtain ⟨-, qs, hqs, hreads⟩ := TupleSource.read_drain (right.valid_open hvalid.rightValid)
  rw [hright] at hqs hreads
  refine ⟨qs, hreads, ?_⟩
  unfold openOp
  rw [hqs, hclosed]
  rfl

/-- A join whose children come to their ends gives each left row with each right row, in this order
and each once, and the tuples read as these rows to the end. -/
theorem joins_rows {leftRows rightRows : List (Tuple F O)} {leftState : left.State}
    {rightState : right.State} (hvalid : st.Valid) (hclosed : st.rightTuples = [])
    (hright : right.tuples.drain (right.openOp st.rightState).2 = ((rightRows, eof), rightState))
    (hopened : (left.openOp st.leftState).1 = .ok ())
    (hleft : left.tuples.drain (left.openOp st.leftState).2 = ((leftRows, eof), leftState)) :
    st.openOp.1 = .ok () ∧
    ∃ ps st', (joinSource left right).pointers.drain st.openOp.2 = ((ps, eof), st') ∧
      ps.map st'.read = (pairs leftRows rightRows).map some ∧
      (joinSource left right).tuples.drain st.openOp.2 =
        ((pairs leftRows rightRows, eof), st') := by
  obtain ⟨qs, hqs, hopen⟩ := openOp_spec hvalid hclosed hright
  have hvalid' := (openOp_kept hvalid).1
  obtain ⟨-, ps, hpointers, hreads⟩ :=
    @TupleSource.read_drain _ _ (joinSource left right) _ hvalid'
  have hround : st.openOp.2.roundDone = true := by rw [hopen]
  have hrows : st.openOp.2.rightTuples.map (right.read st.openOp.2.rightState) =
      rightRows.map some := by
    rw [hopen]
    exact hqs
  have hdrain := drain_join rfl hvalid'.leftValid hround hrows
  have hjoined : joinTuples (left.tuples.drain st.openOp.2.leftState).1 rightRows =
      (pairs leftRows rightRows, eof) := by
    rw [hopen, hleft]
    simp [joinTuples]
  rw [hjoined] at hdrain
  rw [hdrain] at hpointers hreads
  refine ⟨by rw [hopen, hopened], ps, _, hpointers, hreads, ?_⟩
  exact Prod.ext hdrain rfl

end JoinPointers

/-- A row of one column. -/
def rowOfId (id : Int32) : Row ℚ :=
  ⟨"t", "t", [("id", .ints id)]⟩

/-- A table scan of a page with two rows. -/
def twoRowScan : PhysicalOperator ℚ Empty :=
  tableScan ⟨.ok (), [.ok (rowOfId 1), .ok (rowOfId 2)], fun left => left = 1⟩ []

/-- An index scan of two rows. -/
def twoEntryScan : PhysicalOperator ℚ Empty :=
  indexScan (.ok ()) [(.ok (rowOfId 1), .ok ()), (.ok (rowOfId 2), .ok ())] []

theorem drain_twoEntryScan :
    (twoEntryScan.drain (twoEntryScan.openOp twoEntryScan.init).2).1 =
      ([.row (rowOfId 1), .row (rowOfId 2)], eof) := by
  have hfirst : twoEntryScan.next (twoEntryScan.openOp twoEntryScan.init).2 =
      (.ok (.row (rowOfId 1)), some [(.ok (rowOfId 2), .ok ())]) := rfl
  have hsecond : twoEntryScan.next (some [(.ok (rowOfId 2), .ok ())]) =
      (.ok (.row (rowOfId 2)), some []) := rfl
  have hend : twoEntryScan.next (some []) = (.error eof, some []) := rfl
  rw [Cursor.drain_of_ok hfirst, Cursor.drain_of_ok hsecond, Cursor.drain_of_error hend]

/-- Two rows of a table scan joined with those of an index scan. -/
theorem joins_rows_four :
    (joinSource (copyingScan twoRowScan) (copyingScan twoEntryScan)).Valid
        (joinSource (copyingScan twoRowScan) (copyingScan twoEntryScan)).init ∧
    ∃ rows : List (Tuple ℚ Empty), rows.length = 2 ∧ ∃ ps st',
      (joinSource (copyingScan twoRowScan) (copyingScan twoEntryScan)).pointers.drain
        ((joinSource (copyingScan twoRowScan) (copyingScan twoEntryScan)).openOp
          (joinSource (copyingScan twoRowScan) (copyingScan twoEntryScan)).init).2 =
            ((ps, eof), st') ∧
      ps.map ((joinSource (copyingScan twoRowScan) (copyingScan twoEntryScan)).read st') =
        (pairs rows rows).map some := by
  have hvalid := (joinSource (copyingScan twoRowScan) (copyingScan twoEntryScan)).valid_init
  obtain ⟨st, htable⟩ :=
    drain_copyingScan ((copyingScan twoRowScan).openOp (copyingScan twoRowScan).init).2
  obtain ⟨st', hindex⟩ :=
    drain_copyingScan ((copyingScan twoEntryScan).openOp (copyingScan twoEntryScan).init).2
  have hrows : (twoRowScan.drain (twoRowScan.openOp twoRowScan.init).2).1 =
      ([.row (rowOfId 1), .row (rowOfId 2)], eof) :=
    drain_tableScan [.ok (rowOfId 1), .ok (rowOfId 2)] nofun
  obtain ⟨-, ps, st'', hpointers, hreads, -⟩ := JoinPointers.joins_rows hvalid rfl
    (hindex.trans (congrArg (Prod.mk · st') drain_twoEntryScan)) rfl
    (htable.trans (congrArg (Prod.mk · st) hrows))
  exact ⟨hvalid, _, rfl, ps, st'', hpointers, hreads⟩

end Sql

end ObHtap
