import ObHtap.Record.RecordPage
import ObHtap.Library.Replay

/-!
# The log of a record page and its replay

`RecordLogReplayer` performs the logged operations again on a page that is behind them.  From
the image of any point of a run the replay ends with the page of the end of the run.
-/

namespace ObHtap

open RowRecordPageHandler

/-- A page with the LSN that its frame carries. -/
structure RecordFrame where
  page : RecordPage
  lsn : LSN

structure RecordLogEntry where
  lsn : LSN
  log : RecordLog

namespace RecordLogReplayer

/-- `replay_init_page`, `replay_insert`, `replay_delete` and `replay_update`: the operation is
performed with a log handler that logs nothing.  An insertion takes the first free slot. -/
def redo : RecordLog → RecordPage → Except Fault (RecordPage × RecordLog)
  | .initPage recordSize => initEmptyPage recordSize
  | .insert _ data => insertRecord data
  | .delete slotNum => deleteRecord slotNum
  | .update slotNum data => updateRecord slotNum data

/-- `replay`. -/
def replay (entry : RecordLogEntry) (frame : RecordFrame) : Except Fault RecordFrame :=
  if entry.lsn ≤ frame.lsn then .ok frame
  else
    match redo entry.log frame.page with
    | .ok (page, _) => .ok ⟨page, entry.lsn⟩
    | .error e => .error e

end RecordLogReplayer

/-! ## Runs -/

inductive RecordOperation where
  | initEmptyPage (recordSize : Nat)
  | insertRecord (record : List UInt8)
  | deleteRecord (slotNum : Nat)
  | updateRecord (slotNum : Nat) (record : List UInt8)

def RecordOperation.perform : RecordOperation → RecordPage → Except Fault (RecordPage × RecordLog)
  | initEmptyPage recordSize => RowRecordPageHandler.initEmptyPage recordSize
  | insertRecord record => RowRecordPageHandler.insertRecord record
  | deleteRecord slotNum => RowRecordPageHandler.deleteRecord slotNum
  | updateRecord slotNum record => RowRecordPageHandler.updateRecord slotNum record

/-- An operation with the LSN that the log handler would give it. -/
structure RecordCall where
  operation : RecordOperation
  lsn : LSN

/-- The frame of the page, and what the calls have logged. -/
structure RecordState where
  frame : RecordFrame
  log : List RecordLogEntry

namespace RecordState

/-- One call.  A call that fails with a return code has changed and logged nothing; nothing is
left when the process has ended. -/
def call (s : RecordState) (c : RecordCall) : Option RecordState :=
  match c.operation.perform s.frame.page with
  | .ok (page, log) => some ⟨⟨page, c.lsn⟩, s.log ++ [⟨c.lsn, log⟩]⟩
  | .error (.rc _) => some s
  | .error _ => none

end RecordState

/-- A step of a run: a call with an LSN of its own. -/
def RecordStep (s s' : RecordState) : Prop :=
  ∃ c, s.frame.lsn < c.lsn ∧ s.call c = some s'

/-! ## The replay -/

/-- The logged operation does to the page what the call did, in the same slot. -/
theorem redo_perform {op : RecordOperation} {page page' : RecordPage} {log : RecordLog}
    (h : op.perform page = .ok (page', log)) :
    RecordLogReplayer.redo log page = .ok (page', log) := by
  cases op with
  | initEmptyPage recordSize =>
    have hlog : log = .initPage recordSize := by
      simp only [RecordOperation.perform, initEmptyPage] at h
      split at h
      · cases h
      · exact (Prod.mk.inj (Except.ok.inj h)).2.symm
    subst hlog
    exact h
  | insertRecord record =>
    simp only [RecordOperation.perform, insertRecord] at h
    split at h
    · cases h
    rename_i hroom
    split at h
    · cases h
    rename_i index hindex
    obtain ⟨rfl, rfl⟩ := Prod.mk.inj (Except.ok.inj h)
    simp only [RecordLogReplayer.redo, insertRecord, if_neg hroom, hindex,
      RecordPage.setRecordData, RecordPage.addRecordNum, RecordPage.setBit, List.take_take,
      Nat.min_self]
  | deleteRecord slotNum =>
    have hlog : log = .delete slotNum := by
      simp only [RecordOperation.perform, deleteRecord] at h
      split at h
      · cases h
      split at h
      · exact (Prod.mk.inj (Except.ok.inj h)).2.symm
      · cases h
    subst hlog
    exact h
  | updateRecord slotNum record =>
    simp only [RecordOperation.perform, updateRecord] at h
    split at h
    · cases h
    rename_i hslot
    split at h
    · rename_i hbit
      obtain ⟨rfl, rfl⟩ := Prod.mk.inj (Except.ok.inj h)
      simp only [RecordLogReplayer.redo, updateRecord, if_neg hslot, if_pos hbit,
        RecordPage.setRecordData, List.take_take, Nat.min_self]
    · cases h

/-- The frame is that of the run, and it carries the LSN of the last entry. -/
structure RecordCaughtUp (frame : RecordFrame) (s : RecordState) : Prop where
  frame : frame = s.frame
  logged : ∀ entry ∈ s.log, entry.lsn ≤ s.frame.lsn

theorem follows_record :
    Follows RecordLogReplayer.replay RecordState.log RecordStep RecordCaughtUp where
  settled := by
    rintro _ s ⟨rfl, hlogged⟩ entry hmem
    exact if_pos (hlogged entry hmem)
  follow := by
    rintro _ s s' ⟨rfl, hlogged⟩ ⟨c, hlsn, hcall⟩
    unfold RecordState.call at hcall
    split at hcall
    · rename_i page log hop
      obtain rfl := Option.some.inj hcall
      refine ⟨[⟨c.lsn, log⟩], _, rfl, replay_singleton (u := ⟨page, c.lsn⟩) ?_, rfl, ?_⟩
      · simp only [RecordLogReplayer.replay, if_neg (Nat.not_le.mpr hlsn), redo_perform hop]
      · simp only [List.forall_mem_append, List.forall_mem_singleton]
        exact ⟨fun e he => Nat.le_trans (hlogged e he) (Nat.le_of_lt hlsn), Nat.le_refl _⟩
    · obtain rfl := Option.some.inj hcall
      exact ⟨[], s.frame, (List.append_nil _).symm, rfl, rfl, hlogged⟩
    · cases hcall

/-- From the image of the page at any point of a run the log of the whole run, replayed any
number of times, leads to the page at the end of the run, and to its LSN. -/
theorem replay_record_run (frame : RecordFrame) (mid last : RecordState)
    (hmid : Relation.ReflTransGen RecordStep ⟨frame, []⟩ mid)
    (hlast : Relation.ReflTransGen RecordStep mid last) (n : Nat) (hn : 0 < n) :
    replayTimes RecordLogReplayer.replay last.log n mid.frame = .ok last.frame := by
  have hstart : RecordCaughtUp frame ⟨frame, []⟩ := ⟨rfl, by simp⟩
  obtain ⟨_, -, hcaught⟩ := follows_record.replay hstart hmid
  obtain ⟨_, hreplay, rfl, -⟩ := follows_record.replayTimes ⟨rfl, hcaught.logged⟩ hlast hn
  exact hreplay

/-- A page is set up, and a record comes and goes. -/
theorem replay_record_run_three :
    ∃ mid last : RecordState,
      Relation.ReflTransGen RecordStep ⟨⟨⟨⟨0, 0, 0, 0, 0, 0, 0⟩, fun _ => 0⟩, 0⟩, []⟩ mid ∧
      last.log.length = 3 ∧
      replayTimes RecordLogReplayer.replay last.log 2 mid.frame = .ok last.frame := by
  let start : RecordState := ⟨⟨⟨⟨0, 0, 0, 0, 0, 0, 0⟩, fun _ => 0⟩, 0⟩, []⟩
  have hrun : ((start.call ⟨.initEmptyPage 4, 1⟩).bind fun s₁ =>
      (s₁.call ⟨.insertRecord [1, 2, 3, 4], 2⟩).bind fun s₂ =>
      (s₂.call ⟨.deleteRecord 0, 3⟩).map fun s₃ =>
        decide (s₁.frame.lsn = 1 ∧ s₂.frame.lsn = 2 ∧ s₃.log.length = 3)) = some true := by
    decide +kernel
  obtain ⟨s₁, h₁, hrun⟩ := Option.bind_eq_some_iff.mp hrun
  obtain ⟨s₂, h₂, hrun⟩ := Option.bind_eq_some_iff.mp hrun
  obtain ⟨s₃, h₃, hfacts⟩ := Option.map_eq_some_iff.mp hrun
  obtain ⟨hlsn₁, hlsn₂, hlength⟩ := of_decide_eq_true hfacts
  have hmid : Relation.ReflTransGen RecordStep start s₁ :=
    .single ⟨⟨.initEmptyPage 4, 1⟩, by decide, h₁⟩
  have hlast : Relation.ReflTransGen RecordStep s₁ s₃ :=
    .tail (.single ⟨⟨.insertRecord [1, 2, 3, 4], 2⟩, by simp [hlsn₁], h₂⟩)
      ⟨⟨.deleteRecord 0, 3⟩, by simp [hlsn₂], h₃⟩
  exact ⟨s₁, s₃, hmid, hlength, replay_record_run _ s₁ s₃ hmid hlast 2 (by decide)⟩

end ObHtap
