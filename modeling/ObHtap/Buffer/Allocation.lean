import ObHtap.Buffer.FileHeader
import ObHtap.Common.RC
import ObHtap.Library.Replay
import Mathlib.Data.Nat.Count

/-!
# Allocation of pages and its replay

`allocate_page` and `dispose_page` log what they do to the file header before they do it, and
`redo_allocate_page` and `redo_deallocate_page` do it again after a restart.
-/

namespace ObHtap

/-! ## The number of allocated pages -/

namespace BPFileHeader

/-- The number of set bits below `page_count`. -/
def setBits (hdr : BPFileHeader) : Nat :=
  Nat.count (fun i => hdr.bitmap i = true) hdr.pageCount

/-- `allocated_pages` is the number of set bits below `page_count`. -/
def Counted (hdr : BPFileHeader) : Prop :=
  hdr.allocatedPages = hdr.setBits

instance (hdr : BPFileHeader) : Decidable hdr.Counted :=
  inferInstanceAs (Decidable (hdr.allocatedPages = hdr.setBits))

theorem count_setBit (hdr : BPFileHeader) (index n : Nat) :
    Nat.count (fun i => hdr.setBit index i = true) n =
      Nat.count (fun i => hdr.bitmap i = true) n +
        if index < n ∧ hdr.bitmap index = false then 1 else 0 := by
  induction n with
  | zero => simp
  | succ n ih =>
    rw [Nat.count_succ, Nat.count_succ, ih]
    unfold setBit
    grind

theorem count_clearBit (hdr : BPFileHeader) (index n : Nat) :
    Nat.count (fun i => hdr.bitmap i = true) n =
      Nat.count (fun i => hdr.clearBit index i = true) n +
        if index < n ∧ hdr.bitmap index = true then 1 else 0 := by
  induction n with
  | zero => simp
  | succ n ih =>
    rw [Nat.count_succ, Nat.count_succ, ih]
    unfold clearBit
    grind

theorem Counted.reuse {hdr : BPFileHeader} {i : Nat} (h : hdr.Counted)
    (hfree : hdr.freePage = some i) : (hdr.reuse i).Counted := by
  have hcount := hdr.count_setBit i hdr.pageCount
  rw [if_pos (freePage_eq_some hfree)] at hcount
  unfold Counted setBits at *
  simp only [BPFileHeader.reuse, hcount, h]
  push_cast
  rfl

theorem Counted.extend {hdr : BPFileHeader} (h : hdr.Counted) : hdr.extend.Counted := by
  have hcount := hdr.count_setBit hdr.pageCount hdr.pageCount
  rw [if_neg (by omega), Nat.add_zero] at hcount
  unfold Counted setBits at *
  have hset : hdr.setBit hdr.pageCount hdr.pageCount = true := if_pos rfl
  simp only [BPFileHeader.extend, Nat.count_succ, hcount, h, hset, if_true]
  push_cast
  rfl

theorem Counted.dispose_iff {hdr : BPFileHeader} {pageNum : Nat} (h : hdr.Counted) :
    (hdr.dispose pageNum).Counted ↔ hdr.Allocated pageNum := by
  have hcount := hdr.count_clearBit pageNum hdr.pageCount
  unfold Counted setBits at *
  simp only [BPFileHeader.dispose, h, hcount, Allocated]
  split_ifs with hset
  · simp [hset]
  · simp only [hset, iff_false]
    push_cast
    omega

end BPFileHeader

/-! ## Operations of `DiskBufferPool` -/

/-- The frame of the file header page: `file_header_` and the LSN of `hdr_frame_`. -/
structure HeaderFrame where
  header : BPFileHeader
  lsn : LSN

inductive BufferPoolOperation where
  | allocate
  | deallocate
  deriving DecidableEq

structure BufferPoolLogEntry where
  lsn : LSN
  operationType : BufferPoolOperation
  pageNum : Nat
  deriving DecidableEq

namespace DiskBufferPool

/-- `allocate_page`, as far as the header and the log are concerned.  `lsn` is the LSN that the
log handler gives out next.  A file that is full is an error, and nothing is logged. -/
def allocatePage (lsn : LSN) (hdrFrame : HeaderFrame) :
    Except RC Nat × HeaderFrame × List BufferPoolLogEntry :=
  match hdrFrame.header.freePage with
  | some i => (.ok i, ⟨hdrFrame.header.reuse i, lsn⟩, [⟨lsn, .allocate, i⟩])
  | none =>
    if BPFileHeader.maxPageNum ≤ hdrFrame.header.pageCount then (.error .nobuf, hdrFrame, [])
    else
      (.ok hdrFrame.header.pageCount, ⟨hdrFrame.header.extend, lsn⟩,
        [⟨lsn, .allocate, hdrFrame.header.pageCount⟩])

/-- `dispose_page` of a page that is not in use. -/
def disposePage (lsn : LSN) (pageNum : Nat) (hdrFrame : HeaderFrame) :
    Except RC Unit × HeaderFrame × List BufferPoolLogEntry :=
  if pageNum = 0 then (.error .internal, hdrFrame, [])
  else (.ok (), ⟨hdrFrame.header.dispose pageNum, lsn⟩, [⟨lsn, .deallocate, pageNum⟩])

/-- `redo_allocate_page`.  A page used again leaves the LSN of the header as it is. -/
def redoAllocatePage (lsn : LSN) (pageNum : Nat) (hdrFrame : HeaderFrame) :
    Except RC HeaderFrame :=
  if lsn ≤ hdrFrame.lsn then .ok hdrFrame
  else if pageNum < hdrFrame.header.pageCount then
    if hdrFrame.header.bitmap pageNum then .ok hdrFrame
    else .ok { hdrFrame with header := hdrFrame.header.reuse pageNum }
  else if hdrFrame.header.pageCount < pageNum then .error .internal
  else if BPFileHeader.maxPageNum ≤ hdrFrame.header.pageCount then .error .internal
  else .ok ⟨hdrFrame.header.extend, lsn⟩

/-- `redo_deallocate_page`. -/
def redoDeallocatePage (lsn : LSN) (pageNum : Nat) (hdrFrame : HeaderFrame) :
    Except RC HeaderFrame :=
  if lsn ≤ hdrFrame.lsn then .ok hdrFrame
  else if hdrFrame.header.pageCount ≤ pageNum then .error .internal
  else if hdrFrame.header.bitmap pageNum = false then .error .internal
  else .ok ⟨hdrFrame.header.dispose pageNum, lsn⟩

end DiskBufferPool

open DiskBufferPool

/-- `BufferPoolLogReplayer::replay`, for an entry of the pool. -/
def BufferPoolLogReplayer.replay (entry : BufferPoolLogEntry) (hdrFrame : HeaderFrame) :
    Except RC HeaderFrame :=
  match entry.operationType with
  | .allocate => redoAllocatePage entry.lsn entry.pageNum hdrFrame
  | .deallocate => redoDeallocatePage entry.lsn entry.pageNum hdrFrame

/-! ## Runs -/

inductive PoolOperation where
  | allocate
  | dispose (pageNum : Nat)

/-- An operation with the LSN that the log handler would give it. -/
structure PoolCall where
  operation : PoolOperation
  lsn : LSN

/-- The header frame, and what the calls have logged. -/
structure PoolState where
  hdrFrame : HeaderFrame
  log : List BufferPoolLogEntry

namespace PoolState

def call (s : PoolState) (c : PoolCall) : PoolState :=
  match c.operation with
  | .allocate =>
    let (_, hdrFrame, entries) := allocatePage c.lsn s.hdrFrame
    ⟨hdrFrame, s.log ++ entries⟩
  | .dispose pageNum =>
    let (_, hdrFrame, entries) := disposePage c.lsn pageNum s.hdrFrame
    ⟨hdrFrame, s.log ++ entries⟩

def run (s : PoolState) (calls : List PoolCall) : PoolState :=
  calls.foldl call s

/-- The call does not dispose of a page that is not allocated. -/
def Disposable (s : PoolState) (c : PoolCall) : Prop :=
  ∀ pageNum, c.operation = .dispose pageNum → pageNum ≠ 0 → s.hdrFrame.header.Allocated pageNum

/-- No call of the run disposes of a page that is not allocated then. -/
def DisposesAllocated (s : PoolState) : List PoolCall → Prop
  | [] => True
  | c :: calls => s.Disposable c ∧ DisposesAllocated (s.call c) calls

end PoolState

/-- A step of a run: a call with an LSN of its own. -/
def PoolStep (s s' : PoolState) : Prop :=
  ∃ c, s.hdrFrame.lsn < c.lsn ∧ s.Disposable c ∧ s' = s.call c

/-- The header frame is one that the log of the run leads to. -/
structure Mirrors (hdrFrame : HeaderFrame) (s : PoolState) : Prop where
  header : hdrFrame.header = s.hdrFrame.header
  lsn : hdrFrame.lsn ≤ s.hdrFrame.lsn
  logged : ∀ entry ∈ s.log, entry.lsn ≤ s.hdrFrame.lsn
  settled : ∀ entry ∈ s.log, hdrFrame.lsn < entry.lsn →
    entry.operationType = .allocate ∧ hdrFrame.header.Allocated entry.pageNum

namespace Mirrors

variable {f : HeaderFrame} {s s' : PoolState} {c : PoolCall} {entry : BufferPoolLogEntry}

theorem replay_eq_self (h : Mirrors f s) (hmem : entry ∈ s.log) :
    BufferPoolLogReplayer.replay entry f = .ok f := by
  unfold BufferPoolLogReplayer.replay redoAllocatePage redoDeallocatePage
  by_cases hle : entry.lsn ≤ f.lsn
  · cases entry.operationType <;> simp [hle]
  · obtain ⟨htype, hcount, hbit⟩ := h.settled entry hmem (not_le.mp hle)
    simp [htype, hle, hcount, hbit]

/-- A header whose LSN is that of the last entry. -/
theorem of_lsn {header : BPFileHeader} {lsn : LSN} (h : Mirrors f s) (hlsn : s.hdrFrame.lsn < lsn)
    (hentry : entry.lsn = lsn) :
    Mirrors ⟨header, lsn⟩ ⟨⟨header, lsn⟩, s.log ++ [entry]⟩ := by
  have hall : ∀ e ∈ s.log ++ [entry], e.lsn ≤ lsn := by
    simp only [List.forall_mem_append, List.forall_mem_singleton]
    exact ⟨fun e he => (h.logged e he).trans hlsn.le, hentry.le⟩
  exact ⟨rfl, le_rfl, hall, fun e he hlt => absurd hlt (not_lt.mpr (hall e he))⟩

theorem follow_allocate (h : Mirrors f s) (hlsn : s.hdrFrame.lsn < c.lsn)
    (hop : c.operation = .allocate) :
    ∃ entries f', (s.call c).log = s.log ++ entries ∧
      replay BufferPoolLogReplayer.replay entries f = .ok f' ∧ Mirrors f' (s.call c) := by
  have hnew : ¬ c.lsn ≤ f.lsn := not_le.mpr (h.lsn.trans_lt hlsn)
  unfold PoolState.call
  simp only [hop, allocatePage]
  cases hfree : s.hdrFrame.header.freePage with
  | some i =>
    obtain ⟨hcount, hbit⟩ := BPFileHeader.freePage_eq_some hfree
    have hredo : BufferPoolLogReplayer.replay ⟨c.lsn, .allocate, i⟩ f =
        .ok ⟨s.hdrFrame.header.reuse i, f.lsn⟩ := by
      simp [BufferPoolLogReplayer.replay, redoAllocatePage, hnew, h.header, hcount, hbit]
    refine ⟨[⟨c.lsn, .allocate, i⟩], _, rfl, replay_singleton hredo, ?_⟩
    have halloc : (s.hdrFrame.header.reuse i).Allocated i := by
      simp [BPFileHeader.Allocated, BPFileHeader.reuse, BPFileHeader.setBit, hcount]
    refine ⟨rfl, h.lsn.trans hlsn.le, ?_, ?_⟩
    · simp only [List.forall_mem_append, List.forall_mem_singleton]
      exact ⟨fun e he => (h.logged e he).trans hlsn.le, le_rfl⟩
    · simp only [List.forall_mem_append, List.forall_mem_singleton]
      refine ⟨fun e he hlt => ?_, fun _ => ⟨trivial, halloc⟩⟩
      obtain ⟨htype, hcount', hbit'⟩ := h.settled e he hlt
      rw [h.header] at hcount' hbit'
      refine ⟨htype, hcount', ?_⟩
      simp [BPFileHeader.reuse, BPFileHeader.setBit, hbit']
  | none =>
    by_cases hfull : BPFileHeader.maxPageNum ≤ s.hdrFrame.header.pageCount
    · simp only [if_pos hfull, List.append_nil]
      exact ⟨[], f, (List.append_nil _).symm, rfl, h⟩
    · have hredo : BufferPoolLogReplayer.replay ⟨c.lsn, .allocate, s.hdrFrame.header.pageCount⟩ f =
          .ok ⟨s.hdrFrame.header.extend, c.lsn⟩ := by
        simp [BufferPoolLogReplayer.replay, redoAllocatePage, hnew, h.header, hfull]
      simp only [if_neg hfull]
      exact ⟨_, _, rfl, replay_singleton hredo, h.of_lsn hlsn rfl⟩

theorem follow_dispose (h : Mirrors f s) (hlsn : s.hdrFrame.lsn < c.lsn) {pageNum : Nat}
    (hop : c.operation = .dispose pageNum)
    (halloc : pageNum ≠ 0 → s.hdrFrame.header.Allocated pageNum) :
    ∃ entries f', (s.call c).log = s.log ++ entries ∧
      replay BufferPoolLogReplayer.replay entries f = .ok f' ∧ Mirrors f' (s.call c) := by
  have hnew : ¬ c.lsn ≤ f.lsn := not_le.mpr (h.lsn.trans_lt hlsn)
  unfold PoolState.call
  simp only [hop, disposePage]
  by_cases hzero : pageNum = 0
  · simp only [if_pos hzero, List.append_nil]
    exact ⟨[], f, (List.append_nil _).symm, rfl, h⟩
  · obtain ⟨hcount, hbit⟩ := halloc hzero
    have hredo : BufferPoolLogReplayer.replay ⟨c.lsn, .deallocate, pageNum⟩ f =
        .ok ⟨s.hdrFrame.header.dispose pageNum, c.lsn⟩ := by
      simp [BufferPoolLogReplayer.replay, redoDeallocatePage, hnew, h.header, hbit, not_le.mpr hcount]
    simp only [if_neg hzero]
    exact ⟨_, _, rfl, replay_singleton hredo, h.of_lsn hlsn rfl⟩

end Mirrors

theorem follows_pool :
    Follows BufferPoolLogReplayer.replay PoolState.log PoolStep Mirrors where
  settled h _ hmem := h.replay_eq_self hmem
  follow := by
    rintro f s _ h ⟨c, hlsn, hdisp, rfl⟩
    cases hop : c.operation with
    | allocate => exact h.follow_allocate hlsn hop
    | dispose pageNum => exact h.follow_dispose hlsn hop (hdisp pageNum hop)

/-! ## The counter and the replay over a run -/

/-- The header of any point of the run is one that the log of that point leads to. -/
theorem Mirrors.image {f : HeaderFrame} {s : PoolState} (h : Mirrors f s) :
    Mirrors s.hdrFrame s :=
  ⟨rfl, le_rfl, h.logged, fun e he hlt => absurd hlt (not_lt.mpr (h.logged e he))⟩

namespace PoolState

variable {s : PoolState} {c : PoolCall} {calls : List PoolCall}

/-- The log sequence numbers of the calls are new and go up. -/
def InOrder (s : PoolState) (calls : List PoolCall) : Prop :=
  (s.hdrFrame.lsn :: calls.map PoolCall.lsn).Pairwise (· < ·)

theorem lsn_call (s : PoolState) (c : PoolCall) :
    (s.call c).hdrFrame.lsn = s.hdrFrame.lsn ∨ (s.call c).hdrFrame.lsn = c.lsn := by
  unfold call
  cases c.operation with
  | allocate =>
    simp only [allocatePage]
    cases s.hdrFrame.header.freePage with
    | some i => exact Or.inr rfl
    | none =>
      simp only
      split_ifs
      · exact Or.inl rfl
      · exact Or.inr rfl
  | dispose pageNum =>
    simp only [disposePage]
    split_ifs
    · exact Or.inl rfl
    · exact Or.inr rfl

theorem InOrder.head (h : s.InOrder (c :: calls)) : s.hdrFrame.lsn < c.lsn :=
  (List.pairwise_cons.mp h).1 _ List.mem_cons_self

theorem InOrder.tail (h : s.InOrder (c :: calls)) : (s.call c).InOrder calls := by
  obtain ⟨hs, hc⟩ := List.pairwise_cons.mp h
  rcases s.lsn_call c with heq | heq
  · refine List.pairwise_cons.mpr ⟨fun lsn hlsn => ?_, hc.of_cons⟩
    exact heq ▸ hs lsn (List.mem_cons_of_mem _ hlsn)
  · unfold InOrder
    rwa [heq]

theorem steps_of_run (hd : s.DisposesAllocated calls) (ho : s.InOrder calls) :
    Relation.ReflTransGen PoolStep s (s.run calls) := by
  induction calls generalizing s with
  | nil => exact .refl
  | cons c calls ih => exact .head ⟨c, ho.head, hd.1, rfl⟩ (ih hd.2 ho.tail)

theorem DisposesAllocated.take_drop (hd : s.DisposesAllocated calls) (k : Nat) :
    s.DisposesAllocated (calls.take k) ∧ (s.run (calls.take k)).DisposesAllocated (calls.drop k) := by
  induction calls generalizing s k with
  | nil => simp [DisposesAllocated]
  | cons c calls ih =>
    cases k with
    | zero => exact ⟨trivial, hd⟩
    | succ k => exact ⟨⟨hd.1, (ih hd.2 k).1⟩, (ih hd.2 k).2⟩

theorem InOrder.take_drop (ho : s.InOrder calls) (k : Nat) :
    s.InOrder (calls.take k) ∧ (s.run (calls.take k)).InOrder (calls.drop k) := by
  induction calls generalizing s k with
  | nil =>
    rw [List.take_nil, List.drop_nil]
    exact ⟨ho, ho⟩
  | cons c calls ih =>
    cases k with
    | zero => exact ⟨by simp [InOrder], ho⟩
    | succ k =>
      refine ⟨?_, (ih ho.tail k).2⟩
      exact ho.sublist (((List.take_sublist _ _).map _).cons_cons _)

theorem run_take_drop (s : PoolState) (calls : List PoolCall) (k : Nat) :
    (s.run (calls.take k)).run (calls.drop k) = s.run calls := by
  rw [run, run, run, ← List.foldl_append, List.take_append_drop]

/-- A call keeps the counter right exactly when it does not dispose of a page that is not
allocated. -/
theorem counted_call_iff (h : s.hdrFrame.header.Counted) :
    (s.call c).hdrFrame.header.Counted ↔ s.Disposable c := by
  unfold call Disposable
  cases c.operation with
  | allocate =>
    refine iff_of_true ?_ (fun _ hop => nomatch hop)
    simp only [allocatePage]
    cases hfree : s.hdrFrame.header.freePage with
    | some i => exact h.reuse hfree
    | none =>
      simp only
      split_ifs
      · exact h
      · exact h.extend
  | dispose pageNum =>
    simp only [disposePage, PoolOperation.dispose.injEq, forall_eq']
    split_ifs with hzero
    · exact iff_of_true h fun hne => absurd hzero hne
    · simpa [hzero] using h.dispose_iff

theorem counted_run (h : s.hdrFrame.header.Counted) (hd : s.DisposesAllocated calls) :
    (s.run calls).hdrFrame.header.Counted := by
  induction calls generalizing s with
  | nil => exact h
  | cons c calls ih => exact ih ((counted_call_iff h).mpr hd.1) hd.2

theorem disposesAllocated_of_counted (h : s.hdrFrame.header.Counted)
    (hrun : ∀ k, (s.run (calls.take k)).hdrFrame.header.Counted) : s.DisposesAllocated calls := by
  induction calls generalizing s with
  | nil => exact trivial
  | cons c calls ih =>
    have hc : (s.call c).hdrFrame.header.Counted := hrun 1
    exact ⟨(counted_call_iff h).mp hc, ih hc fun k => hrun (k + 1)⟩

end PoolState

/-- In every state of the run the counter is right, and the log of the whole run, replayed any
number of times from the header of any point of it, leads to the last header. -/
structure ReplaysFaithfully (s : PoolState) (calls : List PoolCall) : Prop where
  counted : ∀ k, (s.run (calls.take k)).hdrFrame.header.Counted
  replayed : ∀ k n, 0 < n → ∃ f,
    replayTimes BufferPoolLogReplayer.replay (s.run calls).log n
        (s.run (calls.take k)).hdrFrame = .ok f ∧
      f.header = (s.run calls).hdrFrame.header ∧ f.header.Counted

/-- The replay of allocations is faithful exactly when no page is disposed of that is not
allocated. -/
theorem replaysFaithfully_iff (hdrFrame : HeaderFrame) (hcounted : hdrFrame.header.Counted)
    (calls : List PoolCall) (horder : PoolState.InOrder ⟨hdrFrame, []⟩ calls) :
    ReplaysFaithfully ⟨hdrFrame, []⟩ calls ↔ PoolState.DisposesAllocated ⟨hdrFrame, []⟩ calls := by
  constructor
  · exact fun h => PoolState.disposesAllocated_of_counted hcounted h.counted
  · intro hd
    refine ⟨fun k => PoolState.counted_run hcounted (hd.take_drop k).1, fun k n hn => ?_⟩
    have hstart : Mirrors hdrFrame ⟨hdrFrame, []⟩ := ⟨rfl, le_rfl, by simp, by simp⟩
    obtain ⟨_, -, hmirrors⟩ := follows_pool.replay hstart
      (PoolState.steps_of_run (hd.take_drop k).1 (horder.take_drop k).1)
    have hrest := PoolState.steps_of_run (hd.take_drop k).2 (horder.take_drop k).2
    rw [PoolState.run_take_drop] at hrest
    obtain ⟨f, hf, hfinal⟩ := follows_pool.replayTimes hmirrors.image hrest hn
    exact ⟨f, hf, hfinal.header, hfinal.header ▸ PoolState.counted_run hcounted hd⟩

/-- The header of a file with one page besides the header page. -/
def onePageHeader : HeaderFrame :=
  ⟨⟨2, 2, fun i => decide (i < 2)⟩, 1⟩

theorem replaysFaithfully_iff_reuse :
    ReplaysFaithfully ⟨onePageHeader, []⟩ [⟨.dispose 1, 2⟩, ⟨.allocate, 5⟩] ↔
      PoolState.DisposesAllocated ⟨onePageHeader, []⟩ [⟨.dispose 1, 2⟩, ⟨.allocate, 5⟩] :=
  replaysFaithfully_iff onePageHeader (by decide) [⟨.dispose 1, 2⟩, ⟨.allocate, 5⟩]
    (by simp [PoolState.InOrder, onePageHeader])

/-- The second of two disposals of a page is counted as well, and its redo fails. -/
theorem twice_disposed_not_replayed :
    ¬ (PoolState.run ⟨onePageHeader, []⟩ [⟨.dispose 1, 2⟩, ⟨.dispose 1, 3⟩]).hdrFrame.header.Counted ∧
    replay BufferPoolLogReplayer.replay
        (PoolState.run ⟨onePageHeader, []⟩ [⟨.dispose 1, 2⟩, ⟨.dispose 1, 3⟩]).log onePageHeader =
      .error .internal := by
  exact ⟨by decide, rfl⟩

end ObHtap
