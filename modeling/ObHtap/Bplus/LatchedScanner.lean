import ObHtap.Bplus.LatchMemo

/-!
# A scan among other threads

`BplusTreeScanner` as other threads see it: the frame that it keeps from one call to the next, the
pins and latches it holds, and the pages it looks at.  Between any two of its looks others may
change the tree and the buffer pool may evict frames that nobody has pinned.
-/

namespace ObHtap

open LatchMemo Latching

/-- `BplusTreeScanner`. -/
structure LatchedScanner (κ φ : Type) extends Latching φ where
  inited : Bool
  currentFrame : Option φ
  rightKey : Option κ
  iterIndex : Int
  firstEmitted : Bool

/-- The arguments of `open`, as it checks them and makes keys of them. -/
structure ScanRange (κ : Type) where
  valid : Bool
  leftKey : Option κ
  rightKey : Option κ

abbrev ScanM (κ φ : Type) := EStateM Fault (LatchedScanner κ φ)

namespace LatchedScanner

variable {κ φ : Type}

/-- A scanner that has not been opened. -/
def fresh : LatchedScanner κ φ where
  moment := 0
  memo := []
  reads := []
  inited := false
  currentFrame := none
  rightKey := none
  iterIndex := -1
  firstEmitted := false

/-- Runs a program on the latch memo of the scanner. -/
def latching {α : Type} (x : LatchM φ α) : ScanM κ φ α := fun s =>
  match x s.toLatching with
  | .ok a l => .ok a { s with toLatching := l }
  | .error e l => .error e { s with toLatching := l }

def setCurrentFrame (frame : Option φ) : ScanM κ φ Unit :=
  modify fun s => { s with currentFrame := frame }

def setIterIndex (index : Int) : ScanM κ φ Unit :=
  modify fun s => { s with iterIndex := index }

/-- Fetches a frame into `current_frame_`, which is null where that fails. -/
def fetchFrame (x : LatchM φ φ) : ScanM κ φ φ := fun s =>
  match x s.toLatching with
  | .ok frame l => .ok frame { s with toLatching := l, currentFrame := some frame }
  | .error e l => .error e { s with toLatching := l, currentFrame := none }

/-- Lets go of everything before a code is returned. -/
def releaseOnError {α : Type} (x : ScanM κ φ α) : ScanM κ φ α := fun s =>
  match x s with
  | .error (.rc rc) s' => .error (.rc rc) { s' with memo := [] }
  | result => result

variable (tree : BplusTreeHandler κ) (world : Nat → Surroundings κ φ) (rounds : Nat)

/-- `fetch_item`. -/
def fetchItem (frame : φ) : ScanM κ φ RID := do
  let index := (← get).iterIndex
  return (← latching (itemAt world frame index)).value.toRid

/-- `touch_end`. -/
def touchEnd (frame : φ) : ScanM κ φ Bool := do
  match (← get).rightKey with
  | none => pure false
  | some rightKey =>
    let index := (← get).iterIndex
    let item ← latching (itemAt world frame index)
    return 0 < tree.keyComparator item.key rightKey

/-- The leaf that `open` starts in. -/
def startLeaf (leftKey : Option κ) : LatchM φ φ :=
  match leftKey with
  | none => tree.latchLeftMost world rounds
  | some key => tree.latchLeaf world .read key rounds

/-- `open` starts in the leaf behind one, if there is any. -/
def startInNextLeaf (frame : φ) : ScanM κ φ (Option φ) := do
  let nextPageNum := (← latching (readFrame world frame)).nextBrother
  if nextPageNum = bpInvalidPageNum then
    latching release
    setCurrentFrame none
    pure none
  else
    let frame ← releaseOnError (fetchFrame (LatchMemo.getPage world nextPageNum))
    latching (latch frame .shared)
    setIterIndex 0
    pure (some frame)

/-- Where `open` starts. -/
def startIndex (leftKey : Option κ) (frame : φ) : ScanM κ φ (Option φ) :=
  match leftKey with
  | none => do
    setIterIndex 0
    pure (some frame)
  | some key => do
    let leftNode ← latching (readFrame world frame)
    let leftIndex := (LeafIndexNodeHandler.lookup tree.keyComparator leftNode key).1
    if leftIndex < (← latching (readFrame world frame)).size then
      setIterIndex leftIndex
      pure (some frame)
    else startInNextLeaf world frame

/-- `open` from the leaf that it starts in. -/
def openFrom (range : ScanRange κ) (frame : φ) : ScanM κ φ Unit := do
  match ← startIndex tree world range.leftKey frame with
  | none => pure ()
  | some frame =>
    modify fun s => { s with rightKey := range.rightKey }
    if ← touchEnd tree world frame then setCurrentFrame none
    latching release

/-- `open` behind its checks; an empty tree is no error. -/
def openRange (range : ScanRange κ) : ScanM κ φ Unit := fun s =>
  match releaseOnError (fetchFrame (startLeaf tree world rounds range.leftKey)) s with
  | .ok frame s' => openFrom tree world range frame s'
  | .error e s' => if e = .rc .empty then .ok () s' else .error e s'

/-- `open`. -/
def openScan (range : ScanRange κ) : ScanM κ φ Unit := do
  if (← get).inited then throw (.rc .internal)
  else
    modify fun s => { s with inited := true, firstEmitted := false }
    if range.valid then openRange tree world rounds range
    else throw (.rc .invalidArgument)

/-- The item that `next_entry` has come to, unless it is behind the right key. -/
def giveItem (frame : φ) : ScanM κ φ RID := do
  if ← touchEnd tree world frame then throw (.rc .recordEof)
  else fetchItem world frame

/-- `next_entry` goes on to the next leaf, which it does not wait for. -/
def enterNextLeaf (frame : φ) : ScanM κ φ Unit := do
  let nextPageNum := (← latching (readFrame world frame)).nextBrother
  if nextPageNum = bpInvalidPageNum then throw (.rc .recordEof)
  else
    let point ← latching memoPoint
    let frame ← fetchFrame (LatchMemo.getPage world nextPageNum)
    if ← latching (trySlatch world frame) then
      latching (releaseTo point)
      setIterIndex (-1)
    else throw (.rc .lockedNeedWait)

/-- `next_entry`. -/
def nextEntry : Nat → ScanM κ φ RID
  | 0 => throw .outOfFuel
  | rounds + 1 => do
    match (← get).currentFrame with
    | none => throw (.rc .recordEof)
    | some frame =>
      if (← get).firstEmitted then
        let index := (← get).iterIndex + 1
        setIterIndex index
        if index < (← latching (readFrame world frame)).size then giveItem tree world frame
        else
          enterNextLeaf world frame
          nextEntry rounds
      else
        let rid ← fetchItem world frame
        modify fun s => { s with firstEmitted := true }
        pure rid

/-- `close`. -/
def close : ScanM κ φ Unit :=
  modify fun s => { s with inited := false }

/-! ## Runs -/

/-- A call on a scanner. -/
inductive Call (κ : Type) where
  | openScan (range : ScanRange κ)
  | nextEntry
  | close

/-- The state after a call, which goes through so many nodes at most, and whether it has
returned. -/
def Call.perform (call : Call κ) (s : LatchedScanner κ φ) :
    LatchedScanner κ φ × Bool :=
  match call with
  | openScan range => returned (LatchedScanner.openScan tree world rounds range s)
  | nextEntry => returned (LatchedScanner.nextEntry tree world (rounds + 1) s)
  | close => returned (LatchedScanner.close s)
where
  /-- A call that ends the process does not return. -/
  returned {α : Type} : EStateM.Result Fault (LatchedScanner κ φ) α → LatchedScanner κ φ × Bool
    | .ok _ s => (s, true)
    | .error (.rc _) s => (s, true)
    | .error _ s => (s, false)

/-- The calls that are made, each with the state it is made in.  One that does not return is the
last. -/
def made : List (Call κ) → LatchedScanner κ φ → List (LatchedScanner κ φ × Call κ)
  | [], _ => []
  | call :: calls, s =>
    match call.perform tree world rounds s with
    | (s', true) => (s, call) :: made calls s'
    | (_, false) => [(s, call)]

/-- The state after the calls. -/
def runCalls : List (Call κ) → LatchedScanner κ φ → LatchedScanner κ φ
  | [], s => s
  | call :: calls, s =>
    match call.perform tree world rounds s with
    | (s', true) => runCalls calls s'
    | (s', false) => s'

/-! ## What a scan holds when it reads -/

variable {tree world rounds} {frame : Option φ} {P : Latching φ → Prop} {α : Type}
  {Q : α → Latching φ → Prop} {E : Fault → Latching φ → Prop} {x : LatchM φ α}
  {F : Fault → LatchedScanner κ φ → Prop} {reads : List (FrameRead φ)}
  {memo : List (LatchMemoItem φ)}

/-- The scanner keeps a frame, and its latch memo is in a state. -/
def On (frame : Option φ) (P : Latching φ → Prop) (s : LatchedScanner κ φ) : Prop :=
  s.currentFrame = frame ∧ P s.toLatching

theorem latching_on (h : Triple P x Q E) (hF : ∀ e s, On frame (E e) s → F e s) :
    Triple (On frame P) (latching x : ScanM κ φ α) (fun a => On frame (Q a)) F := by
  intro s hs
  have hx := h s.toLatching hs.2
  rw [latching]
  cases hrun : x s.toLatching with
  | ok a l => rw [hrun] at hx; exact ⟨hs.1, hx⟩
  | error e l => rw [hrun] at hx; exact hF e _ ⟨hs.1, hx⟩

theorem latching_of_total (h : Triple P x Q fun _ _ => False) :
    Triple (On frame P) (latching x : ScanM κ φ α) (fun a => On frame (Q a)) F :=
  latching_on h fun _ _ hs => hs.2.elim

theorem fetchFrame_on {x : LatchM φ φ} {Q : φ → Latching φ → Prop} (h : Triple P x Q E)
    (hF : ∀ e s, On none (E e) s → F e s) :
    Triple (fun s => P s.toLatching) (fetchFrame x : ScanM κ φ φ) (fun f => On (some f) (Q f)) F := by
  intro s hs
  have hx := h s.toLatching hs
  rw [fetchFrame]
  cases hrun : x s.toLatching with
  | ok a l => rw [hrun] at hx; exact ⟨rfl, hx⟩
  | error e l => rw [hrun] at hx; exact hF e _ ⟨rfl, hx⟩

theorem releaseOnError_of {y : ScanM κ φ α} {G : LatchedScanner κ φ → Prop}
    {R : α → LatchedScanner κ φ → Prop} (h : Triple G y R F)
    (hF : ∀ rc s, F (.rc rc) s → F (.rc rc) { s with memo := [] }) :
    Triple G (releaseOnError y) R F := by
  intro s hs
  have hy := h s hs
  rw [releaseOnError]
  cases hrun : y s with
  | ok a s' => rw [hrun] at hy; exact hy
  | error e s' =>
    rw [hrun] at hy
    cases e with
    | rc rc => exact hF rc s' hy
    | abort => exact hy
    | outOfFuel => exact hy

/-- A scanner that reads nothing more, or holds nothing. -/
def Idle (s : LatchedScanner κ φ) : Prop :=
  s.currentFrame = none ∨ s.memo = []

/-- How `open` leaves a scanner: it has read under pins and latches, and now holds nothing. -/
def Opened (reads : List (FrameRead φ)) (s : LatchedScanner κ φ) : Prop :=
  ReadsSince reads s.toLatching ∧ Idle s

/-- How a call of `open` may fail. -/
def Failed (reads : List (FrameRead φ)) (e : Fault) (s : LatchedScanner κ φ) : Prop :=
  ReadsSince reads s.toLatching ∧ ∀ rc, e = .rc rc → Idle s

theorem Failed.of_abort {s : LatchedScanner κ φ} (h : ReadsSince reads s.toLatching) :
    Failed reads .abort s :=
  ⟨h, fun _ heq => nomatch heq⟩

theorem Failed.of_none {e : Fault} {s : LatchedScanner κ φ}
    (h : On none (fun l => ReadsSince reads l) s) : Failed reads e s :=
  ⟨h.2, fun _ _ => Or.inl h.1⟩

theorem setIterIndex_on (index : Int) :
    Triple (On frame P) (setIterIndex index : ScanM κ φ Unit) (fun _ => On frame P) F :=
  Triple.modify fun _ hs => hs

theorem readFrame_on {frame : φ} (hpin : ⟨.pin, some frame⟩ ∈ memo)
    (hlatch : ⟨.shared, some frame⟩ ∈ memo) :
    Triple (On (some frame) (At reads memo)) (latching (readFrame world frame))
      (fun _ => On (some frame) (At reads memo)) F :=
  latching_of_total (readFrame_at hpin hlatch)

theorem touchEnd_on {frame : φ} (hpin : ⟨.pin, some frame⟩ ∈ memo)
    (hlatch : ⟨.shared, some frame⟩ ∈ memo) :
    Triple (On (some frame) (At reads memo)) (touchEnd tree world frame)
      (fun _ => On (some frame) (At reads memo)) (Failed reads) := by
  refine (Triple.get fun s hs => hs).bind fun s => ?_
  cases s.rightKey with
  | none => exact Triple.pure fun _ hs => hs
  | some key =>
    refine (Triple.get fun s hs => hs).bind fun s => ?_
    refine (latching_on (E := fun e s => e = .abort ∧ At reads memo s)
      (itemAt_at hpin hlatch s.iterIndex fun s hs => ⟨rfl, hs⟩) ?_).bind fun item =>
        Triple.pure fun _ hs => hs
    rintro e s ⟨-, rfl, hs⟩
    exact .of_abort hs.1

/-- Where `open` starts: in a leaf that it holds, or nowhere. -/
def Started (reads : List (FrameRead φ)) (start : Option φ) (s : LatchedScanner κ φ) : Prop :=
  match start with
  | none => Opened reads s
  | some frame => ∃ memo, (⟨.pin, some frame⟩ ∈ memo ∧ ⟨.shared, some frame⟩ ∈ memo) ∧
      On (some frame) (At reads memo) s

open BplusTreeHandler in
theorem startIndex_on (leftKey : Option κ) (frame : φ) :
    Triple (On (some frame) (At reads (readerHold frame)))
      (startIndex tree world leftKey frame) (Started reads) (Failed reads) := by
  have hpin := pin_mem_readerHold frame
  have hlatch := shared_mem_readerHold frame
  cases leftKey with
  | none =>
    exact (setIterIndex_on 0).bind fun _ => Triple.pure fun s hs => ⟨_, ⟨hpin, hlatch⟩, hs⟩
  | some key =>
    have hread : Triple (On (some frame) (At reads (readerHold frame)))
        (latching (readFrame world frame) : ScanM κ φ _)
        (fun _ => On (some frame) (At reads (readerHold frame))) (Failed reads) :=
      readFrame_on hpin hlatch
    refine hread.bind fun leftNode => hread.bind fun node => Triple.ite (fun _ => ?_) fun _ => ?_
    · exact (setIterIndex_on _).bind fun _ => Triple.pure fun s hs => ⟨_, ⟨hpin, hlatch⟩, hs⟩
    · refine hread.bind fun node => Triple.ite (fun _ => ?_) fun _ => ?_
      · -- there is no leaf behind this one
        refine (latching_of_total release_at).bind fun _ => ?_
        refine Triple.bind (Q := fun _ => Opened reads) (Triple.modify fun s hs => ?_) fun _ =>
          Triple.pure fun _ hs => hs
        exact ⟨hs.2.1, Or.inl rfl⟩
      · -- the next leaf is latched while this one is held
        refine Triple.bind (releaseOnError_of (F := Failed reads) ((fetchFrame_on
          (getPage_at (E := fun _ l => ReadsSince reads l) _ fun _ _ hs => hs.1)
          fun _ _ => Failed.of_none).pre fun s hs => hs.2) ?_) fun next => ?_
        · exact fun rc s hs => ⟨hs.1, fun _ _ => Or.inr rfl⟩
        refine (latching_of_total (latch_at next .shared)).bind fun _ => ?_
        refine (setIterIndex_on 0).bind fun _ => Triple.pure fun s hs => ⟨_, ?_, hs⟩
        simp

theorem openFrom_on (range : ScanRange κ) (frame : φ) :
    Triple (On (some frame) (At reads (BplusTreeHandler.readerHold frame)))
      (openFrom tree world range frame) (fun _ => Opened reads) (Failed reads) := by
  refine (startIndex_on range.leftKey frame).bind fun start => ?_
  cases start with
  | none => exact Triple.pure fun _ hs => hs
  | some frame =>
    refine Triple.of_exists fun memo => Triple.of_and fun hheld => ?_
    refine Triple.bind (Q := fun _ => On (some frame) (At reads memo))
      (Triple.modify fun _ hs => hs) fun _ => ?_
    refine (touchEnd_on hheld.1 hheld.2).bind fun atEnd => ?_
    have hrelease (frame : Option φ) : Triple (On frame (At reads memo))
        (latching release : ScanM κ φ Unit) (fun _ => Opened reads) (Failed reads) :=
      (latching_of_total release_at).post fun _ s hs => ⟨hs.2.1, Or.inr hs.2.2⟩
    cases atEnd with
    | true =>
      exact Triple.bind (Q := fun _ => On none (At reads memo))
        (Triple.modify fun s hs => ⟨rfl, hs.2⟩) fun _ => hrelease none
    | false => exact hrelease (some frame)

theorem startLeaf_read (leftKey : Option κ) :
    Triple (At reads memo) (startLeaf tree world rounds leftKey)
      (fun frame => At reads (BplusTreeHandler.readerHold frame)) (fun _ => ReadsSince reads) := by
  cases leftKey with
  | none => exact BplusTreeHandler.latchLeafInternal_read _ _
  | some key => exact BplusTreeHandler.latchLeafInternal_read _ _

theorem openRange_of (range : ScanRange κ) :
    Triple (fun s => ReadsSince reads s.toLatching) (openRange tree world rounds range)
      (fun _ => Opened reads) (Failed reads) := by
  intro s hs
  have hstart : Triple (fun l : LatchedScanner κ φ => At reads s.memo l.toLatching)
      (releaseOnError (fetchFrame (startLeaf tree world rounds range.leftKey)))
      (fun frame => On (some frame) (At reads (BplusTreeHandler.readerHold frame)))
      (fun _ => Opened reads) :=
    releaseOnError_of (fetchFrame_on (startLeaf_read range.leftKey) fun _ s hs =>
      ⟨hs.2, Or.inl hs.1⟩) fun _ s hs => ⟨hs.1, Or.inr rfl⟩
  rw [openRange]
  cases hrun : releaseOnError (fetchFrame (startLeaf tree world rounds range.leftKey)) s with
  | ok frame s' => exact openFrom_on range frame s' (hstart.ok ⟨hs, rfl⟩ hrun)
  | error e s' =>
    have h := hstart.error ⟨hs, rfl⟩ hrun
    by_cases he : e = .rc .empty
    · simp only [he, if_true]
      exact h
    · simp only [he, if_false]
      exact ⟨h.1, fun _ _ => h.2⟩

theorem openScan_of (range : ScanRange κ) (b : Prop) :
    Triple (fun s => ReadsSince reads s.toLatching ∧ (b → Idle s))
      (openScan tree world rounds range)
      (fun _ s => ReadsSince reads s.toLatching ∧ (b → Idle s))
      (fun e s => ReadsSince reads s.toLatching ∧ ∀ rc, e = .rc rc → b → Idle s) := by
  refine (Triple.get fun s hs => hs).bind fun s => Triple.ite (fun _ => ?_) fun _ => ?_
  · exact Triple.throw fun s hs => ⟨hs.1, fun _ _ => hs.2⟩
  refine Triple.bind (Q := fun _ s => ReadsSince reads s.toLatching ∧ (b → Idle s))
    (Triple.modify fun s hs => hs) fun _ => ?_
  refine Triple.ite (fun _ => ?_) fun _ => Triple.throw fun s hs => ⟨hs.1, fun _ _ => hs.2⟩
  exact (openRange_of range).conseq (fun s hs => hs.1) (fun _ s hs => ⟨hs.1, fun _ => hs.2⟩)
    fun e s hs => ⟨hs.1, fun rc heq _ => hs.2 rc heq⟩

/-! ## Reads of a run -/

/-- The given reads have been made, and perhaps others after them. -/
def Reads (reads : List (FrameRead φ)) (s : LatchedScanner κ φ) : Prop :=
  HasRead reads s.toLatching

theorem latching_reads (h : Triple (HasRead reads) x (fun _ => HasRead reads)
    (fun _ => HasRead reads)) :
    Triple (Reads reads) (latching x : ScanM κ φ α) (fun _ => Reads reads)
      (fun _ => Reads reads) := by
  intro s hs
  have hx := h s.toLatching hs
  rw [latching]
  cases hrun : x s.toLatching with
  | ok a l => rw [hrun] at hx; exact hx
  | error e l => rw [hrun] at hx; exact hx

theorem fetchFrame_reads {x : LatchM φ φ} (h : Triple (HasRead reads) x (fun _ => HasRead reads)
    (fun _ => HasRead reads)) :
    Triple (Reads reads) (fetchFrame x : ScanM κ φ φ) (fun _ => Reads reads)
      (fun _ => Reads reads) := by
  intro s hs
  have hx := h s.toLatching hs
  rw [fetchFrame]
  cases hrun : x s.toLatching with
  | ok a l => rw [hrun] at hx; exact hx
  | error e l => rw [hrun] at hx; exact hx

theorem get_reads : Triple (Reads reads) (get : ScanM κ φ _) (fun _ => Reads reads)
    (fun _ => Reads reads) :=
  Triple.get fun _ hs => hs

theorem touchEnd_reads (frame : φ) : Triple (Reads reads) (touchEnd tree world frame)
    (fun _ => Reads reads) (fun _ => Reads reads) := by
  refine get_reads.bind fun s => ?_
  cases s.rightKey with
  | none => exact Triple.pure fun _ hs => hs
  | some key =>
    exact get_reads.bind fun s => (latching_reads (itemAt_hasRead frame _)).bind fun item =>
      Triple.pure fun _ hs => hs

theorem fetchItem_reads (frame : φ) : Triple (Reads reads)
    (fetchItem world frame : ScanM κ φ RID) (fun _ => Reads reads) (fun _ => Reads reads) :=
  get_reads.bind fun _ => (latching_reads (itemAt_hasRead frame _)).bind fun _ =>
    Triple.pure fun _ hs => hs

theorem giveItem_reads (frame : φ) : Triple (Reads reads) (giveItem tree world frame)
    (fun _ => Reads reads) (fun _ => Reads reads) := by
  refine (touchEnd_reads frame).bind fun atEnd => Triple.ite (fun _ => ?_) fun _ => ?_
  · exact Triple.throw fun _ hs => hs
  · exact fetchItem_reads frame

theorem enterNextLeaf_reads (frame : φ) : Triple (Reads reads)
    (enterNextLeaf world frame : ScanM κ φ Unit) (fun _ => Reads reads) (fun _ => Reads reads) := by
  refine (latching_reads (readFrame_hasRead frame)).bind fun node => ?_
  refine Triple.ite (fun _ => Triple.throw fun _ hs => hs) fun _ => ?_
  refine (latching_reads (x := memoPoint) fun _ hs => hs).bind fun point => ?_
  refine (fetchFrame_reads (getPage_hasRead _)).bind fun next => ?_
  refine (latching_reads (trySlatch_hasRead next)).bind fun locked => ?_
  refine Triple.ite (fun _ => ?_) fun _ => Triple.throw fun _ hs => hs
  exact Triple.bind (Q := fun _ => Reads reads)
    (latching_reads (x := releaseTo point) fun _ hs => hs) fun _ _ hs => hs

theorem goOn_reads (frame : φ) (c : Prop) [Decidable c] (rounds : Nat)
    (hnext : Triple (Reads reads) (nextEntry tree world rounds) (fun _ => Reads reads)
      (fun _ => Reads reads)) :
    Triple (Reads reads)
      (if c then giveItem tree world frame
        else do
          enterNextLeaf world frame
          nextEntry tree world rounds)
      (fun _ => Reads reads) (fun _ => Reads reads) :=
  Triple.ite (fun _ => giveItem_reads frame) fun _ => (enterNextLeaf_reads frame).bind fun _ => hnext

variable (tree world)

theorem nextEntry_reads (rounds : Nat) : Triple (Reads reads) (nextEntry tree world rounds)
    (fun _ => Reads reads) (fun _ => Reads reads) := by
  induction rounds with
  | zero => exact Triple.throw fun _ hs => hs
  | succ rounds ih =>
    refine get_reads.bind fun s => ?_
    cases s.currentFrame with
    | none => exact Triple.throw fun _ hs => hs
    | some frame =>
      refine get_reads.bind fun s => Triple.ite (fun _ => ?_) fun _ => ?_
      · refine get_reads.bind fun s => ?_
        refine Triple.bind (Q := fun _ => Reads reads) (Triple.modify fun _ hs => hs) fun _ => ?_
        exact (latching_reads (readFrame_hasRead frame)).bind fun node => goOn_reads frame _ _ ih
      · refine (fetchItem_reads frame).bind fun rid => ?_
        exact Triple.bind (Q := fun _ => Reads reads) (Triple.modify fun _ hs => hs) fun _ =>
          Triple.pure fun _ hs => hs

/-- The first read of `next_entry` in the leaf that `open` has left is not protected. -/
theorem nextEntry_of_idle (rounds : Nat) (frame : φ) :
    Triple (On (some frame) fun l => l.memo = [] ∧ l.reads = reads)
      (nextEntry tree world (rounds + 1)) (fun _ => Reads (reads ++ [⟨frame, []⟩]))
      (fun _ => Reads (reads ++ [⟨frame, []⟩])) := by
  refine Triple.bind (Q := fun s s' => s.currentFrame = some frame ∧
    On (some frame) (fun l => l.memo = [] ∧ l.reads = reads) s')
    (Triple.get fun s hs => ⟨hs.1, hs⟩) fun s => Triple.of_and fun hframe => ?_
  simp only [hframe]
  have hfirst {α : Type} {x : LatchM φ α} (h : Triple (fun l => l.memo = [] ∧ l.reads = reads) x
      (fun _ => HasRead (reads ++ [⟨frame, []⟩])) fun _ => HasRead (reads ++ [⟨frame, []⟩])) :
      Triple (On (some frame) fun l => l.memo = [] ∧ l.reads = reads)
        (latching x : ScanM κ φ α) (fun _ => Reads (reads ++ [⟨frame, []⟩])) fun _ => Reads (reads ++ [⟨frame, []⟩]) :=
    (latching_on h fun _ _ hs => hs.2).post fun _ _ hs => hs.2
  have hget : Triple (On (some frame) fun l => l.memo = [] ∧ l.reads = reads)
      (get : ScanM κ φ (LatchedScanner κ φ))
      (fun _ => On (some frame) fun l => l.memo = [] ∧ l.reads = reads)
      fun _ => Reads (reads ++ [⟨frame, []⟩]) :=
    Triple.get fun _ hs => hs
  refine hget.bind fun s => Triple.ite (fun _ => ?_) fun _ => ?_
  · refine hget.bind fun s => (setIterIndex_on _).bind fun _ => ?_
    exact (hfirst (readFrame_records frame)).bind fun node =>
      goOn_reads frame _ rounds (nextEntry_reads tree world rounds)
  · refine Triple.bind (Q := fun _ => Reads (reads ++ [⟨frame, []⟩])) ?_ fun rid => ?_
    · exact hget.bind fun s => (hfirst (itemAt_records frame _)).bind fun item =>
        Triple.pure fun _ hs => hs
    · exact Triple.bind (Q := fun _ => Reads (reads ++ [⟨frame, []⟩]))
        (Triple.modify fun _ hs => hs) fun _ => Triple.pure fun _ hs => hs

variable (rounds)

theorem nextEntry_of_null {s : LatchedScanner κ φ} (h : s.currentFrame = none) :
    nextEntry tree world (rounds + 1) s = .error (.rc .recordEof) s := by
  change (match s.currentFrame with
    | none => throw (.rc .recordEof)
    | some frame => _ : ScanM κ φ RID) s = _
  rw [h]
  rfl

theorem Call.perform_open (range : ScanRange κ) (s : LatchedScanner κ φ) (b : Prop)
    (hb : b → Idle s) :
    ReadsSince s.reads ((openScan range).perform tree world rounds s).1.toLatching ∧
      (((openScan range).perform tree world rounds s).2 = true → b →
        Idle ((openScan range).perform tree world rounds s).1) := by
  have h := @openScan_of _ _ tree world rounds _ range b s
    ⟨ReadsSince.refl s.toLatching, hb⟩
  rw [Call.perform]
  cases hrun : LatchedScanner.openScan tree world rounds range s with
  | ok a s' => rw [hrun] at h; exact ⟨h.1, fun _ => h.2⟩
  | error e s' =>
    rw [hrun] at h
    cases e with
    | rc rc => exact ⟨h.1, fun _ => h.2 rc rfl⟩
    | abort => exact ⟨h.1, nofun⟩
    | outOfFuel => exact ⟨h.1, nofun⟩

theorem Call.perform_next (s : LatchedScanner κ φ) (reads : List (FrameRead φ)) :
    (Reads reads s → Reads reads (nextEntry.perform tree world rounds s).1) ∧
      ∀ frame, s.currentFrame = some frame → s.memo = [] →
        Reads (s.reads ++ [⟨frame, []⟩]) (nextEntry.perform tree world rounds s).1 := by
  have hgrow := @nextEntry_reads _ _ tree world reads (rounds + 1) s
  have hfirst := fun frame => @nextEntry_of_idle _ _ tree world s.reads rounds frame s
  rw [Call.perform]
  cases hrun : LatchedScanner.nextEntry tree world (rounds + 1) s with
  | ok a s' =>
    rw [hrun] at hgrow
    simp only [hrun] at hfirst
    exact ⟨hgrow, fun frame hf hm => hfirst frame ⟨hf, hm, rfl⟩⟩
  | error e s' =>
    rw [hrun] at hgrow
    simp only [hrun] at hfirst
    cases e <;> exact ⟨hgrow, fun frame hf hm => hfirst frame ⟨hf, hm, rfl⟩⟩

theorem Call.perform_reads (call : Call κ) {s : LatchedScanner κ φ} (h : Reads reads s) :
    Reads reads (call.perform tree world rounds s).1 := by
  cases call with
  | openScan range => exact h.trans (perform_open tree world rounds range s False False.elim).1.hasRead
  | nextEntry => exact (perform_next tree world rounds s reads).1 h
  | close => exact h

theorem runCalls_reads (calls : List (Call κ)) {s : LatchedScanner κ φ} (h : Reads reads s) :
    Reads reads (runCalls tree world rounds calls s) := by
  induction calls generalizing s with
  | nil => exact h
  | cons call calls ih =>
    have hcall := call.perform_reads tree world rounds h
    rw [runCalls]
    rcases hperform : call.perform tree world rounds s with ⟨s', _ | _⟩
    · rw [hperform] at hcall
      exact hcall
    · rw [hperform] at hcall
      exact ih hcall

theorem made_cons (call : Call κ) (calls : List (Call κ)) (s : LatchedScanner κ φ) :
    made tree world rounds (call :: calls) s = (s, call) ::
      if (call.perform tree world rounds s).2 then
        made tree world rounds calls (call.perform tree world rounds s).1
      else [] := by
  rw [made]
  rcases call.perform tree world rounds s with ⟨s', _ | _⟩ <;> rfl

theorem runCalls_cons (call : Call κ) (calls : List (Call κ)) (s : LatchedScanner κ φ) :
    runCalls tree world rounds (call :: calls) s =
      if (call.perform tree world rounds s).2 then
        runCalls tree world rounds calls (call.perform tree world rounds s).1
      else (call.perform tree world rounds s).1 := by
  rw [runCalls]
  rcases call.perform tree world rounds s with ⟨s', _ | _⟩ <;> rfl

/-- A call that leaves all reads protected leaves the scanner idle, unless it finds a leaf. -/
theorem Call.perform_idle (call : Call κ) {s : LatchedScanner κ φ} (hidle : Idle s)
    (hnext : call = .nextEntry → s.currentFrame = none) :
    ReadsSince s.reads (call.perform tree world rounds s).1.toLatching ∧
      ((call.perform tree world rounds s).2 = true → Idle (call.perform tree world rounds s).1) := by
  cases call with
  | openScan range =>
    have h := perform_open tree world rounds range s True
      fun _ => hidle
    exact ⟨h.1, fun hret => h.2 hret trivial⟩
  | close => exact ⟨ReadsSince.refl _, fun _ => hidle⟩
  | nextEntry =>
    rw [Call.perform, nextEntry_of_null tree world rounds (hnext rfl)]
    exact ⟨ReadsSince.refl _, fun _ => hidle⟩

/-- A scanner that holds nothing keeps its reads protected as long as `next_entry` has no leaf to
look at. -/
theorem protected_iff_of_idle (calls : List (Call κ)) {s : LatchedScanner κ φ} (hidle : Idle s)
    (hreads : ∀ read ∈ s.reads, read.Protected) :
    (∀ read ∈ (runCalls tree world rounds calls s).reads, read.Protected) ↔
      ∀ c ∈ made tree world rounds calls s, c.2 = .nextEntry → c.1.currentFrame = none := by
  induction calls generalizing s with
  | nil => exact iff_of_true hreads fun c hc => absurd hc List.not_mem_nil
  | cons call calls ih =>
    rw [made_cons, runCalls_cons, List.forall_mem_cons]
    by_cases hnext : call = .nextEntry → s.currentFrame = none
    · obtain ⟨⟨later, hlater, hprotected⟩, hidle'⟩ :=
        call.perform_idle tree world rounds hidle hnext
      have hreads' : ∀ read ∈ (call.perform tree world rounds s).1.reads, read.Protected := by
        intro read hread
        rw [hlater] at hread
        exact (List.mem_append.mp hread).elim (hreads read) (hprotected read)
      rw [iff_true_intro hnext, true_and]
      by_cases hret : (call.perform tree world rounds s).2 = true
      · rw [if_pos hret, if_pos hret]
        exact ih (hidle' hret) hreads'
      · rw [if_neg hret, if_neg hret]
        exact iff_of_true hreads' fun c hc => absurd hc List.not_mem_nil
    · -- the first call that finds a leaf reads it at once
      refine iff_of_false (fun hall => ?_) fun hall => hnext hall.1
      obtain ⟨rfl, hsome⟩ := Classical.not_imp.mp hnext
      obtain ⟨frame, hframe⟩ := Option.ne_none_iff_exists'.mp hsome
      have hread := (Call.perform_next tree world rounds s []).2 frame hframe (hidle.resolve_left hsome)
      have hmem : ⟨frame, []⟩ ∈ (if (Call.nextEntry.perform tree world rounds s).2 then
          runCalls tree world rounds calls (Call.nextEntry.perform tree world rounds s).1
          else (Call.nextEntry.perform tree world rounds s).1).reads := by
        have hlast : ⟨frame, []⟩ ∈ s.reads ++ [⟨frame, []⟩] :=
          List.mem_append_right _ List.mem_cons_self
        split
        · exact (runCalls_reads tree world rounds calls hread).subset hlast
        · exact hread.subset hlast
      exact List.not_mem_nil (hall _ hmem).1

/-- All reads of a scan are protected if and only if no call of `next_entry` finds a leaf to look
at: `open` lets go of the leaf that it leaves to the first call. -/
theorem protected_iff (calls : List (Call κ)) :
    (∀ read ∈ (runCalls tree world rounds calls fresh).reads, read.Protected) ↔
      ∀ c ∈ made tree world rounds calls fresh, c.2 = .nextEntry → c.1.currentFrame = none :=
  protected_iff_of_idle tree world rounds calls (Or.inl rfl) fun _ h => absurd h List.not_mem_nil

/-- An index of one leaf with one entry.  After the scan has let go of it,
the buffer pool evicts the leaf and its frame holds another page. -/
def evicting (moment : Nat) : Surroundings ℕ ℕ where
  rootPage := 2
  getThisPage _ := .ok 0
  node _ := { isLeaf := true, parent := bpInvalidPageNum, nextBrother := bpInvalidPageNum,
              items := [⟨5, .rid ⟨if moment < 3 then 1 else 9, 0⟩⟩] }
  tryReadLatch _ := true

def smallTree : BplusTreeHandler ℕ where
  fileHeader := ⟨4, 4, false⟩
  keyComparator v1 v2 := v1 - v2

/-- A scan of all entries reads the page that has taken the place of the leaf. -/
theorem read_unprotected :
    ¬ ∀ read ∈ (runCalls smallTree evicting 1 [.openScan ⟨true, none, none⟩, .nextEntry]
      fresh).reads, read.Protected := by
  decide

end LatchedScanner

end ObHtap
