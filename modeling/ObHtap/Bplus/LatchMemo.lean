import ObHtap.Bplus.Handler
import ObHtap.Library.Triple

/-!
# Pins and latches

`LatchMemo` keeps the pins and the latches that an operation holds.  On its way to a leaf an
operation latches a node before it lets go of the nodes above, and it lets go of them only where
the node is safe: where the operation leaves the number of its items within bounds.
-/

namespace ObHtap

/-- `LatchMemoType`. -/
inductive LatchMemoType where
  | shared
  | exclusive
  | pin
  deriving DecidableEq

/-- `LatchMemoItem`.  An item without a frame is about the lock of the root page number. -/
structure LatchMemoItem (φ : Type) where
  type : LatchMemoType
  frame : Option φ
  deriving DecidableEq

/-- `BplusTreeOperationType`. -/
inductive BplusTreeOperationType where
  | read
  | insert
  | delete
  deriving DecidableEq

/-- What a thread finds at one moment of the tree and of the buffer pool that it shares with
others: the root page number, the frame that a page request gives, what the page of a frame
holds, and whether a frame can be latched at once. -/
structure Surroundings (κ φ : Type) where
  rootPage : PageNum
  getThisPage : PageNum → Except RC φ
  node : φ → IndexNode κ
  tryReadLatch : φ → Bool

/-- A read of the page of a frame, with what the thread held when it made it. -/
structure FrameRead (φ : Type) where
  frame : φ
  memo : List (LatchMemoItem φ)
  deriving DecidableEq

/-- What a thread holds and what it has read.  It looks at what it shares with others at one
moment after the other. -/
structure Latching (φ : Type) where
  moment : Nat
  memo : List (LatchMemoItem φ)
  reads : List (FrameRead φ)

abbrev LatchM (φ : Type) := EStateM Fault (Latching φ)

namespace LatchMemo

variable {κ φ : Type}

/-- `release_to`: the items in front of the point are released. -/
def releaseTo (point : Nat) : LatchM φ Unit :=
  modify fun s => { s with memo := s.memo.drop point }

/-- `release`. -/
def release : LatchM φ Unit :=
  modify fun s => { s with memo := [] }

def memoPoint : LatchM φ Nat := do
  return (← get).memo.length

/-- `latch`, which waits for the latch. -/
def latch (frame : φ) (type : LatchMemoType) : LatchM φ Unit :=
  modify fun s => { s with memo := s.memo ++ [⟨type, some frame⟩] }

/-- `xlatch` and `slatch` of the root lock. -/
def latchRoot (type : LatchMemoType) : LatchM φ Unit :=
  modify fun s => { s with memo := s.memo ++ [⟨type, none⟩] }

variable (world : Nat → Surroundings κ φ)

/-- What the thread finds at this moment; the next look comes later. -/
def look : LatchM φ (Surroundings κ φ) := fun s =>
  .ok (world s.moment) { s with moment := s.moment + 1 }

/-- `get_page`. -/
def getPage (pageNum : PageNum) : LatchM φ φ := do
  match (← look world).getThisPage pageNum with
  | .error rc => throw (.rc rc)
  | .ok frame =>
    modify fun s => { s with memo := s.memo ++ [⟨.pin, some frame⟩] }
    pure frame

/-- `try_slatch`. -/
def trySlatch (frame : φ) : LatchM φ Bool := do
  if (← look world).tryReadLatch frame then
    latch frame .shared
    pure true
  else pure false

/-- Looks at the page of a frame. -/
def readFrame (frame : φ) : LatchM φ (IndexNode κ) := do
  let now ← look world
  modify fun s => { s with reads := s.reads ++ [⟨frame, s.memo⟩] }
  pure (now.node frame)

/-- An item of the page of a frame; the slot has to be in use. -/
def itemAt (frame : φ) (index : Int) : LatchM φ (Item κ) := do
  let node ← readFrame world frame
  if index < 0 then throw .abort
  else match node.items[index.toNat]? with
    | some item => pure item
    | none => throw .abort

end LatchMemo

/-! ## The descent -/

namespace IndexNodeHandler

variable {κ : Type}

/-- `is_safe`. -/
def isSafe (header : IndexFileHeader) (op : BplusTreeOperationType) (isRootNode : Bool)
    (node : IndexNode κ) : Bool :=
  match op with
  | .read => true
  | .insert => node.size < maxSize header node
  | .delete =>
    if isRootNode then
      if node.isLeaf then 1 < node.size else 2 < node.size
    else minSize header node < node.size

end IndexNodeHandler

namespace BplusTreeHandler

open LatchMemo IndexNodeHandler

variable {κ φ : Type} (tree : BplusTreeHandler κ) (world : Nat → Surroundings κ φ)

def latchType (op : BplusTreeOperationType) : LatchMemoType :=
  if op = .read then .shared else .exclusive

/-- `is_safe` of the page of a frame; a reader does not look at it. -/
def isSafeFrame (op : BplusTreeOperationType) (isRootNode : Bool) (frame : φ) : LatchM φ Bool :=
  if op = .read then pure true
  else do return isSafe tree.fileHeader op isRootNode (← readFrame world frame)

/-- `crabing_protocal_fetch_page`. -/
def crabingProtocalFetchPage (op : BplusTreeOperationType) (pageNum : PageNum)
    (isRootNode : Bool) : LatchM φ φ := do
  let point ← memoPoint
  let frame ← LatchMemo.getPage world pageNum
  latch frame (latchType op)
  if ← isSafeFrame tree world op isRootNode frame then releaseTo point
  pure frame

/-- The loop of `find_leaf_internal`. -/
def latchLeafFrom (op : BplusTreeOperationType) (childPageGetter : IndexNode κ → Nat) :
    Nat → φ → LatchM φ φ
  | 0, _ => throw .outOfFuel
  | rounds + 1, frame => do
    if (← readFrame world frame).isLeaf then pure frame
    else
      let index := childPageGetter (← readFrame world frame)
      let nextPageId := (← LatchMemo.itemAt world frame index).child
      let frame ← crabingProtocalFetchPage tree world op nextPageId false
      latchLeafFrom op childPageGetter rounds frame

/-- `find_leaf_internal`, with its latches. -/
def latchLeafInternal (op : BplusTreeOperationType) (childPageGetter : IndexNode κ → Nat)
    (rounds : Nat) : LatchM φ φ := do
  latchRoot (latchType op)
  let rootPage := (← look world).rootPage
  if rootPage = bpInvalidPageNum then throw (.rc .empty)
  else
    let frame ← crabingProtocalFetchPage tree world op rootPage true
    latchLeafFrom tree world op childPageGetter rounds frame

/-- `find_leaf`. -/
def latchLeaf (op : BplusTreeOperationType) (key : κ) (rounds : Nat) : LatchM φ φ :=
  latchLeafInternal tree world op
    (fun node => (InternalIndexNodeHandler.lookup tree.keyComparator node key).1) rounds

/-- `left_most_page`. -/
def latchLeftMost (rounds : Nat) : LatchM φ φ :=
  latchLeafInternal tree world .read (fun _ => 0) rounds

end BplusTreeHandler

/-! ## Reads under a pin and a latch -/

/-- The thread had pinned the frame and latched it for readers. -/
def FrameRead.Protected {φ : Type} (read : FrameRead φ) : Prop :=
  ⟨.pin, some read.frame⟩ ∈ read.memo ∧ ⟨.shared, some read.frame⟩ ∈ read.memo

instance {φ : Type} [DecidableEq φ] (read : FrameRead φ) : Decidable read.Protected :=
  inferInstanceAs (Decidable (_ ∧ _))

namespace Latching

variable {φ : Type}

/-- The reads after the given ones were protected. -/
def ReadsSince (reads : List (FrameRead φ)) (s : Latching φ) : Prop :=
  ∃ later, s.reads = reads ++ later ∧ ∀ read ∈ later, read.Protected

/-- The given reads have been made. -/
def HasRead (reads : List (FrameRead φ)) (s : Latching φ) : Prop :=
  reads <+: s.reads

theorem ReadsSince.hasRead {reads : List (FrameRead φ)} {s : Latching φ}
    (h : ReadsSince reads s) : HasRead reads s := by
  obtain ⟨later, hreads, -⟩ := h
  exact ⟨later, hreads.symm⟩

theorem ReadsSince.refl (s : Latching φ) : ReadsSince s.reads s :=
  ⟨[], (List.append_nil _).symm, fun _ h => absurd h List.not_mem_nil⟩

end Latching

namespace LatchMemo

open Latching

variable {κ φ : Type} {world : Nat → Surroundings κ φ} {reads : List (FrameRead φ)}
  {memo : List (LatchMemoItem φ)} {frame : φ} {E : Fault → Latching φ → Prop}

/-- What a thread holds while its reads are protected. -/
def At (reads : List (FrameRead φ)) (memo : List (LatchMemoItem φ)) (s : Latching φ) : Prop :=
  ReadsSince reads s ∧ s.memo = memo

theorem look_at : Triple (At reads memo) (look world) (fun _ => At reads memo) E :=
  fun _ hs => hs

theorem memoPoint_at : Triple (At reads memo) memoPoint
    (fun point s => point = memo.length ∧ At reads memo s) E :=
  fun _ hs => ⟨congrArg List.length hs.2, hs⟩

theorem releaseTo_at (point : Nat) : Triple (At reads memo) (releaseTo point)
    (fun _ => At reads (memo.drop point)) E :=
  Triple.modify fun _ hs => ⟨hs.1, congrArg (List.drop point) hs.2⟩

theorem release_at : Triple (At reads memo) release (fun _ => At reads []) E :=
  Triple.modify fun _ hs => ⟨hs.1, rfl⟩

theorem latch_at (frame : φ) (type : LatchMemoType) : Triple (At reads memo) (latch frame type)
    (fun _ => At reads (memo ++ [⟨type, some frame⟩])) E :=
  Triple.modify fun _ hs => ⟨hs.1, congrArg (· ++ [⟨type, some frame⟩]) hs.2⟩

theorem getPage_at (pageNum : PageNum) (hE : ∀ rc s, At reads memo s → E (.rc rc) s) :
    Triple (At reads memo) (getPage world pageNum)
      (fun frame => At reads (memo ++ [⟨.pin, some frame⟩])) E := by
  refine look_at.bind fun now => ?_
  cases now.getThisPage pageNum with
  | error rc => exact Triple.throw fun s hs => hE rc s hs
  | ok frame =>
    refine (Triple.modify fun s hs => ?_).bind fun _ => Triple.pure fun _ hs => hs
    exact ⟨hs.1, congrArg (· ++ [⟨.pin, some frame⟩]) hs.2⟩

theorem readFrame_at (hpin : ⟨.pin, some frame⟩ ∈ memo) (hlatch : ⟨.shared, some frame⟩ ∈ memo) :
    Triple (At reads memo) (readFrame world frame) (fun _ => At reads memo) E := by
  refine look_at.bind fun now => ?_
  refine (Triple.modify fun s hs => ?_).bind fun _ => Triple.pure fun _ hs => hs
  obtain ⟨⟨later, hreads, hlater⟩, rfl⟩ := hs
  refine ⟨⟨later ++ [⟨frame, s.memo⟩], ?_, ?_⟩, rfl⟩
  · rw [hreads, List.append_assoc]
  · intro read hread
    rcases List.mem_append.mp hread with hread | hread
    · exact hlater read hread
    · rw [List.mem_singleton.mp hread]
      exact ⟨hpin, hlatch⟩

theorem itemAt_at (hpin : ⟨.pin, some frame⟩ ∈ memo) (hlatch : ⟨.shared, some frame⟩ ∈ memo)
    (index : Int) (hE : ∀ s, At reads memo s → E .abort s) :
    Triple (At reads memo) (itemAt world frame index) (fun _ => At reads memo) E := by
  refine (readFrame_at hpin hlatch).bind fun node => ?_
  refine Triple.ite (fun _ => Triple.throw hE) fun _ => ?_
  cases node.items[index.toNat]? with
  | none => exact Triple.throw hE
  | some item => exact Triple.pure fun _ hs => hs

theorem look_hasRead : Triple (HasRead reads) (look world) (fun _ => HasRead reads) E :=
  fun _ hs => hs

theorem readFrame_hasRead (frame : φ) :
    Triple (HasRead reads) (readFrame world frame) (fun _ => HasRead reads) E := by
  refine look_hasRead.bind fun now => ?_
  refine (Triple.modify fun s hs => ?_).bind fun _ => Triple.pure fun _ hs => hs
  exact hs.trans (List.prefix_append _ _)

theorem readFrame_records (frame : φ) :
    Triple (fun s => s.memo = memo ∧ s.reads = reads) (readFrame world frame)
      (fun _ => HasRead (reads ++ [⟨frame, memo⟩])) E := by
  rintro s ⟨rfl, rfl⟩
  exact List.prefix_refl _

theorem itemAt_hasRead (frame : φ) (index : Int) : Triple (HasRead reads)
    (itemAt world frame index) (fun _ => HasRead reads) (fun _ => HasRead reads) := by
  refine (readFrame_hasRead frame).bind fun node => ?_
  refine Triple.ite (fun _ => Triple.throw fun _ hs => hs) fun _ => ?_
  cases node.items[index.toNat]? with
  | none => exact Triple.throw fun _ hs => hs
  | some item => exact Triple.pure fun _ hs => hs

theorem itemAt_records (frame : φ) (index : Int) :
    Triple (fun s => s.memo = memo ∧ s.reads = reads) (itemAt world frame index)
      (fun _ => HasRead (reads ++ [⟨frame, memo⟩]))
      (fun _ => HasRead (reads ++ [⟨frame, memo⟩])) := by
  refine (readFrame_records frame).bind fun node => ?_
  refine Triple.ite (fun _ => Triple.throw fun _ hs => hs) fun _ => ?_
  cases node.items[index.toNat]? with
  | none => exact Triple.throw fun _ hs => hs
  | some item => exact Triple.pure fun _ hs => hs

theorem getPage_hasRead (pageNum : PageNum) : Triple (HasRead reads) (getPage world pageNum)
    (fun _ => HasRead reads) (fun _ => HasRead reads) := by
  refine look_hasRead.bind fun now => ?_
  cases now.getThisPage pageNum with
  | error rc => exact Triple.throw fun _ hs => hs
  | ok frame =>
    exact Triple.bind (Q := fun _ => HasRead reads) (Triple.modify fun _ hs => hs) fun _ =>
      Triple.pure fun _ hs => hs

theorem trySlatch_hasRead (frame : φ) : Triple (HasRead reads) (trySlatch world frame)
    (fun _ => HasRead reads) E := by
  refine look_hasRead.bind fun now => Triple.ite (fun _ => ?_) fun _ => Triple.pure fun _ hs => hs
  exact Triple.bind (Q := fun _ => HasRead reads) (Triple.modify fun _ hs => hs) fun _ =>
    Triple.pure fun _ hs => hs

end LatchMemo

namespace BplusTreeHandler

open LatchMemo Latching

variable {κ φ : Type} {tree : BplusTreeHandler κ} {world : Nat → Surroundings κ φ}
  {reads : List (FrameRead φ)} {memo : List (LatchMemoItem φ)}

/-- What a reader holds of a frame. -/
def readerHold (frame : φ) : List (LatchMemoItem φ) :=
  [⟨.pin, some frame⟩, ⟨.shared, some frame⟩]

theorem pin_mem_readerHold (frame : φ) : ⟨.pin, some frame⟩ ∈ readerHold frame :=
  List.mem_cons_self

theorem shared_mem_readerHold (frame : φ) : ⟨.shared, some frame⟩ ∈ readerHold frame :=
  List.mem_cons_of_mem _ List.mem_cons_self

/-- A reader holds the node it has come to, and nothing above it. -/
theorem crabingProtocalFetchPage_read (pageNum : PageNum) (isRootNode : Bool) :
    Triple (At reads memo) (crabingProtocalFetchPage tree world .read pageNum isRootNode)
      (fun frame => At reads (readerHold frame)) (fun _ => ReadsSince reads) := by
  refine memoPoint_at.bind fun point => Triple.of_and ?_
  rintro rfl
  refine (getPage_at pageNum fun _ _ hs => hs.1).bind fun frame => (latch_at frame _).bind fun _ => ?_
  refine Triple.bind (Q := fun safe s => safe = true ∧ At reads _ s)
    (Triple.pure fun s hs => ⟨rfl, hs⟩) fun safe => Triple.of_and ?_
  rintro rfl
  refine ((releaseTo_at _).post fun _ s hs => ?_).bind fun _ => Triple.pure fun _ hs => hs
  rwa [List.append_assoc, List.drop_left] at hs

theorem latchLeafFrom_read (childPageGetter : IndexNode κ → Nat) (rounds : Nat) (frame : φ) :
    Triple (At reads (readerHold frame)) (latchLeafFrom tree world .read childPageGetter rounds frame)
      (fun frame => At reads (readerHold frame)) (fun _ => ReadsSince reads) := by
  induction rounds generalizing frame with
  | zero => exact Triple.throw fun _ hs => hs.1
  | succ rounds ih =>
    have hread : Triple (At reads (readerHold frame)) (readFrame world frame)
        (fun _ => At reads (readerHold frame)) (fun _ => ReadsSince reads) :=
      readFrame_at (pin_mem_readerHold frame) (shared_mem_readerHold frame)
    refine hread.bind fun node => Triple.ite (fun _ => Triple.pure fun _ hs => hs) fun _ => ?_
    refine hread.bind fun node => ?_
    refine (itemAt_at (pin_mem_readerHold frame) (shared_mem_readerHold frame) _
      fun _ hs => hs.1).bind fun item => ?_
    exact (crabingProtocalFetchPage_read _ _).bind fun frame => ih frame

/-- All reads of a descent to a leaf are protected, and so is the leaf at its end. -/
theorem latchLeafInternal_read (childPageGetter : IndexNode κ → Nat) (rounds : Nat) :
    Triple (At reads memo) (latchLeafInternal tree world .read childPageGetter rounds)
      (fun frame => At reads (readerHold frame)) (fun _ => ReadsSince reads) := by
  refine Triple.bind (Q := fun _ => At reads (memo ++ [⟨.shared, none⟩])) ?_ fun _ => ?_
  · exact Triple.modify fun _ hs => ⟨hs.1, congrArg (· ++ [_]) hs.2⟩
  refine look_at.bind fun now => Triple.ite (fun _ => Triple.throw fun _ hs => hs.1) fun _ => ?_
  exact (crabingProtocalFetchPage_read _ _).bind fun frame => latchLeafFrom_read _ _ frame

end BplusTreeHandler

end ObHtap
