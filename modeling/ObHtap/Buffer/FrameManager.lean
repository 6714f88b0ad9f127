import ObHtap.Buffer.DoubleWriteBuffer
import ObHtap.Library.LruCache

/-!
# The frame manager

All buffer pools share one frame manager.  A frame is found by its frame id; a frame that is not
in use for a page waits in the allocator, and keeps its dirty flag and its page there.
-/

namespace ObHtap

/-- `FrameId`, which has the fields of `DoubleWritePageKey`. -/
abbrev FrameId := DoubleWritePageKey

/-- `Frame`, without its id. -/
structure Frame where
  pinCount : Nat
  dirty : Bool
  page : Page

namespace Frame

def pin (frame : Frame) : Frame := { frame with pinCount := frame.pinCount + 1 }

def unpin (frame : Frame) : Frame := { frame with pinCount := frame.pinCount - 1 }

def markDirty (frame : Frame) : Frame := { frame with dirty := true }

def clearDirty (frame : Frame) : Frame := { frame with dirty := false }

def clearPage (frame : Frame) : Frame := { frame with page := Page.zero }

def canPurge (frame : Frame) : Bool := frame.pinCount = 0

/-- The page with the checksum that it is written with. -/
def setCheckSum (frame : Frame) : Frame :=
  { frame with page := { frame.page with checkSum := crc32 frame.page.data.toList } }

@[simp] theorem pinCount_pin (frame : Frame) : frame.pin.pinCount = frame.pinCount + 1 := rfl

@[simp] theorem pinCount_unpin (frame : Frame) : frame.unpin.pinCount = frame.pinCount - 1 := rfl

@[simp] theorem pinCount_markDirty (frame : Frame) : frame.markDirty.pinCount = frame.pinCount :=
  rfl

@[simp] theorem pinCount_clearDirty (frame : Frame) : frame.clearDirty.pinCount = frame.pinCount :=
  rfl

@[simp] theorem pinCount_clearPage (frame : Frame) : frame.clearPage.pinCount = frame.pinCount :=
  rfl

@[simp] theorem pinCount_setCheckSum (frame : Frame) :
    frame.setCheckSum.pinCount = frame.pinCount := rfl

@[simp] theorem canPurge_iff (frame : Frame) : frame.canPurge = true ↔ frame.pinCount = 0 :=
  decide_eq_true_iff

end Frame

/-- `BPFrameManager`: `frames_`, and the frames that `allocator_` has to give. -/
structure BPFrameManager where
  frames : LruCache FrameId Frame
  free : List Frame
  unpinned : ∀ frame ∈ free, frame.pinCount = 0

namespace BPFrameManager

theorem unpinned_nil : ∀ frame ∈ ([] : List Frame), frame.pinCount = 0 := by
  simp

/-- `get`, if the frame is there. -/
def get (manager : BPFrameManager) (id : FrameId) : Option BPFrameManager :=
  match manager.frames.lookup id with
  | none => none
  | some frame => some { manager with frames := manager.frames.insert id frame.pin }

/-- `alloc`, if a frame can be had.  A frame that is new for the page keeps what it had. -/
def alloc (manager : BPFrameManager) (id : FrameId) : Option BPFrameManager :=
  match manager.get id with
  | some manager => some manager
  | none =>
    match hfree : manager.free with
    | [] => none
    | frame :: free =>
      some {
        frames := manager.frames.insert id frame.pin
        free
        unpinned := fun other h => manager.unpinned other (hfree ▸ List.mem_cons_of_mem _ h) }

/-- `free`; `none` where its assertion fails. -/
def freeFrame (manager : BPFrameManager) (id : FrameId) : Option BPFrameManager :=
  match manager.frames.lookup id with
  | none => none
  | some frame =>
    if hpin : frame.pinCount = 1 then
      some {
        frames := manager.frames.erase id
        free := manager.free ++ [frame.unpin]
        unpinned := by
          simp only [List.forall_mem_append, List.forall_mem_singleton]
          exact ⟨manager.unpinned, by simp [hpin]⟩ }
    else none

/-- Changes a frame in place. -/
def modify (manager : BPFrameManager) (id : FrameId) (f : Frame → Frame) : BPFrameManager :=
  { manager with frames := manager.frames.modify id f }

/-- The frames that `find_list` finds. -/
def ofPool (manager : BPFrameManager) (bufferPoolId : Int) : List FrameId :=
  manager.frames.keys.filter fun id => id.bufferPoolId = bufferPoolId

/-- `find_list` pins what it finds. -/
def findList (manager : BPFrameManager) (bufferPoolId : Int) : BPFrameManager :=
  { manager with
    frames := manager.frames.mapValues fun id frame =>
      if id.bufferPoolId = bufferPoolId then frame.pin else frame }

/-- The pin count of the frame, 0 if there is none. -/
def pinCount (manager : BPFrameManager) (id : FrameId) : Nat :=
  ((manager.frames.lookup id).map Frame.pinCount).getD 0

variable {manager manager' : BPFrameManager} {id other : FrameId} {frame : Frame}

theorem pinCount_of_lookup (h : manager.frames.lookup id = some frame) :
    manager.pinCount id = frame.pinCount := by
  rw [pinCount, h]
  rfl

theorem pinCount_of_none (h : manager.frames.lookup id = none) : manager.pinCount id = 0 := by
  rw [pinCount, h]
  rfl

theorem pinCount_insert (manager : BPFrameManager) (id : FrameId) (frame : Frame) :
    ({ manager with frames := manager.frames.insert id frame } : BPFrameManager).pinCount =
      Function.update manager.pinCount id frame.pinCount := by
  funext other
  by_cases h : other = id
  · subst h
    simp [pinCount]
  · simp [pinCount, h, AList.lookup_insert_ne]

theorem pinCount_modify (manager : BPFrameManager) (id : FrameId) (f : Frame → Frame)
    (h : manager.frames.lookup id = some frame) :
    (manager.modify id f).pinCount = Function.update manager.pinCount id (f frame).pinCount := by
  funext other
  by_cases hother : other = id
  · subst hother
    simp [pinCount, modify, h]
  · simp [pinCount, modify, hother, LruCache.lookup_modify_of_ne]

theorem pinCount_modify_of_eq (manager : BPFrameManager) (id : FrameId) {f : Frame → Frame}
    (hf : ∀ frame, (f frame).pinCount = frame.pinCount) :
    (manager.modify id f).pinCount = manager.pinCount := by
  funext other
  by_cases hother : other = id
  · subst hother
    simp [pinCount, modify, Function.comp_def, hf]
  · simp [pinCount, modify, hother, LruCache.lookup_modify_of_ne]

theorem get_eq_none : manager.get id = none ↔ manager.frames.lookup id = none := by
  unfold get
  cases manager.frames.lookup id <;> simp

theorem pinCount_get (h : manager.get id = some manager') :
    manager'.pinCount = Function.update manager.pinCount id (manager.pinCount id + 1) := by
  unfold get at h
  cases hlookup : manager.frames.lookup id with
  | none =>
    rw [hlookup] at h
    cases h
  | some frame =>
    rw [hlookup] at h
    rw [← Option.some.inj h, pinCount_insert, pinCount_of_lookup hlookup, Frame.pinCount_pin]

theorem pinCount_alloc (h : manager.alloc id = some manager') :
    manager'.pinCount = Function.update manager.pinCount id (manager.pinCount id + 1) := by
  unfold alloc at h
  cases hget : manager.get id with
  | some held =>
    rw [hget] at h
    obtain rfl := Option.some.inj h
    exact pinCount_get hget
  | none =>
    rw [hget] at h
    simp only at h
    split at h
    · cases h
    · rename_i frame free hfree
      rw [← Option.some.inj h, pinCount_of_none (get_eq_none.mp hget)]
      have hpin : frame.pin.pinCount = 0 + 1 := by
        rw [Frame.pinCount_pin, manager.unpinned frame (hfree ▸ List.mem_cons_self)]
      rw [← hpin]
      exact pinCount_insert manager id frame.pin

theorem freeFrame_eq_some :
    (∃ manager', manager.freeFrame id = some manager') ↔ manager.pinCount id = 1 := by
  unfold freeFrame
  cases hlookup : manager.frames.lookup id with
  | none => simp [pinCount_of_none hlookup]
  | some frame =>
    rw [pinCount_of_lookup hlookup]
    simp only
    split_ifs with hpin <;> simp [hpin]

theorem pinCount_freeFrame (h : manager.freeFrame id = some manager') :
    manager'.pinCount = Function.update manager.pinCount id 0 := by
  unfold freeFrame at h
  cases hlookup : manager.frames.lookup id with
  | none =>
    rw [hlookup] at h
    cases h
  | some frame =>
    rw [hlookup] at h
    simp only at h
    split_ifs at h
    obtain rfl := Option.some.inj h
    funext other
    by_cases hother : other = id
    · subst hother
      simp [pinCount]
    · simp [pinCount, hother, AList.lookup_erase_ne]

theorem lookup_freeFrame_of_ne (h : manager.freeFrame id = some manager') (hne : other ≠ id) :
    manager'.frames.lookup other = manager.frames.lookup other := by
  unfold freeFrame at h
  cases hlookup : manager.frames.lookup id with
  | none =>
    rw [hlookup] at h
    cases h
  | some frame =>
    rw [hlookup] at h
    simp only at h
    split_ifs at h
    obtain rfl := Option.some.inj h
    exact AList.lookup_erase_ne hne

theorem pinCount_findList (manager : BPFrameManager) (bufferPoolId : Int) (id : FrameId) :
    (manager.findList bufferPoolId).pinCount id =
      manager.pinCount id + if id ∈ manager.ofPool bufferPoolId then 1 else 0 := by
  unfold findList ofPool pinCount
  simp only [LruCache.lookup_mapValues, List.mem_filter, ← AList.mem_keys, decide_eq_true_eq]
  cases hlookup : manager.frames.lookup id with
  | none => simp [AList.lookup_eq_none.mp hlookup]
  | some frame =>
    have hmem : id ∈ manager.frames := AList.lookup_isSome.mp (by simp [hlookup])
    by_cases hid : id.bufferPoolId = bufferPoolId <;> simp [hid, hmem]

end BPFrameManager

end ObHtap
