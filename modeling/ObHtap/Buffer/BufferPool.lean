import ObHtap.Buffer.Allocation
import ObHtap.Buffer.FrameManager
import ObHtap.Library.Triple

/-!
# Buffer pools

The pages of the open files, in frames that all pools share.  What the pools write to and read
from is a parameter here, so that any write, read or log entry may fail.  A function that returns
a return code has it as its result; the process ends at an assertion that fails.
-/

namespace ObHtap

/-! ## Below the pools -/

/-- The double write buffer, the files and the log.  A read that fails may leave part of a page. -/
structure Devices (σ : Type) where
  addPage : FrameId → Page → σ → Except RC Unit × σ
  loadPage : FrameId → Page → σ → Except RC Unit × Page × σ
  append : Int → BufferPoolOperation → Nat → σ → Except RC LSN × σ
  waitLsn : LSN → σ → σ

/-- Devices that never fail. -/
def quietDevices : Devices Unit where
  addPage _ _ _ := (.ok (), ())
  loadPage _ page _ := (.ok (), page, ())
  append _ _ _ _ := (.ok 1, ())
  waitLsn _ _ := ()

/-- `BufferPoolManager`: the frame manager, the headers of the open pools by their ids, and what
the pools have logged. -/
structure BufferPoolManager (σ : Type) where
  frameManager : BPFrameManager
  pools : Int → Option HeaderFrame
  log : List (Int × BufferPoolLogEntry)
  devices : σ

/-- Programs on the buffer pools. -/
abbrev PoolM (σ : Type) := EStateM Fault (BufferPoolManager σ)

namespace BufferPoolManager

variable {σ : Type}

/-! ## Frames -/

/-- A frame that is pointed to. -/
def frameAt (id : FrameId) : PoolM σ Frame := do
  let s : BufferPoolManager σ ← get
  match s.frameManager.frames.lookup id with
  | some frame => pure frame
  | none => throw .abort

def setFrame (s : BufferPoolManager σ) (id : FrameId) (f : Frame → Frame) : BufferPoolManager σ :=
  { s with frameManager := s.frameManager.modify id f }

/-- `BPFrameManager::free`. -/
def freeFrame (id : FrameId) : PoolM σ Unit := do
  let s : BufferPoolManager σ ← get
  match s.frameManager.freeFrame id with
  | some frameManager => set { s with frameManager }
  | none => throw .abort

/-- How `flush_page_internal` writes a frame.  Whether the log could be flushed is ignored. -/
def writeFrame (dev : Devices σ) (id : FrameId) (frame : Frame) (devices : σ) :
    Except RC Unit × σ :=
  dev.addPage id frame.setCheckSum.page (dev.waitLsn frame.page.lsn devices)

/-- `flush_page_internal`. -/
def flushPageInternal (dev : Devices σ) (id : FrameId) : PoolM σ (Except RC Unit) := do
  let frame ← frameAt id
  let s : BufferPoolManager σ ← get
  let (rc, devices) := writeFrame dev id frame s.devices
  let s := { s.setFrame id Frame.setCheckSum with devices }
  match rc with
  | .ok () => set (s.setFrame id Frame.clearDirty)
  | .error _ => set s
  pure rc

/-- `load_page`. -/
def loadPage (dev : Devices σ) (id : FrameId) : PoolM σ (Except RC Unit) := do
  let frame ← frameAt id
  let s : BufferPoolManager σ ← get
  let (rc, page, devices) := dev.loadPage id frame.page s.devices
  set { s.setFrame id fun frame => { frame with page } with devices }
  pure rc

/-- `BufferPoolManager::flush_page`: it finds the pool, and the pool's `flush_page` does nothing. -/
def flushPage (id : FrameId) : PoolM σ (Except RC Unit) := do
  let s : BufferPoolManager σ ← get
  if (s.pools id.bufferPoolId).isSome then pure (.ok ()) else pure (.error .internal)

/-- The purger of `allocate_frame`. -/
def purger (dev : Devices σ) (bufferPoolId : Int) (id : FrameId) : PoolM σ (Except RC Unit) := do
  if (← frameAt id).dirty then
    if id.bufferPoolId = bufferPoolId then flushPageInternal dev id else flushPage id
  else pure (.ok ())

/-- `purge_frames` of one frame, which is what `allocate_frame` asks for. -/
def purgeFrames (dev : Devices σ) (bufferPoolId : Int) : PoolM σ Unit := do
  let s : BufferPoolManager σ ← get
  match s.frameManager.frames.oldest? Frame.canPurge with
  | none => pure ()
  | some ⟨id, _⟩ =>
    set (s.setFrame id Frame.pin)
    match ← purger dev bufferPoolId id with
    | .ok () => freeFrame id
    | .error _ => modify fun s => s.setFrame id Frame.unpin

/-- `allocate_frame`, whose loop ends only when there is a frame: its `BUFFERPOOL_NOBUF` stands
behind a loop without an end. -/
def allocateFrame (dev : Devices σ) (id : FrameId) : Nat → PoolM σ (Except RC Unit)
  | 0 => throw .outOfFuel
  | fuel + 1 => do
    let s : BufferPoolManager σ ← get
    match s.frameManager.alloc id with
    | some frameManager => do
      set { s with frameManager }
      pure (.ok ())
    | none => do
      purgeFrames dev id.bufferPoolId
      allocateFrame dev id fuel

/-- `purge_frame`. -/
def purgeFrame (dev : Devices σ) (id : FrameId) : PoolM σ (Except RC Unit) := do
  let frame ← frameAt id
  if frame.pinCount ≠ 1 then pure (.error .lockedUnlock)
  else if frame.dirty then
    match ← flushPageInternal dev id with
    | .error rc => pure (.error rc)
    | .ok () => do
      freeFrame id
      pure (.ok ())
  else do
    freeFrame id
    pure (.ok ())

/-! ## Pages -/

/-- `get_this_page`; the result is the frame. -/
def getThisPage (dev : Devices σ) (fuel : Nat) (id : FrameId) : PoolM σ (Except RC FrameId) := do
  let s : BufferPoolManager σ ← get
  match s.frameManager.get id with
  | some frameManager => do
    set { s with frameManager }
    pure (.ok id)
  | none => do
    match ← allocateFrame dev id fuel with
    | .error rc => pure (.error rc)
    | .ok () => do
      match ← loadPage dev id with
      | .ok () => pure (.ok id)
      | .error rc => do
        let _ ← purgeFrame dev id
        pure (.error rc)

/-- The header of a pool that is open. -/
def headerOf (bufferPoolId : Int) : PoolM σ HeaderFrame := do
  let s : BufferPoolManager σ ← get
  match s.pools bufferPoolId with
  | some hdrFrame => pure hdrFrame
  | none => throw .abort

/-- Changes the header of a pool and marks its frame dirty. -/
def setHeader (s : BufferPoolManager σ) (bufferPoolId : Int) (header : BPFileHeader) :
    BufferPoolManager σ :=
  { s.setFrame ⟨bufferPoolId, 0⟩ Frame.markDirty with
    pools := Function.update s.pools bufferPoolId
      ((s.pools bufferPoolId).map fun hdrFrame => { hdrFrame with header }) }

/-- `append_log`, and `set_lsn` of the header with what it gives: 0 if the entry could not be
logged, an error which is ignored. -/
def appendLog (dev : Devices σ) (bufferPoolId : Int) (operation : BufferPoolOperation)
    (pageNum : Nat) (s : BufferPoolManager σ) : BufferPoolManager σ :=
  let setLsn (lsn : LSN) := Function.update s.pools bufferPoolId
    ((s.pools bufferPoolId).map fun hdrFrame => { hdrFrame with lsn })
  match dev.append bufferPoolId operation pageNum s.devices with
  | (.ok lsn, devices) =>
    { s with
      devices
      pools := setLsn lsn
      log := s.log ++ [(bufferPoolId, ⟨lsn, operation, pageNum⟩)] }
  | (.error _, devices) => { s with devices, pools := setLsn 0 }

/-- `allocate_page`. -/
def allocatePage (dev : Devices σ) (fuel : Nat) (bufferPoolId : Int) :
    PoolM σ (Except RC FrameId) := do
  let header := (← headerOf bufferPoolId).header
  match header.freePage with
  | some i => do
    modify fun s => appendLog dev bufferPoolId .allocate i (s.setHeader bufferPoolId (header.reuse i))
    getThisPage dev fuel ⟨bufferPoolId, i⟩
  | none =>
    if BPFileHeader.maxPageNum ≤ header.pageCount then pure (.error .nobuf)
    else do
      let id : FrameId := ⟨bufferPoolId, header.pageCount⟩
      modify fun s => appendLog dev bufferPoolId .allocate header.pageCount s
      match ← allocateFrame dev id fuel with
      | .error rc => pure (.error rc)
      | .ok () => do
        modify fun s => s.setHeader bufferPoolId header.extend
        modify fun s => s.setFrame id Frame.clearPage
        let _ ← flushPageInternal dev id
        pure (.ok id)

/-- `dispose_page`.  The assertion that is meant to stop it for a page in use has its text for a
condition, and it is the one in `free` that does. -/
def disposePage (dev : Devices σ) (id : FrameId) : PoolM σ (Except RC Unit) := do
  if id.pageNum = 0 then pure (.error .internal)
  else do
    let header := (← headerOf id.bufferPoolId).header
    let s : BufferPoolManager σ ← get
    match s.frameManager.get id with
    | some frameManager => do
      set { s with frameManager }
      freeFrame id
    | none => pure ()
    modify fun s => (appendLog dev id.bufferPoolId .deallocate id.pageNum s).setHeader
      id.bufferPoolId (header.dispose id.pageNum)
    pure (.ok ())

/-- `unpin_page`. -/
def unpinPage (id : FrameId) : PoolM σ Unit := do
  let frame ← frameAt id
  if frame.pinCount = 0 then throw .abort
  else modify fun s => s.setFrame id Frame.unpin

/-- `purge_page`. -/
def purgePage (dev : Devices σ) (id : FrameId) : PoolM σ (Except RC Unit) := do
  let s : BufferPoolManager σ ← get
  match s.frameManager.get id with
  | some frameManager => do
    set { s with frameManager }
    purgeFrame dev id
  | none => pure (.ok ())

/-- The loop of `purge_all_pages`, which ignores what `purge_frame` returns. -/
def purgeEach (dev : Devices σ) : List FrameId → PoolM σ Unit
  | [] => pure ()
  | id :: ids => do
    let _ ← purgeFrame dev id
    purgeEach dev ids

/-- `purge_all_pages`. -/
def purgeAllPages (dev : Devices σ) (bufferPoolId : Int) : PoolM σ Unit := do
  let s : BufferPoolManager σ ← get
  set { s with frameManager := s.frameManager.findList bufferPoolId }
  purgeEach dev (s.frameManager.ofPool bufferPoolId)

end BufferPoolManager

end ObHtap
