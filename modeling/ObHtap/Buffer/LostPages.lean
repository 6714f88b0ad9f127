import ObHtap.Buffer.AllocateFrame
import ObHtap.Buffer.DoubleWriteCalls
import ObHtap.Buffer.PinCounts

/-!
# Pages that are lost

The pools write to the double write buffer in front of the files.  A dirty frame that is evicted to
make room in another pool is not written at all, since `DiskBufferPool::flush_page` returns at once.
-/

namespace ObHtap

open DoubleWriteBuffer

/-! ## Frames and storage -/

/-- What a cache has of a key. -/
structure CacheLine (ν : Type) where
  value : ν
  dirty : Bool

/-- The value is in the line, and in the store as well if the line is clean; without a line it is
in the store. -/
def CacheHolds {ν : Type} : Option (CacheLine ν) → Option ν → ν → Prop
  | none, stored, value => stored = some value
  | some line, stored, value => line.value = value ∧ (line.dirty = false → stored = some value)

namespace CacheHolds

variable {ν : Type} {line : CacheLine ν} {cached : Option (CacheLine ν)} {stored stored' : Option ν}
  {value : ν}

theorem of_dirty (stored : Option ν) (value : ν) : CacheHolds (some ⟨value, true⟩) stored value := by
  refine ⟨rfl, ?_⟩
  intro hclean
  cases hclean

end CacheHolds

/-- The double write buffer with its disk, the last log sequence number that was given out, and
the last one that is flushed. -/
structure Storage where
  dblwr : DoubleWriteState
  appended : LSN
  flushed : LSN

namespace Storage

/-- The page that `load_page` reads. -/
def stored (st : Storage) (id : FrameId) : Option Page :=
  (loadPage st.dblwr.buffer st.dblwr.history.disk id).toOption

def addPage (order : HashOrder) (st : Storage) (id : FrameId) (page : Page) : Storage :=
  { st with dblwr := st.dblwr.step (.addPage id page order) }

def append (st : Storage) : Storage := { st with appended := st.appended + 1 }

def waitLsn (st : Storage) (lsn : LSN) : Storage := { st with flushed := max st.flushed lsn }

end Storage

/-- The devices that the pools have.  A page that can't be read leaves the frame as it was. -/
def storageDevices (order : HashOrder) : Devices Storage where
  addPage id page st := (.ok (), st.addPage order id page)
  loadPage id page st :=
    match loadPage st.dblwr.buffer st.dblwr.history.disk id with
    | .ok found => (.ok (), found, st)
    | .error rc => (.error rc, page, st)
  append _ _ _ st := (.ok (st.appended + 1), st.append)
  waitLsn lsn st := st.waitLsn lsn

/-- What is written to a page: its LSN and its data.  The checksum is for the storage. -/
abbrev PageBody := LSN × Vector UInt8 bpPageDataSize

def Page.body (page : Page) : PageBody := (page.lsn, page.data)

namespace Frame

/-- What is in the frame, for those that look its page up. -/
def line (frame : Frame) : CacheLine PageBody := ⟨frame.page.body, frame.dirty⟩

end Frame

namespace BPFrameManager

variable {manager manager' : BPFrameManager} {id other : FrameId} {frame : Frame}

theorem lookup_freeFrame_self (h : manager.freeFrame id = some manager') :
    manager'.frames.lookup id = none := by
  unfold freeFrame at h
  cases hlookup : manager.frames.lookup id with
  | none =>
    rw [hlookup] at h
    cases h
  | some frame =>
    rw [hlookup] at h
    simp only at h
    split_ifs at h
    obtain rfl := Option.some.inj h
    exact AList.lookup_erase _ _

theorem alloc_eq_some (hnone : manager.frames.lookup id = none)
    (h : manager.alloc id = some manager') :
    ∃ frame free, manager.free = frame :: free ∧ manager'.free = free ∧
      manager'.frames.lookup id = some frame.pin ∧
      ∀ other, other ≠ id → manager'.frames.lookup other = manager.frames.lookup other := by
  unfold alloc at h
  rw [get_eq_none.mpr hnone] at h
  simp only at h
  split at h
  · cases h
  · rename_i frame free hfree
    obtain rfl := Option.some.inj h
    exact ⟨frame, free, hfree, rfl, AList.lookup_insert _,
      fun other hne => AList.lookup_insert_ne hne⟩

end BPFrameManager

namespace BufferPoolManager

variable {s s' : BufferPoolManager Storage} {order : HashOrder} {fuel : Nat} {id other : FrameId}
  {frame : Frame} {body : PageBody} {bufferPoolId : Int}

/-- The page has this body, in its frame or in the storage. -/
def HasPage (s : BufferPoolManager Storage) (id : FrameId) (body : PageBody) : Prop :=
  CacheHolds ((s.frame? id).map Frame.line) ((s.devices.stored id).map Page.body) body

theorem frame?_setFrame_self {f : Frame → Frame} (h : s.frame? id = some frame) :
    (s.setFrame id f).frame? id = some (f frame) := by
  rw [frame?, setFrame, BPFrameManager.modify, LruCache.lookup_modify_self]
  exact congrArg _ h

/-! ## Writing and loading -/

/-- The frame is gone and there is room for another. -/
theorem returns_freeFrame_gone {u : Unit} (hret : Returns (freeFrame id) s u s') :
    s'.frame? id = none ∧ s'.frameManager.free ≠ [] := by
  simp only [freeFrame, returns_bind, returns_get] at hret
  obtain ⟨_, _, ⟨rfl, rfl⟩, hret⟩ := hret
  split at hret
  · rename_i frameManager hfree
    obtain rfl := returns_set.mp hret
    refine ⟨BPFrameManager.lookup_freeFrame_self hfree, ?_⟩
    obtain ⟨manager', hfree', hne⟩ := BPFrameManager.exists_freeFrame
      (BPFrameManager.freeFrame_eq_some.mp ⟨_, hfree⟩)
    rw [hfree] at hfree'
    rw [Option.some.inj hfree']
    exact hne
  · exact (not_returns_throw hret).elim

/-! ## Making room -/

/-- What `allocate_frame` purges when it needs a frame for a page. -/
structure Evicts (s : BufferPoolManager Storage) (id victim : FrameId) (frame : Frame) : Prop where
  absent : s.frame? id = none
  full : s.frameManager.free = []
  oldest : s.frameManager.frames.oldest? Frame.canPurge = some ⟨victim, frame⟩

theorem allocateFrame_free {rc : Except RC Unit} (hnone : s.frame? id = none)
    (hfree : s.frameManager.free ≠ [])
    (hret : Returns (allocateFrame (storageDevices order) id fuel) s rc s') :
    s'.devices = s.devices ∧ (∃ frame, s'.frame? id = some frame) ∧
      ∀ other, other ≠ id → s'.frame? other = s.frame? other := by
  cases fuel with
  | zero => exact (not_returns_throw hret).elim
  | succ fuel =>
    simp only [allocateFrame, returns_bind, returns_get] at hret
    obtain ⟨_, _, ⟨rfl, rfl⟩, hret⟩ := hret
    split at hret
    · rename_i frameManager halloc
      simp only [returns_bind, returns_set, returns_pure] at hret
      obtain ⟨_, _, rfl, rfl, rfl⟩ := hret
      obtain ⟨frame, _, -, -, hself, hothers⟩ := BPFrameManager.alloc_eq_some hnone halloc
      exact ⟨rfl, ⟨_, hself⟩, hothers⟩
    · rename_i halloc
      exact (hfree (BPFrameManager.alloc_eq_none.mp halloc).2).elim

/-! ## The calls -/

/-- A page that is in the storage is loaded. -/
theorem returns_loadPage_storage {rc : Except RC Unit}
    (h : Returns (loadPage (storageDevices order) id) s rc s') :
    s'.devices = s.devices ∧ s'.frameManager.free = s.frameManager.free ∧
      (∀ other, other ≠ id → s'.frame? other = s.frame? other) ∧
      ∃ frame, s.frame? id = some frame ∧
        ((∃ page, s.devices.stored id = some page ∧ rc = .ok () ∧
            s'.frame? id = some { frame with page }) ∨
          s.devices.stored id = none ∧ rc ≠ .ok () ∧ s'.frame? id = some frame) := by
  simp only [loadPage, returns_bind, returns_frameAt, returns_get] at h
  obtain ⟨frame, _, ⟨hframe, rfl⟩, _, _, ⟨rfl, rfl⟩, h⟩ := h
  simp only [storageDevices, returns_set, returns_pure] at h
  obtain ⟨_, _, rfl, hrc, rfl⟩ := h
  unfold Storage.stored
  cases hload : ObHtap.loadPage s.devices.dblwr.buffer s.devices.dblwr.history.disk id with
  | ok page =>
    rw [hload] at hrc
    refine ⟨rfl, rfl, fun other hne => frame?_setFrame_of_ne hne, frame, hframe, .inl ?_⟩
    exact ⟨page, rfl, hrc.symm, frame?_setFrame_self hframe⟩
  | error e =>
    rw [hload] at hrc
    refine ⟨rfl, rfl, fun other hne => frame?_setFrame_of_ne hne, frame, hframe, .inr ?_⟩
    refine ⟨rfl, ?_, frame?_setFrame_self hframe⟩
    rintro rfl
    cases hrc

end BufferPoolManager

/-! ## A frame of another pool -/

namespace BufferPoolManager

variable {s s' : BufferPoolManager Storage} {order : HashOrder} {fuel : Nat} {id victim : FrameId}
  {frame : Frame} {bufferPoolId : Int}

/-- A dirty frame of another pool is freed as it is. -/
theorem purgeFrames_other {u : Unit}
    (holdest : s.frameManager.frames.oldest? Frame.canPurge = some ⟨victim, frame⟩)
    (hdirty : frame.dirty = true) (hother : victim.bufferPoolId ≠ bufferPoolId)
    (hopen : s.openPools victim.bufferPoolId = true)
    (hret : Returns (purgeFrames (storageDevices order) bufferPoolId) s u s') :
    s'.devices = s.devices ∧ s'.frame? victim = none ∧ s'.frameManager.free ≠ [] ∧
      ∀ id, s.frame? id = none → s'.frame? id = none := by
  have hframe : s.frame? victim = some frame := (LruCache.lookup_of_oldest? holdest).1
  have hpinned : (s.setFrame victim Frame.pin).frame? victim = some frame.pin :=
    frame?_setFrame_self hframe
  simp only [purgeFrames, returns_bind, returns_get] at hret
  obtain ⟨_, _, ⟨rfl, rfl⟩, hret⟩ := hret
  rw [holdest] at hret
  simp only [returns_bind, returns_set] at hret
  obtain ⟨_, s₁, rfl, rc, s₂, hpurger, hret⟩ := hret
  simp only [purger, flushPage, returns_bind, returns_frameAt] at hpurger
  obtain ⟨frame', _, ⟨hframe', rfl⟩, hpurger⟩ := hpurger
  obtain rfl := Option.some.inj (hpinned.symm.trans hframe')
  have hdirty : frame.pin.dirty = true := hdirty
  rw [if_pos hdirty, if_neg hother] at hpurger
  simp only [returns_bind, returns_get] at hpurger
  obtain ⟨_, _, ⟨rfl, rfl⟩, hpurger⟩ := hpurger
  have hopen : ((s.setFrame victim Frame.pin).pools victim.bufferPoolId).isSome = true := hopen
  rw [if_pos hopen] at hpurger
  obtain ⟨rfl, rfl⟩ := returns_pure.mp hpurger
  obtain ⟨-, -, -, -, hdevices, hothers⟩ := returns_freeFrame hret
  obtain ⟨hgone, hroom⟩ := returns_freeFrame_gone hret
  refine ⟨hdevices, hgone, hroom, fun id hnone => ?_⟩
  have hne : id ≠ victim := by
    rintro rfl
    rw [hframe] at hnone
    cases hnone
  rw [hothers id hne, frame?_setFrame_of_ne hne]
  exact hnone

/-- When a page that is there is obtained and a dirty frame of another pool has to make room, what
was written to that frame is gone: its page is again what the storage had. -/
theorem getThisPage_loses (hevicts : s.Evicts id victim frame) (hdirty : frame.dirty = true)
    (hother : victim.bufferPoolId ≠ id.bufferPoolId)
    (hret : Returns (getThisPage (storageDevices order) fuel id) s (.ok id) s') (body : PageBody) :
    s'.HasPage victim body ↔ (s.devices.stored victim).map Page.body = some body := by
  simp only [getThisPage, returns_bind, returns_get] at hret
  obtain ⟨_, _, ⟨rfl, rfl⟩, hret⟩ := hret
  rw [BPFrameManager.get_eq_none.mpr hevicts.absent] at hret
  simp only [returns_bind] at hret
  obtain ⟨rc, s₁, halloc, hret⟩ := hret
  -- the loop has ended, so the other pool is open
  have hopen : s.openPools victim.bufferPoolId = true := by
    obtain ⟨oldest, frame', holdest, hpurge⟩ :=
      ((takesFrame_of_returns halloc).resolve_left (not_not.mpr hevicts.absent)).resolve_left
        (not_not.mpr hevicts.full)
    have hsame := hevicts.oldest.symm.trans holdest
    cases hsame
    have hpurge := hpurge hdirty
    rw [if_neg hother] at hpurge
    exact hpurge
  obtain ⟨rfl, -⟩ := returns_allocateFrame halloc
  have hne : victim ≠ id := fun hc => hother (congrArg DoubleWritePageKey.bufferPoolId hc)
  have hvictim : s₁.devices = s.devices ∧ s₁.frame? victim = none := by
    cases fuel with
    | zero => exact (not_returns_throw halloc).elim
    | succ fuel =>
      obtain ⟨s₂, hpurge, hrest⟩ :=
        (returns_allocateFrame_succ hevicts.absent hevicts.full).mp halloc
      obtain ⟨hdevices, hgone, hroom, habsent⟩ :=
        purgeFrames_other hevicts.oldest hdirty hother hopen hpurge
      obtain ⟨hdevices', -, hothers⟩ := allocateFrame_free (habsent id hevicts.absent) hroom hrest
      exact ⟨hdevices'.trans hdevices, (hothers victim hne).trans hgone⟩
  simp only [returns_bind] at hret
  obtain ⟨rc, s₂, hload, hret⟩ := hret
  obtain ⟨hdevices, -, hothers, -⟩ := returns_loadPage_storage hload
  cases rc with
  | ok =>
    obtain ⟨-, rfl⟩ := returns_pure.mp hret
    rw [HasPage, hothers victim hne, hvictim.2, hdevices, hvictim.1]
    exact Iff.rfl
  | error e =>
    simp only [returns_bind, returns_pure] at hret
    obtain ⟨_, _, -, hgot, -⟩ := hret
    cases hgot

/-- The only frame has a page of the second pool that was changed. -/
def otherDirty : BufferPoolManager Storage where
  frameManager := ⟨AList.insert (⟨2, 1⟩ : FrameId) (⟨0, true, ⟨5, 0, Page.zero.data⟩⟩ : Frame) ∅, [],
    BPFrameManager.unpinned_nil⟩
  pools := fun _ => some ⟨⟨2, 2, fun _ => true⟩, 1⟩
  log := []
  devices := ⟨DoubleWriteState.create 16 fun _ => [Page.zero, Page.zero], 0, 0⟩

/-- The LSN of the change is gone with it. -/
theorem otherDirty_loses :
    ∃ s, Returns (getThisPage (storageDevices HashOrder.unchanged) 2 ⟨1, 1⟩) otherDirty (.ok ⟨1, 1⟩)
      s ∧ otherDirty.HasPage ⟨2, 1⟩ (5, Page.zero.data) ∧ s.HasPage ⟨2, 1⟩ (0, Page.zero.data) := by
  obtain ⟨s, hret⟩ : ∃ s, Returns (getThisPage (storageDevices HashOrder.unchanged) 2 ⟨1, 1⟩)
      otherDirty (.ok ⟨1, 1⟩) s := ⟨_, rfl⟩
  refine ⟨s, hret, CacheHolds.of_dirty _ _, ?_⟩
  exact (getThisPage_loses ⟨rfl, rfl, rfl⟩ rfl (by decide) hret _).mpr rfl

end BufferPoolManager

end ObHtap
