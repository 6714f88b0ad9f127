import ObHtap.Buffer.AllocateFrame

/-!
# Allocations that fail

`allocate_page` changes the header and logs the page that it uses again before it reads it.  When
the read fails the page is left allocated.
-/

namespace ObHtap

namespace BufferPoolManager

variable {σ : Type} {dev : Devices σ} {s s' : BufferPoolManager σ} {id : FrameId}
  {bufferPoolId : Int} {fuel i : Nat} {hdrFrame : HeaderFrame}

/-- An `allocate_page` that fails leaves the header and the log as they are. -/
def AtomicOnFailure (dev : Devices σ) (fuel : Nat) (bufferPoolId : Int)
    (s : BufferPoolManager σ) : Prop :=
  ∀ rc s', Returns (allocatePage dev fuel bufferPoolId) s (.error rc) s' →
    (s'.pools bufferPoolId).map HeaderFrame.header = (s.pools bufferPoolId).map HeaderFrame.header ∧
      s'.log = s.log

/-- There is a free frame, or the purger of `allocate_frame` may succeed. -/
def HasRoom (s : BufferPoolManager σ) (bufferPoolId : Int) : Prop :=
  s.frameManager.free ≠ [] ∨
    ∃ victim frame, s.frameManager.frames.oldest? Frame.canPurge = some ⟨victim, frame⟩ ∧
      (frame.dirty = true → victim.bufferPoolId = bufferPoolId ∨
        s.openPools victim.bufferPoolId = true)

/-- The page that is used again, if there is one, is in memory already; or else no frame can be
had for it. -/
def ReusesLoaded (s : BufferPoolManager σ) (bufferPoolId : Int) : Prop :=
  ∀ hdrFrame i, s.pools bufferPoolId = some hdrFrame → hdrFrame.header.freePage = some i →
    s.frame? ⟨bufferPoolId, i⟩ = none → ¬ HasRoom s bufferPoolId

/-- The state in which `allocate_page` reads the page that it uses again. -/
def reusing (dev : Devices σ) (bufferPoolId : Int) (header : BPFileHeader) (i : Nat)
    (s : BufferPoolManager σ) : BufferPoolManager σ :=
  appendLog dev bufferPoolId .allocate i (s.setHeader bufferPoolId (header.reuse i))

theorem frameManager_reusing (header : BPFileHeader) :
    (reusing dev bufferPoolId header i s).frameManager =
      s.frameManager.modify ⟨bufferPoolId, 0⟩ Frame.markDirty :=
  (appendLog_keeps _ _ _ _ _).1

theorem openPools_reusing (header : BPFileHeader) :
    (reusing dev bufferPoolId header i s).openPools = s.openPools :=
  (appendLog_keeps _ _ _ _ _).2.trans (openPools_setHeader _ _ _)

theorem frame?_reusing_eq_none (header : BPFileHeader) :
    (reusing dev bufferPoolId header i s).frame? id = none ↔ s.frame? id = none := by
  rw [frame?, frameManager_reusing, BPFrameManager.modify]
  by_cases h : id = ⟨bufferPoolId, 0⟩
  · subst h
    rw [LruCache.lookup_modify_self, Option.map_eq_none_iff]
    rfl
  · rw [LruCache.lookup_modify_of_ne h]
    rfl

theorem header_reusing (header : BPFileHeader) (hopen : s.pools bufferPoolId = some hdrFrame) :
    ((reusing dev bufferPoolId header i s).pools bufferPoolId).map HeaderFrame.header =
      some (header.reuse i) := by
  unfold reusing appendLog setHeader
  split <;> simp [hopen]

/-- The oldest unpinned frame stays; only the header frame of the pool is marked dirty. -/
theorem oldest?_reusing (header : BPFileHeader) :
    (reusing dev bufferPoolId header i s).frameManager.frames.oldest? Frame.canPurge =
      (s.frameManager.frames.oldest? Frame.canPurge).map fun e =>
        ⟨e.1, if e.1 = ⟨bufferPoolId, 0⟩ then e.2.markDirty else e.2⟩ := by
  have hpurge : ∀ frame : Frame, Frame.canPurge frame.markDirty = Frame.canPurge frame :=
    fun _ => rfl
  rw [frameManager_reusing, BPFrameManager.modify]
  exact LruCache.oldest?_modify hpurge s.frameManager.frames ⟨bufferPoolId, 0⟩

theorem hasRoom_of_takesFrame (header : BPFileHeader) (hnone : s.frame? ⟨bufferPoolId, i⟩ = none)
    (h : TakesFrame dev ⟨bufferPoolId, i⟩ (reusing dev bufferPoolId header i s)) :
    HasRoom s bufferPoolId := by
  rcases h with hframe | hfree | ⟨victim, frame, holdest, hpurge⟩
  · exact (hframe ((frame?_reusing_eq_none header).mpr hnone)).elim
  · left
    rwa [frameManager_reusing] at hfree
  · right
    rw [oldest?_reusing] at holdest
    obtain ⟨e, he, heq⟩ := Option.map_eq_some_iff.mp holdest
    cases heq
    refine ⟨e.1, e.2, he, fun hdirty => ?_⟩
    have hdirty' : (if e.1 = ⟨bufferPoolId, 0⟩ then e.2.markDirty else e.2).dirty = true := by
      split_ifs
      · rfl
      · exact hdirty
    by_cases hown : e.1.bufferPoolId = bufferPoolId
    · exact Or.inl hown
    · have hopen := hpurge hdirty'
      rw [if_neg hown, openPools_reusing] at hopen
      exact Or.inr hopen

/-- Devices that write and log, and cannot read. -/
def unreadable (σ : Type) : Devices σ where
  addPage _ _ devices := (.ok (), devices)
  loadPage _ page devices := (.error .ioerrRead, page, devices)
  append _ _ _ devices := (.ok 1, devices)
  waitLsn _ devices := devices

theorem HasRoom.takesFrame (header : BPFileHeader) (h : HasRoom s bufferPoolId) :
    TakesFrame (unreadable σ) ⟨bufferPoolId, i⟩ (reusing (unreadable σ) bufferPoolId header i s) := by
  rcases h with hfree | ⟨victim, frame, holdest, hdirty⟩
  · right
    left
    rw [frameManager_reusing]
    exact hfree
  · right
    right
    refine ⟨victim, if victim = ⟨bufferPoolId, 0⟩ then frame.markDirty else frame, ?_, ?_⟩
    · rw [oldest?_reusing, holdest]
      rfl
    · intro hdirty'
      by_cases hown : victim.bufferPoolId = bufferPoolId
      · rw [if_pos hown]
        exact ⟨0, rfl⟩
      · rw [if_neg hown, openPools_reusing]
        have hne : victim ≠ ⟨bufferPoolId, 0⟩ := by
          rintro rfl
          exact hown rfl
        rw [if_neg hne] at hdirty'
        exact (hdirty hdirty').resolve_left hown

theorem exists_purgeFrame (dev : Devices σ) {frame : Frame} (h : s.frame? id = some frame) :
    ∃ rc s', Returns (purgeFrame dev id) s rc s' := by
  have hat : Returns (frameAt id) s frame s := returns_frameAt.mpr ⟨h, rfl⟩
  have hfrees : ∀ t : BufferPoolManager σ, t.frameManager.pinCount id = 1 →
      ∃ t', Returns (freeFrame id) t () t' := by
    intro t hpin
    obtain ⟨manager', hfree, -⟩ := BPFrameManager.exists_freeFrame hpin
    refine ⟨{ t with frameManager := manager' }, ?_⟩
    simp only [freeFrame, returns_bind, returns_get]
    refine ⟨t, t, ⟨rfl, rfl⟩, ?_⟩
    rw [hfree]
    exact returns_set.mpr rfl
  simp only [purgeFrame, returns_bind]
  by_cases hpin : frame.pinCount = 1
  · have hone : s.frameManager.pinCount id = 1 := (BPFrameManager.pinCount_of_lookup h).trans hpin
    by_cases hdirty : frame.dirty = true
    · obtain ⟨s₁, f, hflush, hmanager, -, -, hpins, -⟩ := flushPageInternal_returns dev h
      cases hrc : (writeFrame dev id frame s.devices).1 with
      | error e =>
        refine ⟨.error e, s₁, frame, s, hat, ?_⟩
        rw [if_neg (by simpa using hpin), if_pos hdirty, returns_bind]
        exact ⟨_, s₁, hflush, by rw [hrc]; exact returns_pure.mpr ⟨rfl, rfl⟩⟩
      | ok =>
        obtain ⟨s₂, hfree⟩ := hfrees s₁ (by
          rw [hmanager, BPFrameManager.pinCount_modify_of_eq _ _ hpins, hone])
        refine ⟨.ok (), s₂, frame, s, hat, ?_⟩
        rw [if_neg (by simpa using hpin), if_pos hdirty, returns_bind]
        refine ⟨_, s₁, hflush, ?_⟩
        rw [hrc]
        simp only [returns_bind, returns_pure]
        exact ⟨(), s₂, hfree, trivial, rfl⟩
    · obtain ⟨s₂, hfree⟩ := hfrees s hone
      refine ⟨.ok (), s₂, frame, s, hat, ?_⟩
      rw [if_neg (by simpa using hpin), if_neg hdirty]
      simp only [returns_bind, returns_pure]
      exact ⟨(), s₂, hfree, trivial, rfl⟩
  · refine ⟨.error .lockedUnlock, s, frame, s, hat, ?_⟩
    rw [if_pos (by simpa using hpin)]
    exact returns_pure.mpr ⟨rfl, rfl⟩

/-- Where there is room for a page that is not in memory, a read of it may fail. -/
theorem exists_getThisPage_error (hnone : s.frame? id = none)
    (h : TakesFrame (unreadable σ) id s) :
    ∃ fuel s', Returns (getThisPage (unreadable σ) fuel id) s (.error .ioerrRead) s' := by
  obtain ⟨fuel, s₁, halloc, hframe⟩ := h.exists_allocateFrame
  obtain ⟨frame, hframe⟩ := Option.ne_none_iff_exists'.mp hframe
  have hload : ∃ s₂ frame', Returns (loadPage (unreadable σ) id) s₁ (.error .ioerrRead) s₂ ∧
      s₂.frame? id = some frame' := by
    refine ⟨s₁.setFrame id fun held => { held with page := frame.page }, frame, ?_, ?_⟩
    · simp only [loadPage, returns_bind, returns_frameAt, returns_get, returns_set, returns_pure]
      exact ⟨frame, s₁, ⟨hframe, rfl⟩, s₁, s₁, ⟨rfl, rfl⟩, (), _, rfl, rfl, rfl⟩
    · rw [frame?, setFrame, BPFrameManager.modify, LruCache.lookup_modify_self]
      rw [frame?] at hframe
      rw [hframe]
      rfl
  obtain ⟨s₂, frame', hload, hframe'⟩ := hload
  obtain ⟨rc, s', hpurge⟩ := exists_purgeFrame (unreadable σ) hframe'
  refine ⟨fuel, s', ?_⟩
  simp only [getThisPage, returns_bind, returns_get]
  refine ⟨s, s, ⟨rfl, rfl⟩, ?_⟩
  rw [BPFrameManager.get_eq_none.mpr hnone]
  simp only [returns_bind]
  refine ⟨_, s₁, halloc, ?_⟩
  simp only [returns_bind]
  refine ⟨_, s₂, hload, ?_⟩
  simp only [returns_bind, returns_pure]
  exact ⟨rc, s', hpurge, trivial, rfl⟩

/-! ## When a failing allocation changes nothing -/

theorem returns_allocatePage_reuse (hopen : s.pools bufferPoolId = some hdrFrame)
    (hfree : hdrFrame.header.freePage = some i) {got : Except RC FrameId} :
    Returns (allocatePage dev fuel bufferPoolId) s got s' ↔
      Returns (getThisPage dev fuel ⟨bufferPoolId, i⟩)
        (reusing dev bufferPoolId hdrFrame.header i s) got s' := by
  simp only [allocatePage, returns_bind, returns_headerOf]
  constructor
  · rintro ⟨_, _, ⟨hopen', rfl⟩, h⟩
    obtain rfl := Option.some.inj (hopen.symm.trans hopen')
    rw [hfree] at h
    simp only [returns_bind, returns_modify] at h
    obtain ⟨_, _, rfl, h⟩ := h
    exact h
  · intro h
    refine ⟨hdrFrame, s, ⟨hopen, rfl⟩, ?_⟩
    rw [hfree]
    simp only [returns_bind, returns_modify]
    exact ⟨(), _, rfl, h⟩

/-- For every state of the headers and the frame manager, an `allocate_page` that fails changes
nothing, whatever the devices do, exactly if the page that it would use again is in memory or no
frame can be had for it. -/
theorem atomicOnFailure_iff (s : BufferPoolManager σ) (bufferPoolId : Int) :
    (∀ dev fuel, AtomicOnFailure dev fuel bufferPoolId s) ↔ ReusesLoaded s bufferPoolId := by
  constructor
  · intro h hdrFrame i hopen hfree hnone hroom
    obtain ⟨fuel, s', hget⟩ := exists_getThisPage_error
      ((frame?_reusing_eq_none hdrFrame.header).mpr hnone) (hroom.takesFrame hdrFrame.header)
    obtain ⟨hheader, -⟩ := h (unreadable σ) fuel _ _
      ((returns_allocatePage_reuse hopen hfree).mpr hget)
    obtain ⟨hpools, -, -⟩ := returns_getThisPage hget
    rw [hpools, header_reusing _ hopen, hopen] at hheader
    -- the counter of allocated pages has gone up
    have hcount := congrArg BPFileHeader.allocatedPages (Option.some.inj hheader)
    unfold BPFileHeader.reuse at hcount
    simp only at hcount
    omega
  · intro h dev fuel rc s' hret
    have hpool := hret
    simp only [allocatePage, returns_bind, returns_headerOf] at hpool
    obtain ⟨hdrFrame, _, ⟨hopen, rfl⟩, hpool⟩ := hpool
    cases hfree : hdrFrame.header.freePage with
    | some i =>
      exfalso
      have hget := (returns_allocatePage_reuse hopen hfree).mp hret
      obtain ⟨-, -, hnone, -⟩ := returns_getThisPage hget
      have hnone := (frame?_reusing_eq_none hdrFrame.header).mp hnone
      simp only [getThisPage, returns_bind, returns_get] at hget
      obtain ⟨_, _, ⟨rfl, rfl⟩, hget⟩ := hget
      rw [BPFrameManager.get_eq_none.mpr ((frame?_reusing_eq_none hdrFrame.header).mpr hnone)] at hget
      simp only [returns_bind] at hget
      obtain ⟨_, _, halloc, -⟩ := hget
      have htakes := takesFrame_of_returns halloc
      exact h hdrFrame i hopen hfree hnone (hasRoom_of_takesFrame hdrFrame.header hnone htakes)
    | none =>
      rw [hfree] at hpool
      simp only at hpool
      split_ifs at hpool
      · obtain ⟨-, rfl⟩ := returns_pure.mp hpool
        exact ⟨rfl, rfl⟩
      · exfalso
        simp only [returns_bind, returns_modify] at hpool
        obtain ⟨_, _, rfl, _, s₁, halloc, hpool⟩ := hpool
        obtain ⟨rfl, -⟩ := returns_allocateFrame halloc
        simp only [returns_bind, returns_modify, returns_pure] at hpool
        obtain ⟨_, _, -, _, _, -, _, _, -, hok, -⟩ := hpool
        cases hok

/-- A pool whose second page is free, and a free frame. -/
def oneFreePage : BufferPoolManager Unit where
  frameManager := {
    frames := AList.insert (⟨1, 0⟩ : FrameId) (⟨1, false, Page.zero⟩ : Frame) ∅
    free := [⟨0, false, Page.zero⟩]
    unpinned := by simp }
  pools := fun id => if id = 1 then some ⟨⟨2, 1, fun i => i = 0⟩, 1⟩ else none
  log := []
  devices := ()

/-- A read that fails leaves the page allocated. -/
theorem oneFreePage_not_atomic : ¬ AtomicOnFailure (unreadable Unit) 1 1 oneFreePage := by
  intro h
  obtain ⟨hheader, -⟩ := h .ioerrRead _ rfl
  exact absurd (congrArg (Option.map BPFileHeader.allocatedPages) hheader) (by decide)

end BufferPoolManager

end ObHtap
