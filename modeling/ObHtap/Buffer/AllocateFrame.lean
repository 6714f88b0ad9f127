import ObHtap.Buffer.PoolSpec

/-!
# When a frame can be had

`allocate_frame` asks again and again for a frame and, while there is none, for one frame to be
purged.  It does not look at what the purge has done, and the purge always tries the frame that
has not been used for the longest time.
-/

namespace ObHtap

namespace BPFrameManager

variable {manager : BPFrameManager} {id : FrameId}

theorem alloc_eq_none :
    manager.alloc id = none ↔ manager.frames.lookup id = none ∧ manager.free = [] := by
  rw [← get_eq_none]
  unfold alloc
  cases hget : manager.get id with
  | some held => simp
  | none =>
    simp only [true_and]
    split
    · rename_i hfree
      simp [hfree]
    · rename_i frame free hfree
      simp [hfree]

theorem lookup_alloc {manager' : BPFrameManager} (h : manager.alloc id = some manager') :
    (manager'.frames.lookup id).isSome := by
  unfold alloc get at h
  cases hlookup : manager.frames.lookup id with
  | some frame =>
    rw [hlookup] at h
    obtain rfl := Option.some.inj h
    simp
  | none =>
    rw [hlookup] at h
    simp only at h
    split at h
    · cases h
    · obtain rfl := Option.some.inj h
      simp

theorem exists_freeFrame (h : manager.pinCount id = 1) :
    ∃ manager', manager.freeFrame id = some manager' ∧ manager'.free ≠ [] := by
  unfold freeFrame
  cases hlookup : manager.frames.lookup id with
  | none =>
    rw [pinCount_of_none hlookup] at h
    omega
  | some frame =>
    rw [pinCount_of_lookup hlookup] at h
    simp only [dif_pos h]
    exact ⟨_, rfl, by simp⟩

end BPFrameManager

namespace BufferPoolManager

variable {σ : Type} {dev : Devices σ} {s s' : BufferPoolManager σ} {id victim : FrameId}
  {frame : Frame} {bufferPoolId : Int} {fuel : Nat}

/-! ## What can be purged -/

/-- The devices after `n` attempts to write a frame. -/
def attempts (dev : Devices σ) (id : FrameId) (frame : Frame) (n : Nat) (devices : σ) : σ :=
  (fun devices => (writeFrame dev id frame devices).2)^[n] devices

/-- The frame can be purged to make room in a pool: it is clean, or it can be written some time,
or it is of another pool that is open. -/
def Purgeable (dev : Devices σ) (bufferPoolId : Int) (s : BufferPoolManager σ) (victim : FrameId)
    (frame : Frame) : Prop :=
  frame.dirty = true →
    if victim.bufferPoolId = bufferPoolId then
      ∃ n, (writeFrame dev victim frame (attempts dev victim frame n s.devices)).1 = .ok ()
    else s.openPools victim.bufferPoolId = true

/-- There is a frame for the page, or one that is free, or one that can be purged. -/
def CanAllocate (dev : Devices σ) (id : FrameId) (s : BufferPoolManager σ) : Prop :=
  s.frame? id ≠ none ∨ s.frameManager.free ≠ [] ∨
    ∃ victim frame, s.frame? victim = some frame ∧ frame.pinCount = 0 ∧
      Purgeable dev id.bufferPoolId s victim frame

/-- `allocate_frame` returns, with a frame when there is one to be had and with
`BUFFERPOOL_NOBUF` otherwise. -/
def AllocatesOrFails (dev : Devices σ) (id : FrameId) (s : BufferPoolManager σ) : Prop :=
  ∃ fuel rc s', Returns (allocateFrame dev id fuel) s rc s' ∧
    (CanAllocate dev id s → rc = .ok () ∧ s'.frame? id ≠ none) ∧
    (¬ CanAllocate dev id s → rc = .error .nobuf)

/-- There is a frame for the page, or one that is free, or the unpinned frame that has not been
used for the longest time can be purged. -/
def TakesFrame (dev : Devices σ) (id : FrameId) (s : BufferPoolManager σ) : Prop :=
  s.frame? id ≠ none ∨ s.frameManager.free ≠ [] ∨
    ∃ victim frame, s.frameManager.frames.oldest? Frame.canPurge = some ⟨victim, frame⟩ ∧
      Purgeable dev id.bufferPoolId s victim frame

theorem TakesFrame.canAllocate (h : TakesFrame dev id s) : CanAllocate dev id s := by
  refine h.imp_right (Or.imp_right ?_)
  rintro ⟨victim, frame, holdest, hpurge⟩
  obtain ⟨hlookup, hpin⟩ := LruCache.lookup_of_oldest? holdest
  exact ⟨victim, frame, hlookup, (Frame.canPurge_iff frame).mp hpin, hpurge⟩

/-! ## One purge -/

/-- What the purger of `allocate_frame` returns, and the devices after it. -/
def purgerResult (dev : Devices σ) (bufferPoolId : Int) (s : BufferPoolManager σ) (victim : FrameId)
    (frame : Frame) : Except RC Unit × σ :=
  if frame.dirty then
    if victim.bufferPoolId = bufferPoolId then writeFrame dev victim frame s.devices
    else if s.openPools victim.bufferPoolId then (.ok (), s.devices)
    else (.error .internal, s.devices)
  else (.ok (), s.devices)

/-- A write leaves the frame with its checksum, and clean if it succeeds. -/
theorem flushPageInternal_returns (dev : Devices σ) (h : s.frame? victim = some frame) :
    ∃ s₁ f, Returns (flushPageInternal dev victim) s (writeFrame dev victim frame s.devices).1 s₁ ∧
      s₁.frameManager = s.frameManager.modify victim f ∧ s₁.pools = s.pools ∧
      s₁.devices = (writeFrame dev victim frame s.devices).2 ∧
      (∀ frame, (f frame).pinCount = frame.pinCount) ∧
      ((writeFrame dev victim frame s.devices).1 ≠ .ok () → f = Frame.setCheckSum) := by
  have hat : Returns (frameAt victim) s frame s := returns_frameAt.mpr ⟨h, rfl⟩
  cases hwrite : writeFrame dev victim frame s.devices with
  | mk rc devices =>
    cases rc with
    | ok =>
      refine ⟨{ s.setFrame victim (Frame.clearDirty ∘ Frame.setCheckSum) with devices }, _, ?_,
        rfl, rfl, rfl, fun _ => rfl, fun hc => (hc rfl).elim⟩
      simp only [flushPageInternal, returns_bind, returns_get]
      refine ⟨frame, s, hat, s, s, ⟨rfl, rfl⟩, ?_⟩
      simp only [hwrite, returns_bind, returns_set, returns_pure]
      refine ⟨(), _, rfl, trivial, ?_⟩
      simp only [setFrame, BPFrameManager.modify, LruCache.modify_modify]
    | error e =>
      refine ⟨{ s.setFrame victim Frame.setCheckSum with devices }, _, ?_, rfl, rfl, rfl,
        fun _ => rfl, fun _ => rfl⟩
      simp only [flushPageInternal, returns_bind, returns_get]
      refine ⟨frame, s, hat, s, s, ⟨rfl, rfl⟩, ?_⟩
      simp only [hwrite, returns_bind, returns_set, returns_pure]
      exact ⟨(), _, rfl, trivial, rfl⟩

theorem purger_returns (dev : Devices σ) (bufferPoolId : Int) (h : s.frame? victim = some frame) :
    ∃ s₁ f, Returns (purger dev bufferPoolId victim) s
        (purgerResult dev bufferPoolId s victim frame).1 s₁ ∧
      s₁.frameManager = s.frameManager.modify victim f ∧ s₁.pools = s.pools ∧
      s₁.devices = (purgerResult dev bufferPoolId s victim frame).2 ∧
      (∀ frame, (f frame).pinCount = frame.pinCount) ∧
      ((purgerResult dev bufferPoolId s victim frame).1 ≠ .ok () →
        f = Frame.setCheckSum ∨ f = fun frame => frame) := by
  have hat : Returns (frameAt victim) s frame s := returns_frameAt.mpr ⟨h, rfl⟩
  have hsame : s.frameManager = s.frameManager.modify victim fun frame => frame := by
    rw [BPFrameManager.modify, LruCache.modify_self]
  simp only [purger, returns_bind, purgerResult]
  by_cases hdirty : frame.dirty = true
  · by_cases hown : victim.bufferPoolId = bufferPoolId
    · obtain ⟨s₁, f, hret, hmanager, hpools, hdevices, hpins, hsum⟩ :=
        flushPageInternal_returns dev h
      simp only [hdirty, hown, if_true]
      exact ⟨s₁, f, ⟨frame, s, hat, by simpa [hdirty] using hret⟩, hmanager, hpools, hdevices, hpins,
        fun hc => Or.inl (hsum hc)⟩
    · refine ⟨s, fun frame => frame, ⟨frame, s, hat, ?_⟩, hsame, rfl, ?_, fun _ => rfl,
        fun _ => Or.inr rfl⟩
      · simp only [hdirty, hown, if_true, if_false, flushPage, returns_bind, returns_get]
        refine ⟨s, s, ⟨rfl, rfl⟩, ?_⟩
        unfold openPools
        split_ifs <;> exact returns_pure.mpr ⟨rfl, rfl⟩
      · simp only [hdirty, hown, if_true, if_false]
        split_ifs <;> rfl
  · refine ⟨s, fun frame => frame, ⟨frame, s, hat, ?_⟩, hsame, rfl, ?_, fun _ => rfl,
        fun _ => Or.inr rfl⟩
    · simp only [hdirty, Bool.false_eq_true, if_false]
      exact returns_pure.mpr ⟨rfl, rfl⟩
    · simp only [hdirty, Bool.false_eq_true, if_false]

theorem purgeFrames_frees
    (holdest : s.frameManager.frames.oldest? Frame.canPurge = some ⟨victim, frame⟩)
    (hok : (purgerResult dev bufferPoolId s victim frame).1 = .ok ()) :
    ∃ s', Returns (purgeFrames dev bufferPoolId) s () s' ∧ s'.frameManager.free ≠ [] := by
  obtain ⟨hlookup, hpin⟩ := LruCache.lookup_of_oldest? holdest
  rw [Frame.canPurge_iff] at hpin
  have hpinned : (s.setFrame victim Frame.pin).frame? victim = some frame.pin := by
    rw [frame?, setFrame, BPFrameManager.modify, LruCache.lookup_modify_self, hlookup]
    rfl
  obtain ⟨s₁, f, hret, hmanager, -, -, hpins, -⟩ :=
    purger_returns dev bufferPoolId hpinned
  have hone : s₁.frameManager.pinCount victim = 1 := by
    rw [hmanager, BPFrameManager.pinCount_modify_of_eq _ _ hpins,
      BPFrameManager.pinCount_of_lookup hpinned, Frame.pinCount_pin, hpin]
  obtain ⟨manager', hfree, hne⟩ := BPFrameManager.exists_freeFrame hone
  refine ⟨{ s₁ with frameManager := manager' }, ?_, hne⟩
  simp only [purgeFrames, returns_bind, returns_get]
  refine ⟨s, s, ⟨rfl, rfl⟩, ?_⟩
  rw [holdest]
  simp only [returns_bind, returns_set]
  refine ⟨(), _, rfl, _, s₁, hret, ?_⟩
  rw [show (purgerResult dev bufferPoolId (s.setFrame victim Frame.pin) victim frame.pin).1 =
    .ok () from hok]
  simp only [freeFrame, returns_bind, returns_get]
  refine ⟨s₁, s₁, ⟨rfl, rfl⟩, ?_⟩
  rw [hfree]
  exact returns_set.mpr rfl

/-- A purge that fails leaves the frames as they are, but for a checksum. -/
theorem purgeFrames_fails
    (holdest : s.frameManager.frames.oldest? Frame.canPurge = some ⟨victim, frame⟩)
    (hfail : (purgerResult dev bufferPoolId s victim frame).1 ≠ .ok ()) :
    ∃ s' f, Returns (purgeFrames dev bufferPoolId) s () s' ∧
      s'.frameManager = s.frameManager.modify victim f ∧ s'.pools = s.pools ∧
      s'.devices = (purgerResult dev bufferPoolId s victim frame).2 ∧
      (f = Frame.setCheckSum ∨ f = fun frame => frame) := by
  obtain ⟨hlookup, -⟩ := LruCache.lookup_of_oldest? holdest
  have hpinned : (s.setFrame victim Frame.pin).frame? victim = some frame.pin := by
    rw [frame?, setFrame, BPFrameManager.modify, LruCache.lookup_modify_self, hlookup]
    rfl
  obtain ⟨s₁, f, hret, hmanager, hpools, hdevices, -, hsum⟩ :=
    purger_returns dev bufferPoolId hpinned
  have hf := hsum hfail
  refine ⟨s₁.setFrame victim Frame.unpin, f, ?_, ?_, hpools, hdevices, hf⟩
  · simp only [purgeFrames, returns_bind, returns_get]
    refine ⟨s, s, ⟨rfl, rfl⟩, ?_⟩
    rw [holdest]
    simp only [returns_bind, returns_set]
    refine ⟨(), _, rfl, _, s₁, hret, ?_⟩
    cases hrc : (purgerResult dev bufferPoolId (s.setFrame victim Frame.pin) victim frame.pin).1 with
    | ok => exact (hfail hrc).elim
    | error e => exact returns_modify.mpr rfl
  · -- the pin that was taken and given back
    have hcomp : Frame.unpin ∘ f ∘ Frame.pin = f := by
      rcases hf with rfl | rfl <;> rfl
    rw [setFrame, hmanager, setFrame]
    simp only [BPFrameManager.modify, LruCache.modify_modify, hcomp]

/-- The attempts that are left after one that has failed. -/
theorem purgeable_iff {f : Frame → Frame} (hf : f = Frame.setCheckSum ∨ f = fun frame => frame)
    (hpools : s'.pools = s.pools)
    (hdevices : s'.devices = (purgerResult dev bufferPoolId s victim frame).2)
    (hfail : (purgerResult dev bufferPoolId s victim frame).1 ≠ .ok ()) :
    Purgeable dev bufferPoolId s' victim (f frame) ↔ Purgeable dev bufferPoolId s victim frame := by
  have hwrite : writeFrame dev victim (f frame) = writeFrame dev victim frame := by
    rcases hf with rfl | rfl <;> rfl
  have hdirty : (f frame).dirty = frame.dirty := by
    rcases hf with rfl | rfl <;> rfl
  have hopen : s'.openPools = s.openPools := by
    funext other
    rw [openPools, hpools]
    rfl
  unfold purgerResult at hfail hdevices
  unfold Purgeable attempts
  rw [hdirty, hwrite, hopen]
  by_cases hd : frame.dirty = true
  · by_cases hown : victim.bufferPoolId = bufferPoolId
    · simp only [hd, hown, if_true] at hfail hdevices ⊢
      simp only [forall_const, hdevices]
      constructor
      · rintro ⟨n, hn⟩
        exact ⟨n + 1, hn⟩
      · rintro ⟨n, hn⟩
        cases n with
        | zero => exact (hfail hn).elim
        | succ n => exact ⟨n, hn⟩
    · simp only [hown, if_false]
  · simp [hd]

theorem purgeable_of_ok (hok : (purgerResult dev bufferPoolId s victim frame).1 = .ok ()) :
    Purgeable dev bufferPoolId s victim frame := by
  intro hdirty
  unfold purgerResult at hok
  rw [if_pos hdirty] at hok
  split_ifs at hok ⊢ with hown hopen
  · exact ⟨0, hok⟩
  · exact hopen

/-! ## The loop -/

theorem allocateFrame_of_alloc (dev : Devices σ) (id : FrameId) (fuel : Nat)
    (h : s.frame? id ≠ none ∨ s.frameManager.free ≠ []) :
    ∃ s', Returns (allocateFrame dev id (fuel + 1)) s (.ok ()) s' ∧ s'.frame? id ≠ none := by
  obtain ⟨manager', halloc⟩ : ∃ manager', s.frameManager.alloc id = some manager' := by
    rw [← Option.ne_none_iff_exists']
    intro hc
    obtain ⟨hnone, hfree⟩ := BPFrameManager.alloc_eq_none.mp hc
    exact h.elim (fun hn => hn hnone) fun hn => hn hfree
  refine ⟨{ s with frameManager := manager' }, ?_,
    Option.isSome_iff_ne_none.mp (BPFrameManager.lookup_alloc halloc)⟩
  simp only [allocateFrame, returns_bind, returns_get]
  refine ⟨s, s, ⟨rfl, rfl⟩, ?_⟩
  rw [halloc]
  simp only [returns_bind, returns_set, returns_pure]
  exact ⟨(), _, rfl, trivial, rfl⟩

theorem returns_allocateFrame_succ {rc : Except RC Unit} (hnone : s.frame? id = none)
    (hfree : s.frameManager.free = []) :
    Returns (allocateFrame dev id (fuel + 1)) s rc s' ↔
      ∃ s₁, Returns (purgeFrames dev id.bufferPoolId) s () s₁ ∧
        Returns (allocateFrame dev id fuel) s₁ rc s' := by
  have halloc := BPFrameManager.alloc_eq_none.mpr ⟨hnone, hfree⟩
  rw [allocateFrame, returns_bind]
  simp only [returns_get]
  constructor
  · rintro ⟨_, _, ⟨rfl, rfl⟩, h⟩
    rw [halloc, returns_bind] at h
    obtain ⟨_, s₁, hpurge, h⟩ := h
    exact ⟨s₁, hpurge, h⟩
  · rintro ⟨s₁, hpurge, h⟩
    refine ⟨s, s, ⟨rfl, rfl⟩, ?_⟩
    rw [halloc, returns_bind]
    exact ⟨(), s₁, hpurge, h⟩

/-- What the oldest frame is after a purge that has failed. -/
theorem oldest?_of_fails {f : Frame → Frame} (hf : f = Frame.setCheckSum ∨ f = fun frame => frame)
    (hmanager : s'.frameManager = s.frameManager.modify victim f)
    (holdest : s.frameManager.frames.oldest? Frame.canPurge = some ⟨victim, frame⟩) :
    s'.frameManager.frames.oldest? Frame.canPurge = some ⟨victim, f frame⟩ := by
  have hpurge : ∀ frame, Frame.canPurge (f frame) = Frame.canPurge frame := by
    rcases hf with rfl | rfl <;> exact fun _ => rfl
  rw [hmanager, BPFrameManager.modify, LruCache.oldest?_modify hpurge, holdest]
  simp

theorem exists_allocateFrame_of_ok
    (holdest : s.frameManager.frames.oldest? Frame.canPurge = some ⟨victim, frame⟩)
    (hok : (purgerResult dev id.bufferPoolId s victim frame).1 = .ok ()) :
    ∃ fuel s', Returns (allocateFrame dev id fuel) s (.ok ()) s' ∧ s'.frame? id ≠ none := by
  by_cases h : s.frame? id ≠ none ∨ s.frameManager.free ≠ []
  · obtain ⟨s', hs'⟩ := allocateFrame_of_alloc dev id 0 h
    exact ⟨1, s', hs'⟩
  · push Not at h
    obtain ⟨s₁, hpurge, hfree⟩ := purgeFrames_frees holdest hok
    obtain ⟨s', hret, hframe⟩ := allocateFrame_of_alloc dev id 0 (Or.inr hfree)
    exact ⟨2, s', (returns_allocateFrame_succ h.1 h.2).mpr ⟨s₁, hpurge, hret⟩, hframe⟩

/-- The loop ends where the oldest unpinned frame can be written some time. -/
theorem exists_allocateFrame_of_attempt {n : Nat}
    (holdest : s.frameManager.frames.oldest? Frame.canPurge = some ⟨victim, frame⟩)
    (hdirty : frame.dirty = true) (hown : victim.bufferPoolId = id.bufferPoolId)
    (hn : (writeFrame dev victim frame (attempts dev victim frame n s.devices)).1 = .ok ()) :
    ∃ fuel s', Returns (allocateFrame dev id fuel) s (.ok ()) s' ∧ s'.frame? id ≠ none := by
  induction n generalizing s frame with
  | zero =>
    apply exists_allocateFrame_of_ok holdest
    rw [purgerResult, if_pos hdirty, if_pos hown]
    exact hn
  | succ n ih =>
    have hresult : purgerResult dev id.bufferPoolId s victim frame =
        writeFrame dev victim frame s.devices := by
      rw [purgerResult, if_pos hdirty, if_pos hown]
    by_cases hok : (purgerResult dev id.bufferPoolId s victim frame).1 = .ok ()
    · exact exists_allocateFrame_of_ok holdest hok
    by_cases h : s.frame? id ≠ none ∨ s.frameManager.free ≠ []
    · obtain ⟨s', hs'⟩ := allocateFrame_of_alloc dev id 0 h
      exact ⟨1, s', hs'⟩
    · push Not at h
      obtain ⟨s₁, f, hpurge, hmanager, -, hdevices, hf⟩ := purgeFrames_fails holdest hok
      have hwrite : writeFrame dev victim (f frame) = writeFrame dev victim frame := by
        rcases hf with rfl | rfl <;> rfl
      have hdirty' : (f frame).dirty = true := by
        rcases hf with rfl | rfl <;> exact hdirty
      have hn' : (writeFrame dev victim (f frame)
          (attempts dev victim (f frame) n s₁.devices)).1 = .ok () := by
        unfold attempts
        rw [hwrite, hdevices, hresult]
        exact hn
      obtain ⟨fuel, s', hret, hframe⟩ := ih (oldest?_of_fails hf hmanager holdest) hdirty' hn'
      exact ⟨fuel + 1, s', (returns_allocateFrame_succ h.1 h.2).mpr ⟨s₁, hpurge, hret⟩, hframe⟩

theorem TakesFrame.exists_allocateFrame (h : TakesFrame dev id s) :
    ∃ fuel s', Returns (allocateFrame dev id fuel) s (.ok ()) s' ∧ s'.frame? id ≠ none := by
  by_cases hthere : s.frame? id ≠ none ∨ s.frameManager.free ≠ []
  · obtain ⟨s', hs'⟩ := allocateFrame_of_alloc dev id 0 hthere
    exact ⟨1, s', hs'⟩
  push Not at hthere
  obtain ⟨victim, frame, holdest, hpurge⟩ :=
    (h.resolve_left (not_not.mpr hthere.1)).resolve_left (not_not.mpr hthere.2)
  by_cases hdirty : frame.dirty = true
  · have hpurge := hpurge hdirty
    split_ifs at hpurge with hown
    · obtain ⟨n, hn⟩ := hpurge
      exact exists_allocateFrame_of_attempt holdest hdirty hown hn
    · apply exists_allocateFrame_of_ok holdest
      rw [purgerResult, if_pos hdirty, if_neg hown, if_pos hpurge]
  · apply exists_allocateFrame_of_ok holdest
    rw [purgerResult, if_neg hdirty]

theorem takesFrame_of_returns {rc : Except RC Unit}
    (h : Returns (allocateFrame dev id fuel) s rc s') : TakesFrame dev id s := by
  induction fuel generalizing s with
  | zero => exact (not_returns_throw h).elim
  | succ fuel ih =>
    by_cases hthere : s.frame? id ≠ none ∨ s.frameManager.free ≠ []
    · exact hthere.imp_right Or.inl
    push Not at hthere
    obtain ⟨hnone, hfree⟩ := hthere
    obtain ⟨s₁, hpurge, hrest⟩ := (returns_allocateFrame_succ hnone hfree).mp h
    have hrest := ih hrest
    cases holdest : s.frameManager.frames.oldest? Frame.canPurge with
    | none =>
      -- nothing is unpinned, and the purge has done nothing
      simp only [purgeFrames, returns_bind, returns_get] at hpurge
      obtain ⟨_, _, ⟨rfl, rfl⟩, hpurge⟩ := hpurge
      rw [holdest] at hpurge
      obtain ⟨-, rfl⟩ := returns_pure.mp hpurge
      exact hrest
    | some e =>
      obtain ⟨victim, frame⟩ := e
      refine Or.inr (Or.inr ⟨victim, frame, holdest, ?_⟩)
      by_cases hok : (purgerResult dev id.bufferPoolId s victim frame).1 = .ok ()
      · exact purgeable_of_ok hok
      obtain ⟨s₂, f, hpurge', hmanager, hpools, hdevices, hf⟩ := purgeFrames_fails holdest hok
      obtain ⟨-, rfl⟩ := hpurge.unique hpurge'
      have hnone₁ : s₁.frame? id = none := by
        rw [frame?, hmanager, BPFrameManager.modify]
        by_cases hid : id = victim
        · subst hid
          rw [LruCache.lookup_modify_self]
          exact congrArg _ hnone
        · rw [LruCache.lookup_modify_of_ne hid]
          exact hnone
      have hfree₁ : s₁.frameManager.free = [] := by
        rw [hmanager]
        exact hfree
      obtain ⟨victim', frame', holdest', hpurgeable⟩ :=
        (hrest.resolve_left (not_not.mpr hnone₁)).resolve_left (not_not.mpr hfree₁)
      rw [oldest?_of_fails hf hmanager holdest] at holdest'
      cases holdest'
      exact (purgeable_iff hf hpools hdevices hok).mp hpurgeable

/-- `allocate_frame` does what it is meant to do exactly where there is a frame for the page, or a
free one, or where the unpinned frame that was not used for the longest time can be purged. -/
theorem allocatesOrFails_iff (dev : Devices σ) (id : FrameId) (s : BufferPoolManager σ) :
    AllocatesOrFails dev id s ↔ TakesFrame dev id s := by
  constructor
  · rintro ⟨fuel, rc, s', hret, -⟩
    exact takesFrame_of_returns hret
  · intro h
    obtain ⟨fuel, s', hret, hframe⟩ := h.exists_allocateFrame
    exact ⟨fuel, .ok (), s', hret, fun _ => ⟨rfl, hframe⟩, fun hc => (hc h.canAllocate).elim⟩

/-- A pool with its header in the only frame that there is. -/
def headerOnly : BufferPoolManager Unit where
  frameManager := {
    frames := AList.insert (⟨1, 0⟩ : FrameId) (⟨1, false, Page.zero⟩ : Frame) ∅
    free := []
    unpinned := BPFrameManager.unpinned_nil }
  pools := fun id => if id = 1 then some ⟨⟨2, 2, fun _ => true⟩, 1⟩ else none
  log := []
  devices := ()

/-- With all frames pinned the loop does not end. -/
theorem headerOnly_not_allocates : ¬ AllocatesOrFails quietDevices ⟨1, 1⟩ headerOnly := by
  rintro ⟨fuel, rc, s', hret, -⟩
  rcases takesFrame_of_returns hret with hframe | hfree | ⟨victim, frame, holdest, -⟩
  · exact hframe rfl
  · exact hfree rfl
  · have hnone : headerOnly.frameManager.frames.oldest? Frame.canPurge = none := rfl
    rw [hnone] at holdest
    cases holdest

end BufferPoolManager

end ObHtap
