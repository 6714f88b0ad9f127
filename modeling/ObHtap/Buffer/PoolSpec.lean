import ObHtap.Buffer.BufferPool

/-!
# What the functions of a buffer pool do

When a function returns: what it has done to the pin counts, the headers and the log, and which
frames it has left alone.
-/

namespace ObHtap

namespace BufferPoolManager

variable {σ : Type} {dev : Devices σ} {s s' : BufferPoolManager σ} {id : FrameId} {frame : Frame}
  {rc : Except RC Unit} {fuel : Nat}

/-- The pin counts of all frames. -/
def pins (s : BufferPoolManager σ) : FrameId → Nat := s.frameManager.pinCount

/-- The frame of a page, if it is in memory. -/
def frame? (s : BufferPoolManager σ) (id : FrameId) : Option Frame :=
  s.frameManager.frames.lookup id

theorem pins_of_lookup (h : s.frame? id = some frame) :
    s.pins id = frame.pinCount :=
  BPFrameManager.pinCount_of_lookup h

theorem pins_setFrame_of_eq {f : Frame → Frame} (hf : ∀ frame, (f frame).pinCount = frame.pinCount) :
    (s.setFrame id f).pins = s.pins :=
  BPFrameManager.pinCount_modify_of_eq _ _ hf

theorem frame?_setFrame_of_ne {f : Frame → Frame} {other : FrameId} (h : other ≠ id) :
    (s.setFrame id f).frame? other = s.frame? other :=
  LruCache.lookup_modify_of_ne h f

theorem pins_setFrame {f : Frame → Frame} (h : s.frame? id = some frame) :
    (s.setFrame id f).pins = Function.update s.pins id (f frame).pinCount :=
  BPFrameManager.pinCount_modify _ _ _ h

theorem returns_frameAt :
    Returns (frameAt id) s frame s' ↔
      s.frame? id = some frame ∧ s = s' := by
  simp only [frameAt, returns_bind, returns_get]
  constructor
  · rintro ⟨_, _, ⟨rfl, rfl⟩, h⟩
    split at h
    · rename_i found hlookup
      obtain ⟨rfl, rfl⟩ := returns_pure.mp h
      exact ⟨hlookup, rfl⟩
    · exact (not_returns_throw h).elim
  · rintro ⟨hlookup, rfl⟩
    refine ⟨s, s, ⟨rfl, rfl⟩, ?_⟩
    rw [frame?] at hlookup
    rw [hlookup]
    exact returns_pure.mpr ⟨rfl, rfl⟩

theorem returns_freeFrame {u : Unit} (h : Returns (freeFrame id) s u s') :
    s.pins id = 1 ∧ s'.pins = Function.update s.pins id 0 ∧ s'.pools = s.pools ∧
      s'.log = s.log ∧ s'.devices = s.devices ∧
      ∀ other, other ≠ id → s'.frame? other = s.frame? other := by
  simp only [freeFrame, returns_bind, returns_get] at h
  obtain ⟨_, _, ⟨rfl, rfl⟩, h⟩ := h
  split at h
  · rename_i frameManager hfree
    obtain rfl := returns_set.mp h
    exact ⟨BPFrameManager.freeFrame_eq_some.mp ⟨_, hfree⟩,
      BPFrameManager.pinCount_freeFrame hfree, rfl, rfl, rfl,
      fun other hne => BPFrameManager.lookup_freeFrame_of_ne hfree hne⟩
  · exact (not_returns_throw h).elim

theorem returns_flushPageInternal (h : Returns (flushPageInternal dev id) s rc s') :
    ∃ frame, s.frame? id = some frame ∧
      (rc, s'.devices) = writeFrame dev id frame s.devices ∧
      s'.pins = s.pins ∧ s'.pools = s.pools ∧ s'.log = s.log ∧
      ∀ other, other ≠ id → s'.frame? other = s.frame? other := by
  simp only [flushPageInternal, returns_bind, returns_frameAt, returns_get] at h
  obtain ⟨frame, _, ⟨hlookup, rfl⟩, _, _, ⟨rfl, rfl⟩, h⟩ := h
  refine ⟨frame, hlookup, ?_⟩
  cases hwrite : writeFrame dev id frame s.devices with
  | mk wrote devices =>
    have hchecked : ({ s.setFrame id Frame.setCheckSum with devices } : BufferPoolManager σ).pins =
        s.pins := pins_setFrame_of_eq Frame.pinCount_setCheckSum
    cases wrote with
    | ok =>
      simp only [hwrite, returns_bind, returns_set, returns_pure] at h
      obtain ⟨_, _, rfl, rfl, rfl⟩ := h
      exact ⟨rfl, (pins_setFrame_of_eq Frame.pinCount_clearDirty).trans hchecked, rfl, rfl,
        fun other hne => (frame?_setFrame_of_ne hne).trans (frame?_setFrame_of_ne hne)⟩
    | error e =>
      simp only [hwrite, returns_bind, returns_set, returns_pure] at h
      obtain ⟨_, _, rfl, rfl, rfl⟩ := h
      exact ⟨rfl, hchecked, rfl, rfl, fun other hne => frame?_setFrame_of_ne hne⟩

theorem returns_loadPage (h : Returns (loadPage dev id) s rc s') :
    s'.pins = s.pins ∧ s'.pools = s.pools ∧ s'.log = s.log := by
  simp only [loadPage, returns_bind, returns_frameAt, returns_get, returns_set, returns_pure] at h
  obtain ⟨frame, _, ⟨-, rfl⟩, _, _, ⟨rfl, rfl⟩, _, _, rfl, rfl, rfl⟩ := h
  exact ⟨pins_setFrame_of_eq fun _ => rfl, rfl, rfl⟩

theorem returns_purger {bufferPoolId : Int} (h : Returns (purger dev bufferPoolId id) s rc s') :
    s'.pins = s.pins ∧ s'.pools = s.pools ∧ s'.log = s.log := by
  simp only [purger, returns_bind, returns_frameAt] at h
  obtain ⟨frame, _, ⟨-, rfl⟩, h⟩ := h
  split_ifs at h
  · obtain ⟨-, -, -, hpins, hpools, hlog, -⟩ := returns_flushPageInternal h
    exact ⟨hpins, hpools, hlog⟩
  · simp only [flushPage, returns_bind, returns_get] at h
    obtain ⟨_, _, ⟨rfl, rfl⟩, h⟩ := h
    split_ifs at h
    · obtain ⟨rfl, rfl⟩ := returns_pure.mp h
      exact ⟨rfl, rfl, rfl⟩
    · obtain ⟨rfl, rfl⟩ := returns_pure.mp h
      exact ⟨rfl, rfl, rfl⟩
  · obtain ⟨rfl, rfl⟩ := returns_pure.mp h
    exact ⟨rfl, rfl, rfl⟩

/-- Only frames that nobody has pinned are purged to make room. -/
theorem returns_purgeFrames {bufferPoolId : Int} {u : Unit}
    (h : Returns (purgeFrames dev bufferPoolId) s u s') :
    s'.pins = s.pins ∧ s'.pools = s.pools ∧ s'.log = s.log := by
  simp only [purgeFrames, returns_bind, returns_get] at h
  obtain ⟨_, _, ⟨rfl, rfl⟩, h⟩ := h
  split at h
  · obtain ⟨-, rfl⟩ := returns_pure.mp h
    exact ⟨rfl, rfl, rfl⟩
  · rename_i victim frame holdest
    obtain ⟨hlookup, hpurge⟩ := LruCache.lookup_of_oldest? holdest
    rw [Frame.canPurge_iff] at hpurge
    have hzero : s.pins victim = 0 := (pins_of_lookup hlookup).trans hpurge
    simp only [returns_bind, returns_set] at h
    obtain ⟨_, s₁, rfl, rc, s₂, hpurger, h⟩ := h
    obtain ⟨hpins, hpools, hlog⟩ := returns_purger hpurger
    rw [pins_setFrame hlookup, Frame.pinCount_pin, hpurge] at hpins
    cases rc with
    | ok =>
      obtain ⟨-, hfreed, hpools', hlog', -, -⟩ := returns_freeFrame h
      refine ⟨?_, hpools'.trans hpools, hlog'.trans hlog⟩
      rw [hfreed, hpins, Function.update_idem, ← hzero, Function.update_eq_self]
    | error e =>
      obtain rfl := returns_modify.mp h
      refine ⟨?_, hpools, hlog⟩
      have hone : s₂.pins victim = 1 := by rw [hpins, Function.update_self]
      obtain ⟨held, hheld⟩ : ∃ held, s₂.frame? victim = some held := by
        cases hl : s₂.frame? victim with
        | some held => exact ⟨held, rfl⟩
        | none =>
          have := BPFrameManager.pinCount_of_none hl
          rw [pins, this] at hone
          omega
      rw [pins_of_lookup hheld] at hone
      rw [pins_setFrame hheld, Frame.pinCount_unpin, hone, hpins, Function.update_idem, Nat.sub_self,
        ← hzero, Function.update_eq_self]

theorem returns_allocateFrame (h : Returns (allocateFrame dev id fuel) s rc s') :
    rc = .ok () ∧ s'.pins = Function.update s.pins id (s.pins id + 1) ∧ s'.pools = s.pools ∧
      s'.log = s.log := by
  induction fuel generalizing s with
  | zero => exact (not_returns_throw h).elim
  | succ fuel ih =>
    simp only [allocateFrame, returns_bind, returns_get] at h
    obtain ⟨_, _, ⟨rfl, rfl⟩, h⟩ := h
    split at h
    · rename_i frameManager halloc
      simp only [returns_bind, returns_set, returns_pure] at h
      obtain ⟨_, _, rfl, rfl, rfl⟩ := h
      exact ⟨rfl, BPFrameManager.pinCount_alloc halloc, rfl, rfl⟩
    · simp only [returns_bind] at h
      obtain ⟨_, s₁, hpurge, h⟩ := h
      obtain ⟨hpins, hpools, hlog⟩ := returns_purgeFrames hpurge
      have hrest := ih h
      rwa [hpins, hpools, hlog] at hrest

/-- The frame is written, if it has to be. -/
def Written (dev : Devices σ) (id : FrameId) (frame : Frame) (devices : σ) : Prop :=
  frame.dirty = true → (writeFrame dev id frame devices).1 = .ok ()

/-- A frame is purged when it is pinned once, and clean or written; otherwise its pin stays. -/
theorem returns_purgeFrame (h : Returns (purgeFrame dev id) s rc s') :
    ∃ frame, s.frame? id = some frame ∧ s'.pools = s.pools ∧ s'.log = s.log ∧
      (∀ other, other ≠ id → s'.frame? other = s.frame? other) ∧
      (frame.pinCount = 1 ∧ Written dev id frame s.devices ∧
          s'.pins = Function.update s.pins id 0 ∧
          s'.devices = (if frame.dirty then (writeFrame dev id frame s.devices).2 else s.devices) ∨
        ¬ (frame.pinCount = 1 ∧ Written dev id frame s.devices) ∧ s'.pins = s.pins) := by
  simp only [purgeFrame, returns_bind, returns_frameAt] at h
  obtain ⟨frame, _, ⟨hlookup, rfl⟩, h⟩ := h
  refine ⟨frame, hlookup, ?_⟩
  by_cases hpin : frame.pinCount = 1
  · rw [if_neg (by simpa using hpin)] at h
    cases hdirty : frame.dirty with
    | true =>
      simp only [hdirty, if_true, returns_bind] at h
      obtain ⟨rc', s₁, hflush, h⟩ := h
      obtain ⟨frame', hlookup', hwrite, hpins, hpools, hlog, hothers⟩ :=
        returns_flushPageInternal hflush
      obtain rfl := Option.some.inj (hlookup.symm.trans hlookup')
      cases rc' with
      | error e =>
        obtain ⟨rfl, rfl⟩ := returns_pure.mp h
        refine ⟨hpools, hlog, hothers, Or.inr ⟨?_, hpins⟩⟩
        rintro ⟨-, hwritten⟩
        have := hwritten hdirty
        rw [← hwrite] at this
        cases this
      | ok =>
        simp only [returns_bind, returns_pure] at h
        obtain ⟨_, s₂, hfree, rfl, rfl⟩ := h
        obtain ⟨-, hfreed, hpools', hlog', hdevices, hothers'⟩ := returns_freeFrame hfree
        refine ⟨hpools'.trans hpools, hlog'.trans hlog,
          fun other hne => (hothers' other hne).trans (hothers other hne),
          Or.inl ⟨hpin, ?_, by rw [hfreed, hpins], ?_⟩⟩
        · rw [Written, ← hwrite]
          exact fun _ => rfl
        · rw [if_pos rfl, ← hwrite]
          exact hdevices
    | false =>
      simp only [hdirty, Bool.false_eq_true, if_false, returns_bind, returns_pure] at h
      obtain ⟨_, s₂, hfree, rfl, rfl⟩ := h
      obtain ⟨-, hfreed, hpools', hlog', hdevices, hothers⟩ := returns_freeFrame hfree
      refine ⟨hpools', hlog', hothers, Or.inl ⟨hpin, ?_, hfreed, by simpa using hdevices⟩⟩
      rw [Written, hdirty]
      simp
  · rw [if_pos (by simpa using hpin)] at h
    obtain ⟨rfl, rfl⟩ := returns_pure.mp h
    exact ⟨rfl, rfl, fun _ _ => rfl, Or.inr ⟨fun hc => hpin hc.1, rfl⟩⟩

/-! ## Pages -/

/-- The pools that are open. -/
def openPools (s : BufferPoolManager σ) (bufferPoolId : Int) : Bool :=
  (s.pools bufferPoolId).isSome

/-- When the page has to be read and can't be, the frame that was taken for it is clean or
written. -/
def Reloadable (dev : Devices σ) (fuel : Nat) (id : FrameId) (s : BufferPoolManager σ) : Prop :=
  s.frame? id = none → ∀ s₁ rc s₂ frame, Returns (allocateFrame dev id fuel) s (.ok ()) s₁ →
    Returns (loadPage dev id) s₁ (.error rc) s₂ → s₂.frame? id = some frame →
      Written dev id frame s₂.devices

theorem Reloadable.of_frame (h : s.frame? id = some frame) : Reloadable dev fuel id s := by
  intro hnone
  rw [h] at hnone
  cases hnone

/-- `get_this_page` pins the frame it gives.  When it fails it gives the pin back, or else the frame
it took could not be written. -/
theorem returns_getThisPage {got : Except RC FrameId}
    (h : Returns (getThisPage dev fuel id) s got s') :
    s'.pools = s.pools ∧ s'.log = s.log ∧
      match got with
      | .ok found => found = id ∧ Reloadable dev fuel id s ∧
          s'.pins = Function.update s.pins id (s.pins id + 1)
      | .error _ => s.frame? id = none ∧ (Reloadable dev fuel id s ↔ s'.pins = s.pins) := by
  simp only [getThisPage, returns_bind, returns_get] at h
  obtain ⟨_, _, ⟨rfl, rfl⟩, h⟩ := h
  split at h
  · rename_i frameManager hget
    simp only [returns_bind, returns_set, returns_pure] at h
    obtain ⟨_, _, rfl, rfl, rfl⟩ := h
    refine ⟨rfl, rfl, rfl, ?_, BPFrameManager.pinCount_get hget⟩
    intro hnone
    rw [BPFrameManager.get_eq_none.mpr hnone] at hget
    cases hget
  · rename_i hget
    have hnone : s.frame? id = none := BPFrameManager.get_eq_none.mp hget
    have hzero : s.pins id = 0 := BPFrameManager.pinCount_of_none hnone
    simp only [returns_bind] at h
    obtain ⟨_, s₁, halloc, h⟩ := h
    obtain ⟨rfl, hpins₁, hpools₁, hlog₁⟩ := returns_allocateFrame halloc
    simp only [returns_bind] at h
    obtain ⟨rc, s₂, hload, h⟩ := h
    obtain ⟨hpins₂, hpools₂, hlog₂⟩ := returns_loadPage hload
    have hpins : s₂.pins = Function.update s.pins id (s.pins id + 1) := hpins₂.trans hpins₁
    cases rc with
    | ok =>
      obtain ⟨rfl, rfl⟩ := returns_pure.mp h
      refine ⟨hpools₂.trans hpools₁, hlog₂.trans hlog₁, rfl, ?_, hpins⟩
      intro _ t₁ rc t₂ _ halloc' hload' _
      obtain ⟨-, rfl⟩ := halloc.unique halloc'
      cases (hload.unique hload').1
    | error e =>
      simp only [returns_bind, returns_pure] at h
      obtain ⟨_, s₃, hpurge, rfl, rfl⟩ := h
      obtain ⟨frame, hframe, hpools₃, hlog₃, -, hcases⟩ := returns_purgeFrame hpurge
      refine ⟨(hpools₃.trans hpools₂).trans hpools₁, (hlog₃.trans hlog₂).trans hlog₁, hnone, ?_⟩
      have hone : frame.pinCount = 1 := by
        rw [← pins_of_lookup hframe, hpins, Function.update_self, hzero]
      have hreload : Reloadable dev fuel id s ↔ Written dev id frame s₂.devices := by
        constructor
        · exact fun hr => hr hnone s₁ e s₂ frame halloc hload hframe
        · intro hwritten _ t₁ rc t₂ frame' halloc' hload' hframe'
          obtain ⟨-, rfl⟩ := halloc.unique halloc'
          obtain ⟨-, rfl⟩ := hload.unique hload'
          obtain rfl := Option.some.inj (hframe.symm.trans hframe')
          exact hwritten
      rw [hreload]
      rcases hcases with ⟨-, hwritten, hpins₃, -⟩ | ⟨hnot, hpins₃⟩
      · refine iff_of_true hwritten ?_
        rw [hpins₃, hpins, Function.update_idem, ← hzero, Function.update_eq_self]
      · refine iff_of_false (fun hwritten => hnot ⟨hone, hwritten⟩) fun hsame => ?_
        have hat := congrFun (hpins₃.symm.trans hsame) id
        rw [hpins, Function.update_self] at hat
        omega

theorem openPools_setHeader (s : BufferPoolManager σ) (bufferPoolId : Int) (header : BPFileHeader) :
    (s.setHeader bufferPoolId header).openPools = s.openPools := by
  funext other
  unfold openPools setHeader
  by_cases h : other = bufferPoolId
  · subst h
    simp
  · simp [h]

theorem pins_setHeader (s : BufferPoolManager σ) (bufferPoolId : Int) (header : BPFileHeader) :
    (s.setHeader bufferPoolId header).pins = s.pins :=
  pins_setFrame_of_eq Frame.pinCount_markDirty

theorem appendLog_keeps (dev : Devices σ) (bufferPoolId : Int) (operation : BufferPoolOperation)
    (pageNum : Nat) (s : BufferPoolManager σ) :
    (appendLog dev bufferPoolId operation pageNum s).frameManager = s.frameManager ∧
      (appendLog dev bufferPoolId operation pageNum s).openPools = s.openPools := by
  unfold appendLog
  split
  · refine ⟨rfl, ?_⟩
    funext other
    by_cases h : other = bufferPoolId
    · subst h
      simp [openPools]
    · simp [openPools, h]
  · refine ⟨rfl, ?_⟩
    funext other
    by_cases h : other = bufferPoolId
    · subst h
      simp [openPools]
    · simp [openPools, h]

theorem returns_headerOf {bufferPoolId : Int} {hdrFrame : HeaderFrame} :
    Returns (headerOf bufferPoolId) s hdrFrame s' ↔
      s.pools bufferPoolId = some hdrFrame ∧ s = s' := by
  simp only [headerOf, returns_bind, returns_get]
  constructor
  · rintro ⟨_, _, ⟨rfl, rfl⟩, h⟩
    split at h
    · rename_i found hfound
      obtain ⟨rfl, rfl⟩ := returns_pure.mp h
      exact ⟨hfound, rfl⟩
    · exact (not_returns_throw h).elim
  · rintro ⟨hfound, rfl⟩
    refine ⟨s, s, ⟨rfl, rfl⟩, ?_⟩
    rw [hfound]
    exact returns_pure.mpr ⟨rfl, rfl⟩

end BufferPoolManager

end ObHtap
