import ObHtap.Buffer.PoolSpec

/-!
# Pin counts

A frame is pinned by the callers that have obtained it, and the frame of a header by its open
pool.  `purge_frame` keeps the pin of a frame that it can't purge, and with it the pin that its
caller has taken to look the frame up.
-/

namespace ObHtap

open BufferPoolManager

variable {σ : Type} {dev : Devices σ} {fuel : Nat}

/-! ## Calls -/

/-- Calls of a buffer pool, and the `unpin_page` of a caller. -/
inductive BufferPoolCall where
  | getThisPage (id : FrameId)
  | allocatePage (bufferPoolId : Int)
  | disposePage (id : FrameId)
  | purgePage (id : FrameId)
  | purgeAllPages (bufferPoolId : Int)
  | unpinPage (id : FrameId)

/-- The pools, and the frames that callers have obtained and not unpinned yet, each as often as
that. -/
structure PinState (σ : Type) where
  manager : BufferPoolManager σ
  held : List FrameId

namespace PinState

/-- The state after a program that returns. -/
def after {α : Type} (s : PinState σ) (x : PoolM σ α) (held : α → List FrameId) :
    Option (PinState σ) :=
  match x s.manager with
  | .ok a manager => some ⟨manager, held a⟩
  | .error _ _ => none

/-- A caller that is given a frame holds it. -/
def obtain (s : PinState σ) : Except RC FrameId → List FrameId
  | .ok id => id :: s.held
  | .error _ => s.held

/-- A call that returns.  A frame is unpinned only by a caller that holds it. -/
def step (dev : Devices σ) (fuel : Nat) (s : PinState σ) : BufferPoolCall → Option (PinState σ)
  | .getThisPage id => s.after (BufferPoolManager.getThisPage dev fuel id) s.obtain
  | .allocatePage bufferPoolId =>
    s.after (BufferPoolManager.allocatePage dev fuel bufferPoolId) s.obtain
  | .disposePage id => s.after (BufferPoolManager.disposePage dev id) fun _ => s.held
  | .purgePage id => s.after (BufferPoolManager.purgePage dev id) fun _ => s.held
  | .purgeAllPages bufferPoolId =>
    s.after (BufferPoolManager.purgeAllPages dev bufferPoolId) fun _ => s.held
  | .unpinPage id =>
    if id ∈ s.held then s.after (BufferPoolManager.unpinPage id) fun _ => s.held.erase id else none

/-- The states that a run reaches, as long as its calls return. -/
def states (dev : Devices σ) (fuel : Nat) (s : PinState σ) : List BufferPoolCall → List (PinState σ)
  | [] => [s]
  | call :: calls =>
    s :: match s.step dev fuel call with
      | some s' => states dev fuel s' calls
      | none => []

/-- The calls of a run that return, each with the state that it is made in. -/
def steps (dev : Devices σ) (fuel : Nat) (s : PinState σ) :
    List BufferPoolCall → List (PinState σ × BufferPoolCall)
  | [] => []
  | call :: calls =>
    match s.step dev fuel call with
    | some s' => (s, call) :: steps dev fuel s' calls
    | none => []

/-- What has pinned a frame: those that hold it, and an open pool its header. -/
def pinned (s : PinState σ) (id : FrameId) : Nat :=
  s.held.count id + if id.pageNum = 0 ∧ s.manager.openPools id.bufferPoolId then 1 else 0

end PinState

/-- The pin count of every frame is the number of those that have pinned it. -/
def PinsConserved (s : PinState σ) : Prop :=
  s.manager.pins = s.pinned

/-- Those of the frames that are dirty are written, one after the other. -/
def WritesAll (dev : Devices σ) (frame? : FrameId → Option Frame) : List FrameId → σ → Prop
  | [], _ => True
  | id :: ids, devices =>
    match frame? id with
    | none => WritesAll dev frame? ids devices
    | some frame =>
      Written dev id frame devices ∧ WritesAll dev frame? ids
        (if frame.dirty then (writeFrame dev id frame devices).2 else devices)

/-- What a call purges is not pinned, and is clean or written. -/
def PurgesUnpinned (dev : Devices σ) (fuel : Nat) (s : BufferPoolManager σ) :
    BufferPoolCall → Prop
  | .getThisPage id => Reloadable dev fuel id s
  | .allocatePage bufferPoolId =>
    ∀ hdrFrame i, s.pools bufferPoolId = some hdrFrame → hdrFrame.header.freePage = some i →
      Reloadable dev fuel ⟨bufferPoolId, i⟩
        (appendLog dev bufferPoolId .allocate i (s.setHeader bufferPoolId (hdrFrame.header.reuse i)))
  | .purgePage id =>
    ∀ frame, s.frame? id = some frame → frame.pinCount = 0 ∧ Written dev id frame s.devices
  | .purgeAllPages bufferPoolId =>
    (∀ id ∈ s.frameManager.ofPool bufferPoolId, s.pins id = 0) ∧
      WritesAll dev s.frame? (s.frameManager.ofPool bufferPoolId) s.devices
  | .disposePage _ | .unpinPage _ => True

/-! ## The calls one by one -/

namespace BufferPoolManager

variable {s s' : BufferPoolManager σ} {id : FrameId} {bufferPoolId : Int}

theorem returns_allocatePage {got : Except RC FrameId}
    (h : Returns (allocatePage dev fuel bufferPoolId) s got s') :
    s'.openPools = s.openPools ∧
      match got with
      | .ok found => PurgesUnpinned dev fuel s (.allocatePage bufferPoolId) ∧
          s'.pins = Function.update s.pins found (s.pins found + 1)
      | .error _ => PurgesUnpinned dev fuel s (.allocatePage bufferPoolId) ↔ s'.pins = s.pins := by
  simp only [allocatePage, returns_bind, returns_headerOf] at h
  obtain ⟨hdrFrame, _, ⟨hopen, rfl⟩, h⟩ := h
  have hcond : PurgesUnpinned dev fuel s (.allocatePage bufferPoolId) ↔
      ∀ i, hdrFrame.header.freePage = some i → Reloadable dev fuel ⟨bufferPoolId, i⟩
        (appendLog dev bufferPoolId .allocate i
          (s.setHeader bufferPoolId (hdrFrame.header.reuse i))) := by
    constructor
    · exact fun hc i hi => hc hdrFrame i hopen hi
    · intro hc _ i hopen' hi
      obtain rfl := Option.some.inj (hopen.symm.trans hopen')
      exact hc i hi
  rw [hcond]
  cases hfree : hdrFrame.header.freePage with
  | some i =>
    simp only [hfree, returns_bind, returns_modify] at h
    obtain ⟨_, s₁, rfl, hget⟩ := h
    obtain ⟨hmanager, hopened⟩ := appendLog_keeps dev bufferPoolId .allocate i
      (s.setHeader bufferPoolId (hdrFrame.header.reuse i))
    obtain ⟨hpools, -, hgot⟩ := returns_getThisPage hget
    have hpins : (appendLog dev bufferPoolId .allocate i
        (s.setHeader bufferPoolId (hdrFrame.header.reuse i))).pins = s.pins := by
      rw [pins, hmanager]
      exact pins_setHeader _ _ _
    rw [hpins] at hgot
    refine ⟨?_, ?_⟩
    · funext other
      rw [openPools, hpools]
      exact congrFun (hopened.trans (openPools_setHeader _ _ _)) other
    · cases got with
      | ok found =>
        obtain ⟨rfl, hreload, hpins'⟩ := hgot
        refine ⟨?_, hpins'⟩
        rintro j hj
        obtain rfl := Option.some.inj hj
        exact hreload
      | error e =>
        rw [← hgot.2]
        constructor
        · exact fun hc => hc i rfl
        · rintro hreload j hj
          obtain rfl := Option.some.inj hj
          exact hreload
  | none =>
    simp only [hfree] at h
    split_ifs at h
    · obtain ⟨rfl, rfl⟩ := returns_pure.mp h
      exact ⟨rfl, by simp⟩
    · simp only [returns_bind, returns_modify] at h
      obtain ⟨_, _, rfl, _, s₁, halloc, h⟩ := h
      obtain ⟨hmanager, hopened⟩ := appendLog_keeps dev bufferPoolId .allocate
        hdrFrame.header.pageCount s
      obtain ⟨rfl, hpins, hpools, -⟩ := returns_allocateFrame halloc
      simp only [returns_bind, returns_modify, returns_pure] at h
      obtain ⟨_, _, rfl, _, _, rfl, _, _, hflush, rfl, rfl⟩ := h
      obtain ⟨-, -, -, hpins', hpools', -, -⟩ := returns_flushPageInternal hflush
      refine ⟨?_, by simp, ?_⟩
      · funext other
        rw [openPools, hpools']
        refine (congrFun (openPools_setHeader _ _ _) other).trans ?_
        rw [openPools, hpools]
        exact congrFun hopened other
      · rw [hpins', pins_setFrame_of_eq Frame.pinCount_clearPage, pins_setHeader, hpins]
        unfold pins
        rw [hmanager]

theorem dispose_keeps (dev : Devices σ) (id : FrameId) (header : BPFileHeader)
    (s : BufferPoolManager σ) :
    ((appendLog dev id.bufferPoolId .deallocate id.pageNum s).setHeader id.bufferPoolId
        (header.dispose id.pageNum)).openPools = s.openPools ∧
      ((appendLog dev id.bufferPoolId .deallocate id.pageNum s).setHeader id.bufferPoolId
        (header.dispose id.pageNum)).pins = s.pins := by
  obtain ⟨hmanager, hopened⟩ := appendLog_keeps dev id.bufferPoolId .deallocate id.pageNum s
  refine ⟨(openPools_setHeader _ _ _).trans hopened, ?_⟩
  rw [pins_setHeader, pins, hmanager]
  rfl

theorem returns_disposePage {rc : Except RC Unit} (h : Returns (disposePage dev id) s rc s') :
    s'.openPools = s.openPools ∧ s'.pins = s.pins := by
  unfold disposePage at h
  split_ifs at h
  · obtain ⟨rfl, rfl⟩ := returns_pure.mp h
    exact ⟨rfl, rfl⟩
  · simp only [returns_bind, returns_headerOf, returns_get] at h
    obtain ⟨hdrFrame, _, ⟨-, rfl⟩, _, _, ⟨rfl, rfl⟩, h⟩ := h
    split at h
    · rename_i frameManager hget
      simp only [returns_bind, returns_set, returns_modify, returns_pure] at h
      obtain ⟨_, s₁, rfl, _, s₂, hfree, _, _, rfl, -, rfl⟩ := h
      obtain ⟨hone, hpins, hpools, -⟩ := returns_freeFrame hfree
      have hget' := BPFrameManager.pinCount_get hget
      -- the assertion of `free` has held, so nobody else has the page
      have hzero : s.pins id = 0 := by
        have hat : frameManager.pinCount id = s.pins id + 1 := by
          rw [hget', Function.update_self]
          rfl
        have hat' : frameManager.pinCount id = 1 := hone
        omega
      have hpins₂ : s₂.pins = s.pins := by
        rw [hpins]
        unfold pins at hzero ⊢
        rw [hget', Function.update_idem, ← hzero, Function.update_eq_self]
      obtain ⟨hopened, hpins₃⟩ := dispose_keeps dev id hdrFrame.header s₂
      refine ⟨hopened.trans ?_, hpins₃.trans hpins₂⟩
      funext other
      rw [openPools, hpools]
      rfl
    · simp only [returns_bind, returns_modify, returns_pure] at h
      obtain ⟨_, _, rfl, -, rfl⟩ := h
      exact dispose_keeps dev id hdrFrame.header s

theorem returns_unpinPage {u : Unit} (h : Returns (unpinPage id) s u s') :
    s.pins id ≠ 0 ∧ s'.openPools = s.openPools ∧
      s'.pins = Function.update s.pins id (s.pins id - 1) := by
  simp only [unpinPage, returns_bind, returns_frameAt] at h
  obtain ⟨frame, _, ⟨hlookup, rfl⟩, h⟩ := h
  rw [pins_of_lookup hlookup]
  split_ifs at h with hzero
  · exact (not_returns_throw h).elim
  · obtain rfl := returns_modify.mp h
    exact ⟨hzero, rfl, pins_setFrame hlookup⟩

/-- `purge_page` gives back the pin that it takes exactly if it purges the page. -/
theorem returns_purgePage (fuel : Nat) {rc : Except RC Unit}
    (h : Returns (purgePage dev id) s rc s') :
    s'.openPools = s.openPools ∧
      (PurgesUnpinned dev fuel s (.purgePage id) ↔ s'.pins = s.pins) := by
  simp only [purgePage, returns_bind, returns_get] at h
  obtain ⟨_, _, ⟨rfl, rfl⟩, h⟩ := h
  split at h
  · rename_i frameManager hget
    simp only [returns_bind, returns_set] at h
    obtain ⟨_, s₁, rfl, h⟩ := h
    obtain ⟨pinned, hpinned, hpools, -, -, hcases⟩ := returns_purgeFrame h
    refine ⟨funext fun other => by rw [openPools, hpools]; rfl, ?_⟩
    obtain ⟨frame, hframe, rfl⟩ : ∃ frame, s.frame? id = some frame ∧ frame.pin = pinned := by
      unfold BPFrameManager.get at hget
      unfold frame? at hpinned ⊢
      cases hl : s.frameManager.frames.lookup id with
      | none =>
        rw [hl] at hget
        cases hget
      | some frame =>
        rw [hl] at hget
        obtain rfl := Option.some.inj hget
        exact ⟨frame, rfl, Option.some.inj ((AList.lookup_insert _).symm.trans hpinned)⟩
    have hpins : BPFrameManager.pinCount frameManager =
        Function.update s.pins id (frame.pinCount + 1) := by
      rw [BPFrameManager.pinCount_get hget, ← pins_of_lookup hframe]
      rfl
    have hcond : PurgesUnpinned dev fuel s (.purgePage id) ↔
        frame.pin.pinCount = 1 ∧ Written dev id frame.pin s.devices := by
      rw [Frame.pinCount_pin, Nat.add_eq_right]
      constructor
      · exact fun hc => hc frame hframe
      · intro hc _ hframe'
        obtain rfl := Option.some.inj (hframe.symm.trans hframe')
        exact hc
    rw [hcond]
    rcases hcases with ⟨hone, hwritten, hpins', -⟩ | ⟨hnot, hpins'⟩
    · refine iff_of_true ⟨hone, hwritten⟩ ?_
      have hzero : s.pins id = 0 := by
        rw [pins_of_lookup hframe]
        exact Nat.add_eq_right.mp hone
      rw [hpins', pins, hpins, Function.update_idem, ← hzero, Function.update_eq_self]
    · refine iff_of_false hnot fun hsame => ?_
      have hat := congrFun (hpins'.symm.trans hsame) id
      rw [pins, hpins, Function.update_self, pins_of_lookup hframe] at hat
      omega
  · rename_i hget
    obtain ⟨-, rfl⟩ := returns_pure.mp h
    refine ⟨rfl, iff_of_true ?_ rfl⟩
    intro frame hframe
    rw [frame?, BPFrameManager.get_eq_none.mp hget] at hframe
    cases hframe

/-! ## The loop of `purge_all_pages` -/

theorem WritesAll.congr (dev : Devices σ) (frame? frame?' : FrameId → Option Frame)
    (ids : List FrameId) (h : ∀ id ∈ ids, (frame? id).map (fun f => (f.dirty, f.page)) =
      (frame?' id).map fun f => (f.dirty, f.page)) (devices : σ) :
    WritesAll dev frame? ids devices ↔ WritesAll dev frame?' ids devices := by
  induction ids generalizing devices with
  | nil => exact Iff.rfl
  | cons id ids ih =>
    have hrest := ih fun other hmem => h other (List.mem_cons_of_mem _ hmem)
    have hid := h id List.mem_cons_self
    unfold WritesAll
    cases hf : frame? id with
    | none =>
      cases hf' : frame?' id with
      | none => exact hrest devices
      | some frame' =>
        rw [hf, hf'] at hid
        cases hid
    | some frame =>
      cases hf' : frame?' id with
      | none =>
        rw [hf, hf'] at hid
        cases hid
      | some frame' =>
        rw [hf, hf', Option.map_some, Option.map_some, Option.some.injEq, Prod.mk.injEq] at hid
        obtain ⟨hdirty, hpage⟩ := hid
        have hwrite : writeFrame dev id frame devices = writeFrame dev id frame' devices := by
          unfold writeFrame Frame.setCheckSum
          rw [hpage]
        simp only [Written, hwrite, hdirty, hrest]

/-- The loop purges all frames exactly if they are pinned once each, and clean or written; the pin
of a frame that it does not purge stays. -/
theorem returns_purgeEach {ids : List FrameId} {u : Unit} (h : Returns (purgeEach dev ids) s u s')
    (hnodup : ids.Nodup) (hpos : ∀ id ∈ ids, s.pins id ≠ 0) :
    s'.pools = s.pools ∧ (∀ id, id ∉ ids → s'.pins id = s.pins id) ∧
      (∀ id ∈ ids, s'.pins id = 0 ∨ s'.pins id = s.pins id) ∧
      ((∀ id ∈ ids, s'.pins id = 0) ↔
        (∀ id ∈ ids, s.pins id = 1) ∧ WritesAll dev s.frame? ids s.devices) := by
  induction ids generalizing s with
  | nil =>
    obtain ⟨-, rfl⟩ := returns_pure.mp h
    simp [WritesAll]
  | cons id ids ih =>
    simp only [purgeEach, returns_bind] at h
    obtain ⟨rc, s₁, hpurge, h⟩ := h
    obtain ⟨hid, hnodup⟩ := List.nodup_cons.mp hnodup
    obtain ⟨frame, hframe, hpools₁, -, hothers, hcases⟩ := returns_purgeFrame hpurge
    have hpins₁ : ∀ other, other ≠ id → s₁.pins other = s.pins other := by
      intro other hne
      rcases hcases with ⟨-, -, hpins, -⟩ | ⟨-, hpins⟩
      · rw [hpins, Function.update_of_ne hne]
      · rw [hpins]
    have hne : ∀ other ∈ ids, other ≠ id := fun other hmem hc => hid (hc ▸ hmem)
    obtain ⟨hpools, hkept, hstays, hall⟩ := ih h hnodup fun other hmem => by
      rw [hpins₁ other (hne other hmem)]
      exact hpos other (List.mem_cons_of_mem _ hmem)
    have hlast := hkept id hid
    refine ⟨hpools.trans hpools₁, ?_, ?_, ?_⟩
    · intro other hother
      rw [List.mem_cons, not_or] at hother
      rw [hkept other hother.2, hpins₁ other hother.1]
    · intro other hmem
      rcases List.mem_cons.mp hmem with rfl | hmem
      · rcases hcases with ⟨-, -, hpins, -⟩ | ⟨-, hpins⟩
        · exact Or.inl (by rw [hlast, hpins, Function.update_self])
        · exact Or.inr (by rw [hlast, hpins])
      · rw [← hpins₁ other (hne other hmem)]
        exact hstays other hmem
    · rw [List.forall_mem_cons, List.forall_mem_cons, WritesAll, hframe, hlast]
      have hrest : (∀ other ∈ ids, s₁.pins other = 1) ↔ ∀ other ∈ ids, s.pins other = 1 :=
        forall₂_congr fun other hmem => by rw [hpins₁ other (hne other hmem)]
      have hframes := WritesAll.congr dev s₁.frame? s.frame? ids fun other hmem => by
        rw [hothers other (hne other hmem)]
      rw [hall, hrest, hframes]
      rcases hcases with ⟨hone, hwritten, hpins, hdevices⟩ | ⟨hnot, hpins⟩
      · rw [hdevices, hpins, Function.update_self, pins_of_lookup hframe]
        simp only [hone, hwritten, true_and]
      · refine iff_of_false (fun hc => ?_) (fun hc => ?_)
        · rw [hpins] at hc
          exact hpos id List.mem_cons_self hc.1
        · rw [pins_of_lookup hframe] at hc
          exact hnot ⟨hc.1.1, hc.2.1⟩

theorem returns_purgeAllPages (fuel : Nat) {u : Unit}
    (h : Returns (purgeAllPages dev bufferPoolId) s u s') :
    s'.openPools = s.openPools ∧
      (PurgesUnpinned dev fuel s (.purgeAllPages bufferPoolId) ↔ s'.pins = s.pins) := by
  simp only [purgeAllPages, returns_bind, returns_get, returns_set] at h
  obtain ⟨_, _, ⟨rfl, rfl⟩, _, s₁, rfl, h⟩ := h
  set ids := s.frameManager.ofPool bufferPoolId with hids
  set s₁ : BufferPoolManager σ :=
    { s with frameManager := s.frameManager.findList bufferPoolId } with hs₁
  have hpins₁ : ∀ id, s₁.pins id = s.pins id + if id ∈ ids then 1 else 0 :=
    BPFrameManager.pinCount_findList s.frameManager bufferPoolId
  have hnodup : ids.Nodup := s.frameManager.frames.keys_nodup.filter _
  obtain ⟨hpools, hkept, hstays, hall⟩ := returns_purgeEach h hnodup fun id hmem => by
    rw [hpins₁, if_pos hmem]
    omega
  refine ⟨funext fun other => by rw [openPools, hpools]; rfl, ?_⟩
  -- a frame that was pinned before the call is pinned once more after it
  have hcleared : s'.pins = s.pins ↔ (∀ id ∈ ids, s'.pins id = 0) ∧ ∀ id ∈ ids, s.pins id = 0 := by
    constructor
    · intro hsame
      have hzero : ∀ id ∈ ids, s'.pins id = 0 := by
        intro id hmem
        rcases hstays id hmem with hz | hk
        · exact hz
        · rw [hpins₁, if_pos hmem, hsame] at hk
          omega
      exact ⟨hzero, fun id hmem => hsame ▸ hzero id hmem⟩
    · rintro ⟨hafter, hbefore⟩
      funext id
      by_cases hmem : id ∈ ids
      · rw [hafter id hmem, hbefore id hmem]
      · rw [hkept id hmem, hpins₁, if_neg hmem, Nat.add_zero]
  have hones : (∀ id ∈ ids, s₁.pins id = 1) ↔ ∀ id ∈ ids, s.pins id = 0 :=
    forall₂_congr fun id hmem => by rw [hpins₁, if_pos hmem, Nat.add_eq_right]
  have hframes := WritesAll.congr dev s₁.frame? s.frame? ids fun id hmem => by
    simp only [hs₁, frame?, BPFrameManager.findList, LruCache.lookup_mapValues, Option.map_map]
    congr 1
    funext frame
    simp only [Function.comp_apply]
    split_ifs <;> rfl
  rw [hcleared, hall, hones, hframes]
  change (_ ∧ _) ↔ _
  tauto

end BufferPoolManager

/-! ## Runs -/

namespace PinState

variable {s s' : PinState σ} {call : BufferPoolCall}

theorem returns_of_after {α : Type} {x : PoolM σ α} {held : α → List FrameId}
    (h : s.after x held = some s') :
    ∃ a, Returns x s.manager a s'.manager ∧ s'.held = held a := by
  unfold after at h
  cases hrun : x s.manager with
  | ok a manager =>
    rw [hrun] at h
    obtain rfl := Option.some.inj h
    exact ⟨a, hrun, rfl⟩
  | error e manager =>
    rw [hrun] at h
    cases h

theorem pinned_eq_self (hopen : s'.manager.openPools = s.manager.openPools)
    (hheld : s'.held = s.held) : s'.pinned = s.pinned := by
  unfold pinned
  rw [hopen, hheld]

/-- The holders of the frame that a caller is given. -/
theorem pinned_cons {id : FrameId} (hopen : s'.manager.openPools = s.manager.openPools)
    (hheld : s'.held = id :: s.held) :
    s'.pinned = Function.update s.pinned id (s.pinned id + 1) := by
  funext other
  unfold pinned
  rw [hopen, hheld, List.count_cons]
  by_cases h : other = id
  · subst h
    rw [Function.update_self]
    simp only [beq_self_eq_true, if_true]
    omega
  · rw [Function.update_of_ne h]
    simp [Ne.symm h]

theorem pinned_erase {id : FrameId} (hopen : s'.manager.openPools = s.manager.openPools)
    (hheld : s'.held = s.held.erase id) (hmem : id ∈ s.held) :
    s'.pinned = Function.update s.pinned id (s.pinned id - 1) := by
  funext other
  unfold pinned
  rw [hopen, hheld]
  by_cases h : other = id
  · subst h
    have := List.count_pos_iff.mpr hmem
    rw [Function.update_self, List.count_erase_self]
    omega
  · rw [Function.update_of_ne h, List.count_erase_of_ne h]

/-- A call of a state whose pins are conserved conserves them exactly if what it purges is not
pinned, and clean or written. -/
theorem conserved_step_iff (h : PinsConserved s) (hstep : s.step dev fuel call = some s') :
    PinsConserved s' ↔ PurgesUnpinned dev fuel s.manager call := by
  unfold PinsConserved at h ⊢
  cases call with
  | getThisPage id =>
    obtain ⟨got, hget, hheld⟩ := returns_of_after hstep
    obtain ⟨hpools, -, hgot⟩ := returns_getThisPage hget
    have hopen : s'.manager.openPools = s.manager.openPools := by
      funext other
      rw [openPools, hpools]
      rfl
    cases got with
    | ok found =>
      obtain ⟨rfl, hreload, hpins⟩ := hgot
      exact iff_of_true (by rw [pinned_cons hopen hheld, hpins, h]) hreload
    | error e =>
      rw [pinned_eq_self hopen hheld, ← h]
      exact hgot.2.symm
  | allocatePage bufferPoolId =>
    obtain ⟨got, halloc, hheld⟩ := returns_of_after hstep
    obtain ⟨hopen, hgot⟩ := returns_allocatePage halloc
    cases got with
    | ok found => exact iff_of_true (by rw [pinned_cons hopen hheld, hgot.2, h]) hgot.1
    | error e =>
      rw [pinned_eq_self hopen hheld, ← h]
      exact hgot.symm
  | disposePage id =>
    obtain ⟨rc, hdispose, hheld⟩ := returns_of_after hstep
    obtain ⟨hopen, hpins⟩ := returns_disposePage hdispose
    exact iff_of_true (by rw [pinned_eq_self hopen hheld, hpins, h]) trivial
  | purgePage id =>
    obtain ⟨rc, hpurge, hheld⟩ := returns_of_after hstep
    obtain ⟨hopen, hiff⟩ := returns_purgePage fuel hpurge
    rw [pinned_eq_self hopen hheld, ← h]
    exact hiff.symm
  | purgeAllPages bufferPoolId =>
    obtain ⟨u, hpurge, hheld⟩ := returns_of_after hstep
    obtain ⟨hopen, hiff⟩ := returns_purgeAllPages fuel hpurge
    rw [pinned_eq_self hopen hheld, ← h]
    exact hiff.symm
  | unpinPage id =>
    simp only [step] at hstep
    split_ifs at hstep with hmem
    obtain ⟨u, hunpin, hheld⟩ := returns_of_after hstep
    obtain ⟨-, hopen, hpins⟩ := returns_unpinPage hunpin
    exact iff_of_true (by rw [pinned_erase hopen hheld hmem, hpins, h]) trivial

theorem mem_states_self (dev : Devices σ) (fuel : Nat) (s : PinState σ)
    (calls : List BufferPoolCall) : s ∈ s.states dev fuel calls := by
  cases calls with
  | nil => exact List.mem_singleton_self s
  | cons call calls => exact List.mem_cons_self

end PinState

open PinState

/-- In every run from a state whose pins are conserved, all states conserve them exactly if no call
purges a frame that is pinned, or dirty and not written. -/
theorem pinsConserved_iff (dev : Devices σ) (fuel : Nat) (s : PinState σ) (h : PinsConserved s)
    (calls : List BufferPoolCall) :
    (∀ t ∈ s.states dev fuel calls, PinsConserved t) ↔
      ∀ c ∈ s.steps dev fuel calls, PurgesUnpinned dev fuel c.1.manager c.2 := by
  induction calls generalizing s with
  | nil => simp [states, steps, h]
  | cons call calls ih =>
    unfold states steps
    cases hstep : s.step dev fuel call with
    | none => simp [h]
    | some s' =>
      simp only [List.forall_mem_cons]
      rw [← conserved_step_iff h hstep]
      constructor
      · rintro ⟨-, hall⟩
        have hs' := hall s' (mem_states_self dev fuel s' calls)
        exact ⟨hs', (ih s' hs').mp hall⟩
      · rintro ⟨hs', hall⟩
        exact ⟨h, (ih s' hs').mpr hall⟩

/-- A pool with its header and a page in memory, and nothing obtained. -/
def idlePool : PinState Unit where
  manager := {
    frameManager := {
      frames := AList.insert (⟨1, 1⟩ : FrameId) (⟨0, false, Page.zero⟩ : Frame)
        (AList.insert (⟨1, 0⟩ : FrameId) (⟨1, false, Page.zero⟩ : Frame) ∅)
      free := []
      unpinned := BPFrameManager.unpinned_nil }
    pools := fun id => if id = 1 then some ⟨⟨2, 2, fun _ => true⟩, 1⟩ else none
    log := []
    devices := () }
  held := []

theorem pinsConserved_idlePool : PinsConserved idlePool := by
  funext id
  by_cases h₁ : id = ⟨1, 1⟩
  · subst h₁
    decide
  · by_cases h₀ : id = ⟨1, 0⟩
    · subst h₀
      decide
    · have hpins : idlePool.manager.pins id = 0 := by
        unfold idlePool BufferPoolManager.pins BPFrameManager.pinCount
        rw [AList.lookup_insert_ne h₁, AList.lookup_insert_ne h₀]
        rfl
      have hpinned : ¬ (id.pageNum = 0 ∧ idlePool.manager.openPools id.bufferPoolId = true) := by
        rintro ⟨hnum, hopen⟩
        apply h₀
        cases id with
        | mk bufferPoolId pageNum =>
          unfold BufferPoolManager.openPools idlePool at hopen
          simp only at hnum hopen
          split_ifs at hopen with hid
          · rw [hid, hnum]
          · cases hopen
      rw [hpins, pinned, if_neg hpinned]
      rfl

/-- A page is obtained, given back and purged. -/
theorem pinsConserved_purged :
    PinsConserved idlePool ∧ ∀ t ∈ idlePool.states quietDevices 1
      [.getThisPage ⟨1, 1⟩, .unpinPage ⟨1, 1⟩, .purgePage ⟨1, 1⟩], PinsConserved t := by
  refine ⟨pinsConserved_idlePool,
    (pinsConserved_iff quietDevices 1 idlePool pinsConserved_idlePool _).mpr ?_⟩
  have hsteps : idlePool.steps quietDevices 1
      [.getThisPage ⟨1, 1⟩, .unpinPage ⟨1, 1⟩, .purgePage ⟨1, 1⟩] = [(_, _), (_, _), (_, _)] := rfl
  rw [hsteps]
  simp only [List.forall_mem_cons]
  refine ⟨BufferPoolManager.Reloadable.of_frame rfl, trivial, ?_, by simp⟩
  intro frame hframe
  obtain rfl := Option.some.inj hframe
  exact ⟨rfl, fun hdirty => by cases hdirty⟩

/-- A page that a caller holds is pinned once more by `purge_page`. -/
theorem purgePage_keeps_pin :
    PinsConserved idlePool ∧
      ∃ t ∈ idlePool.states quietDevices 1 [.getThisPage ⟨1, 1⟩, .purgePage ⟨1, 1⟩],
        ¬ PinsConserved t := by
  refine ⟨pinsConserved_idlePool, _, List.mem_of_getElem? (i := 2) rfl, fun h => ?_⟩
  exact absurd (congrFun h ⟨1, 1⟩) (by decide)

end ObHtap
