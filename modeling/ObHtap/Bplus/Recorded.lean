import ObHtap.Bplus.Logged
import ObHtap.Bplus.NodeSpec
import ObHtap.Bplus.Valid

/-!
# What an operation has recorded

An operation that fails with a return code has changed nothing, or it has recorded the removal
of items from a leaf.  One that succeeds has recorded a change of a node page.  This holds
whatever the outcomes of its page requests are.
-/

namespace ObHtap

open IndexNodeHandler BplusTreeHandler

variable {κ : Type} {v : Pages κ} {p q : PageNum}

/-- The pages of a tree are allocated, and none of them is the page of the file header. -/
structure TreePages (v : Pages κ) : Prop where
  header : v.Allocated firstIndexPage
  nodes : ∀ p depth, Reach v p depth → v.Allocated p ∧ p ≠ firstIndexPage

theorem TreeInv.treePages {ρ : Type} [LinearOrder ρ] {rank : κ → ρ} {g : Layout ρ}
    (h : TreeInv rank v g none) : TreePages v where
  header := h.headers.2
  nodes p depth hr := by
    obtain ⟨h2, ha, -⟩ := h.alloc p (h.dom_of_reach hr).1
    refine ⟨ha, ?_⟩
    rintro rfl
    exact absurd h2 (by decide)

/-- The removal of items from the page has been recorded. -/
def RemovalRecorded (p : PageNum) (s : Mtr κ) : Prop :=
  ∃ index items, items ≠ [] ∧ LogEntry.nodeRemove p index items ∈ s.entries

/-- A change of a node page has been recorded. -/
def ChangeRecorded (s : Mtr κ) : Prop :=
  ∃ entry ∈ s.entries, entry.pageNum ≠ firstIndexPage

/-- A failure that leaves nothing to take back, or the removal of items. -/
def Refused (e : Fault) (s : Mtr κ) : Prop :=
  ∀ rc, e = .rc rc → s.entries = [] ∨ ∃ p, RemovalRecorded p s

theorem RemovalRecorded.grows {s s' : Mtr κ} (hs : Grows s s') (h : RemovalRecorded p s) :
    RemovalRecorded p s' :=
  let ⟨index, items, hne, hmem⟩ := h
  ⟨index, items, hne, hs.entries.subset hmem⟩

theorem RemovalRecorded.change {s : Mtr κ} (h : RemovalRecorded p s) (hp : p ≠ firstIndexPage) :
    ChangeRecorded s :=
  let ⟨_, _, _, hmem⟩ := h
  ⟨_, hmem, hp⟩

theorem ChangeRecorded.grows {s s' : Mtr κ} (hs : Grows s s') (h : ChangeRecorded s) :
    ChangeRecorded s' :=
  let ⟨entry, hmem, hne⟩ := h
  ⟨entry, hs.entries.subset hmem, hne⟩

theorem refused_of_ne {e : Fault} {s : Mtr κ} (h : ∀ rc, e ≠ .rc rc) : Refused e s :=
  fun rc he => absurd he (h rc)

/-! ## Before the first entry -/

/-- The mini-transaction has recorded nothing. -/
def Idle (v : Pages κ) (s : Mtr κ) : Prop :=
  s.pages = v ∧ s.entries = [] ∧ s.needLog = true

theorem idle_start (t : TreeState κ) (outcomes : List (Option RC)) :
    Idle t.pages (BplusTreeMiniTransaction.start t true outcomes) :=
  ⟨rfl, rfl, rfl⟩

theorem nextOutcome_idle :
    Triple (Idle v) nextOutcome (fun _ => Idle v) (fun _ => Idle v) := by
  rintro ⟨t, entries, needLog, outcomes⟩ hs
  cases outcomes with
  | nil => exact hs
  | cons outcome rest => exact hs

theorem getPage_idle : Triple (Idle v) (getPage p) (fun _ => Idle v) (fun _ => Idle v) :=
  nextOutcome_idle.bind fun
    | some _ => Triple.throw fun _ => id
    | none => Triple.bind (Triple.get (Q := fun _ => Idle v) fun _ => id) fun _ =>
      Triple.ite (fun _ => Triple.pure fun _ => id) fun _ => Triple.throw fun _ => id

theorem markDirty_idle : Triple (Idle v) (markDirty p) (fun _ => Idle v) (fun _ => Idle v) :=
  Triple.modify fun _ hs => hs

theorem itemAt_idle {index : Int} :
    Triple (Idle v) (itemAt p index)
      (fun item s => item ∈ (v.node p).items ∧ Idle v s) (fun _ => Idle v) := by
  refine readNode_of (v := v) (fun _ hs => hs.1) <| Triple.ite (fun _ => Triple.throw fun _ => id)
    fun _ => ?_
  cases hitem : (v.node p).items[index.toNat]? with
  | none => exact Triple.throw fun _ => id
  | some item => exact Triple.pure fun _ hs => ⟨List.mem_of_getElem? hitem, hs⟩

theorem findLeafFrom_idle (childPageGetter : IndexNode κ → Nat) :
    ∀ (fuel : Nat) (p : PageNum) {depth : Nat}, Reach v p depth →
      Triple (Idle v) (findLeafFrom childPageGetter fuel p)
        (fun leaf s => ((∃ depth, Reach v leaf depth) ∧ (v.node leaf).isLeaf = true) ∧ Idle v s) (fun _ => Idle v)
  | 0, _, _, _ => Triple.throw fun _ => id
  | fuel + 1, p, depth, hr => by
    refine readNode_of (v := v) (fun _ hs => hs.1) <| Triple.ite (fun hl => ?_) fun hl => ?_
    · exact Triple.pure fun _ hs => ⟨⟨⟨depth, hr⟩, hl⟩, hs⟩
    · refine Triple.bind (Q := fun next s => Reach v next (depth + 1) ∧ Idle v s) ?_ fun next => ?_
      · refine itemAt_idle.bind fun item => Triple.of_and fun hmem => ?_
        exact Triple.pure fun _ hs => ⟨hr.child (by simpa using hl) hmem, hs⟩
      · exact Triple.of_and fun hnext => getPage_idle.bind fun _ =>
          findLeafFrom_idle childPageGetter fuel next hnext

theorem findLeafInternal_idle (childPageGetter : IndexNode κ → Nat) :
    Triple (Idle v) (findLeafInternal childPageGetter)
      (fun leaf s => ((∃ depth, Reach v leaf depth) ∧ (v.node leaf).isLeaf = true) ∧ Idle v s) (fun _ => Idle v) := by
  refine readRootPage_of (v := v) (fun _ hs => hs.1) <| Triple.ite
    (fun _ => Triple.throw fun _ => id) fun hroot => getPage_idle.bind fun _ => ?_
  refine Triple.bind (Q := fun _ => Idle v) ?_ fun fuel => ?_
  · exact Triple.bind (Triple.get (Q := fun _ => Idle v) fun _ => id) fun _ =>
      Triple.pure fun _ => id
  · exact findLeafFrom_idle childPageGetter fuel v.rootPage (.root hroot)

theorem checkUnique_idle {υ : Type} [DecidableEq υ] (index : BplusTreeHandler (Key υ))
    (userKey : υ) (isNull : Bool) {v : Pages (Key υ)} :
    Triple (Idle v) (checkUnique index userKey isNull) (fun _ => Idle v) (fun _ => Idle v) := by
  have hcompare : ∀ (p : PageNum) (i : Nat) (frame : PageNum),
      Triple (Idle v) (tryInsertEntry.compareUserKey userKey p i frame) (fun _ => Idle v)
        (fun _ => Idle v) := by
    intro p i frame
    refine Triple.bind (Q := fun _ => Idle v) ?_ fun key => markDirty_idle.bind fun _ =>
      Triple.ite (fun _ => Triple.throw fun _ => id) fun _ => Triple.pure fun _ => id
    exact itemAt_idle.bind fun _ => Triple.pure fun _ hs => hs.2
  refine Triple.ite (fun _ => ?_) fun _ => Triple.pure fun _ => id
  refine (findLeafInternal_idle _).bind fun p => Triple.of_and fun _ =>
    readNode_of (v := v) (fun _ hs => hs.1) <| Triple.ite (fun _ => hcompare p _ p) fun _ =>
    Triple.ite (fun _ => markDirty_idle) fun _ => markDirty_idle.bind fun _ =>
    getPage_idle.bind fun _ => hcompare p 0 _

/-! ## Programs that only abort -/

/-- The program does not fail with a return code. -/
def NoRC {α : Type} (x : MtrM κ α) : Prop :=
  Triple (fun _ => True) x (fun _ _ => True) (fun e _ => ∀ rc, e ≠ .rc rc)

namespace NoRC

variable {α β : Type} {x : MtrM κ α} {f : α → MtrM κ β}

theorem triple {P : Mtr κ → Prop} {Q : α → Mtr κ → Prop} {E : Fault → Mtr κ → Prop}
    (hx : NoRC x) (h : Triple P x Q E) : Triple P x Q (fun e _ => ∀ rc, e ≠ .rc rc) :=
  (h.and (Triple.pre hx fun _ _ => trivial)).conseq (fun _ => id) (fun _ _ hs => hs.1)
    fun _ _ hs => hs.2

theorem bind (hx : NoRC x) (hf : ∀ a, NoRC (f a)) : NoRC (x >>= f) :=
  Triple.bind hx hf

theorem pure (a : α) : NoRC (Pure.pure a : MtrM κ α) :=
  Triple.pure fun _ => id

theorem abort : NoRC (throw .abort : MtrM κ α) :=
  Triple.throw fun _ _ _ => by simp

theorem modify {g : Mtr κ → Mtr κ} : NoRC (modify g : MtrM κ PUnit) :=
  Triple.modify fun _ => id

theorem ite {c : Prop} [Decidable c] {y : MtrM κ α} (hx : NoRC x) (hy : NoRC y) :
    NoRC (if c then x else y) :=
  Triple.ite (fun _ => hx) fun _ => hy

theorem get : NoRC (MonadState.get : MtrM κ (Mtr κ)) :=
  Triple.get fun _ => id

theorem readNode (p : PageNum) : NoRC (ObHtap.readNode p : MtrM κ _) :=
  get.bind fun _ => pure _

theorem setParentPageNum (p parent : PageNum) : NoRC (setParentPageNum p parent : MtrM κ _) :=
  (readNode p).bind fun _ => modify.bind fun _ => modify

theorem recoverInsertItems (kind : HandlerKind) (p : PageNum) (index : Nat)
    (items : List (Item κ)) : NoRC (recoverInsertItems kind p index items) :=
  (readNode p).bind fun _ => ite abort (ite abort modify)

theorem recoverRemoveItems (kind : HandlerKind) (p : PageNum) (index num : Nat) :
    NoRC (recoverRemoveItems kind p index num : MtrM κ _) :=
  (readNode p).bind fun _ => ite abort (ite (ite abort modify) modify)

theorem itemAt (p : PageNum) (index : Int) : NoRC (itemAt p index : MtrM κ _) :=
  (readNode p).bind fun node => ite abort <| by
    cases node.items[index.toNat]? with
    | none => exact abort
    | some item => exact pure item

theorem append (p : PageNum) (items : List (Item κ)) :
    NoRC (LeafIndexNodeHandler.append p items) :=
  (readNode p).bind fun _ => modify.bind fun _ => recoverInsertItems _ p _ items

theorem leafInitEmpty (p : PageNum) : NoRC (LeafIndexNodeHandler.initEmpty p : MtrM κ _) :=
  modify.bind fun _ => ((readNode p).bind fun _ => modify).bind fun _ =>
    (readNode p).bind fun _ => modify

theorem leafInsert (p : PageNum) (index : Nat) (item : Item κ) :
    NoRC (LeafIndexNodeHandler.insert p index item) :=
  modify.bind fun _ => recoverInsertItems _ p index _

theorem updateRootPageNumLocked (p : PageNum) :
    NoRC (updateRootPageNumLocked p : MtrM κ _) := by
  have hnext : NoRC (nextOutcome : MtrM κ _) := by
    rintro ⟨t, entries, needLog, outcomes⟩ _
    cases outcomes with
    | nil => exact trivial
    | cons outcome rest => exact trivial
  exact hnext.bind fun
    | some _ => abort
    | none => Triple.bind (get.bind fun _ => pure _) fun _ =>
      modify.bind fun _ => modify.bind fun _ => modify

end NoRC

/-! ## What is recorded -/

theorem appendLogEntry_recorded {α : Type} (entry : LogEntry κ) {f : PUnit → MtrM κ α}
    (hf : ∀ a, Within Grows (f a)) :
    Triple (fun s => s.needLog = true) (appendLogEntry entry >>= f)
      (fun _ s => entry ∈ s.entries) (fun _ s => entry ∈ s.entries) := by
  refine Triple.bind (Q := fun _ s => entry ∈ s.entries) (Triple.modify fun s hs => ?_) fun a =>
    (hf a).triple fun s s' hg hmem => hg.entries.subset hmem
  simp [hs]

/-- The mini-transaction logs, and the page has not been touched yet. -/
def Waits (p : PageNum) (node : IndexNode κ) (s : Mtr κ) : Prop :=
  s.needLog = true ∧ s.pages.node p = node

section Waits

variable {node : IndexNode κ} {α : Type}

theorem readNode_waits {E : Fault → Mtr κ → Prop} :
    Triple (Waits p node) (readNode q) (fun _ => Waits p node) E :=
  fun _ hs => hs

theorem appendLogEntry_waits {entry : LogEntry κ} {E : Fault → Mtr κ → Prop} :
    Triple (Waits p node) (appendLogEntry entry) (fun _ => Waits p node) E := by
  refine Triple.modify fun s hs => ?_
  split_ifs <;> exact hs

theorem writeNode_waits (hne : p ≠ q) {node' : IndexNode κ} {E : Fault → Mtr κ → Prop} :
    Triple (Waits p node) (writeNode q node') (fun _ => Waits p node) E :=
  Triple.modify fun _ hs => ⟨hs.1, (Pages.setNode_of_ne hne).trans hs.2⟩

/-- A program whose failures are not return codes keeps its postcondition when these are not
looked at. -/
theorem ignoreRC_of {P : Mtr κ → Prop} {x : MtrM κ Unit} {Q : Unit → Mtr κ → Prop}
    (h : Triple P x Q fun e _ => ∀ rc, e ≠ .rc rc) :
    Triple P (ignoreRC x) Q fun e _ => ∀ rc, e ≠ .rc rc := by
  intro s hs
  have hx := h s hs
  unfold ignoreRC
  cases hrun : x s with
  | ok a s' =>
    rw [hrun] at hx
    exact hx
  | error e s' =>
    rw [hrun] at hx
    cases e with
    | rc rc => exact absurd rfl (hx rc)
    | abort => exact hx
    | outOfFuel => exact hx

theorem leafInitEmpty_waits (hne : p ≠ q) {E : Fault → Mtr κ → Prop} :
    Triple (Waits p node) (LeafIndexNodeHandler.initEmpty q) (fun _ => Waits p node) E :=
  appendLogEntry_waits.bind fun _ =>
    Triple.bind (readNode_waits.bind fun _ => writeNode_waits hne) fun _ =>
    readNode_waits.bind fun _ => writeNode_waits hne

theorem leafInitEmpty_recorded (q : PageNum) :
    Triple (fun s : Mtr κ => s.needLog = true) (LeafIndexNodeHandler.initEmpty q)
      (fun _ s => LogEntry.leafInitEmpty q ∈ s.entries)
      (fun _ s => LogEntry.leafInitEmpty q ∈ s.entries) :=
  appendLogEntry_recorded _ fun _ => (initEmpty_grows q true).bind fun _ =>
    (readNode_logsFirst q).grows.bind fun _ => writeNode_grows _ _

theorem setParentPageNum_waits (hne : p ≠ q) {parent : PageNum} {E : Fault → Mtr κ → Prop} :
    Triple (Waits p node) (setParentPageNum q parent) (fun _ => Waits p node) E :=
  readNode_waits.bind fun _ => appendLogEntry_waits.bind fun _ => writeNode_waits hne

theorem moveHalfTo_removal (hsize : 0 < node.size) :
    Triple (Waits p node) (LeafIndexNodeHandler.moveHalfTo p q)
      (fun _ => RemovalRecorded p) (fun e _ => ∀ rc, e ≠ .rc rc) := by
  refine Triple.bind (Q := fun n s => n = node ∧ s.needLog = true) (fun s hs => ⟨hs.2, hs.1⟩)
    fun n => Triple.of_and fun hn => ?_
  subst hn
  have hne : n.items.drop (n.size / 2) ≠ [] := by
    rw [ne_eq, List.drop_eq_nil_iff]
    change ¬ n.size ≤ n.size / 2
    omega
  have hlog : ∀ s s' : Mtr κ, LogsFirst s s' → s.needLog = true → s'.needLog = true :=
    fun _ _ h hs => h.1.needLog.trans hs
  refine Triple.bind (Q := fun _ s => s.needLog = true)
    ((NoRC.append q _).triple ((LeafIndexNodeHandler.append_logsFirst q _).triple hlog))
    fun _ => ?_
  have hrecorded := (NoRC.modify.bind fun _ => NoRC.recoverRemoveItems .leaf p _ _).triple
    (appendLogEntry_recorded (.nodeRemove p (n.size / 2) (n.items.drop (n.size / 2)))
      fun _ => recoverRemoveItems_grows .leaf p (n.size / 2) (n.size - n.size / 2))
  exact hrecorded.post fun _ s hmem => ⟨_, _, hne, hmem⟩

/-- A failure before the first entry, or one that is not a return code. -/
theorem refused_of_idle {e : Fault} {s : Mtr κ} (hs : Idle v s) : Refused e s :=
  fun _ _ => Or.inl hs.2.1

theorem allocatePage_idle :
    Triple (Idle v) allocatePage
      (fun newPage s => ¬ v.Allocated newPage ∧ s.needLog = true ∧ s.pages.node = v.node)
      (fun _ s => s.entries = []) :=
  (nextOutcome_idle.conseq (fun _ => id) (fun _ _ => id) fun _ _ hs => hs.2.1).bind fun
    | some _ => by
      refine Triple.bind (Q := fun _ s => s.entries = []) (Triple.modify fun s hs => ?_) fun _ =>
        Triple.throw fun _ => id
      split <;> exact hs.2.1
    | none => by
      rintro s ⟨rfl, -, hlog⟩
      exact ⟨fun h => s.pages.fileHeader.not_allocated_allocate h.2, hlog, rfl⟩

theorem split_removal (hp : v.Allocated p) (hsize : 0 < (v.node p).size) :
    Triple (Idle v) (split .leaf p) (fun _ => RemovalRecorded p) Refused := by
  refine (allocatePage_idle.conseq (fun _ => id) (fun _ _ => id) fun _ _ h _ _ => Or.inl h).bind
    fun newPage => Triple.of_and fun hnew => ?_
  have hne : p ≠ newPage := by
    rintro rfl
    exact hnew hp
  refine Triple.pre (H := Waits p (v.node p)) ?_ fun s hs => ⟨hs.1, congrFun hs.2 p⟩
  refine Triple.conseq (S := fun _ => RemovalRecorded p) (F := fun e _ => ∀ rc, e ≠ .rc rc) ?_
    (fun _ => id) (fun _ _ => id) fun _ _ => refused_of_ne
  refine ((NoRC.leafInitEmpty newPage).triple (leafInitEmpty_waits (E := fun _ _ => True) hne)).bind
    fun _ => readNode_waits.bind fun parentNode => ?_
  refine ((NoRC.setParentPageNum newPage _).triple
    (setParentPageNum_waits (E := fun _ _ => True) hne)).bind fun _ => ?_
  refine Triple.bind (Q := fun _ => RemovalRecorded p) ?_ fun _ =>
    Triple.bind (Q := fun _ => RemovalRecorded p) (Triple.modify fun _ => id) fun _ =>
    Triple.bind (Q := fun _ => RemovalRecorded p) (Triple.modify fun _ => id) fun _ =>
    Triple.pure fun _ => id
  exact ignoreRC_of (moveHalfTo_removal hsize)

end Waits

theorem createNewTree_recorded (hv : TreePages v) (hroot : v.rootPage = bpInvalidPageNum) (key : κ)
    (rid : RID) :
    Triple (Idle v) (createNewTree key rid) (fun _ => ChangeRecorded) Refused := by
  refine readRootPage_of (v := v) (fun _ hs => hs.1) ?_
  rw [if_neg (by simpa using hroot)]
  refine (allocatePage_idle.conseq (fun _ => id) (fun _ _ => id) fun _ _ h _ _ => Or.inl h).bind
    fun newPage => Triple.of_and fun hnew => ?_
  have hne : newPage ≠ firstIndexPage := by
    rintro rfl
    exact hnew hv.header
  refine Triple.pre (H := fun s => s.needLog = true) ?_ fun _ hs => hs.1
  refine Triple.conseq (S := fun _ => ChangeRecorded) (F := fun e _ => ∀ rc, e ≠ .rc rc) ?_
    (fun _ => id) (fun _ _ => id) fun _ _ => refused_of_ne
  refine Triple.bind (Q := fun _ => ChangeRecorded) ?_ fun _ => ?_
  · exact ((NoRC.leafInitEmpty newPage).triple (leafInitEmpty_recorded newPage)).post
      fun _ s hmem => ⟨_, hmem, hne⟩
  · refine NoRC.triple ?_ (Within.triple ?_ fun _ _ => ChangeRecorded.grows)
    · exact (NoRC.leafInsert newPage 0 _).bind fun _ =>
        (NoRC.updateRootPageNumLocked newPage).bind fun _ => NoRC.modify
    · exact (LeafIndexNodeHandler.insert_logsFirst newPage 0 _).grows.bind fun _ =>
        (updateRootPageNumLocked_logsFirst newPage).grows.bind fun _ =>
        (markDirty_logsFirst newPage).grows

theorem insertEntryIntoLeafNode_recorded [Inhabited κ] (tree : BplusTreeHandler κ)
    (hL : 0 < tree.fileHeader.leafMaxSize) (hp : v.Allocated p) (hne : p ≠ firstIndexPage)
    (hl : (v.node p).isLeaf = true) (key : κ) (rid : RID) :
    Triple (Idle v) (insertEntryIntoLeafNode tree p key rid) (fun _ => ChangeRecorded) Refused := by
  refine readNode_of (v := v) (fun _ hs => hs.1) <| Triple.ite
    (fun _ => Triple.throw fun _ => refused_of_idle) fun _ => Triple.ite (fun _ => ?_) fun hfull => ?_
  · refine Triple.conseq (S := fun _ => ChangeRecorded) (F := fun e _ => ∀ rc, e ≠ .rc rc) ?_
      (fun s hs => hs.2.2) (fun _ _ => id) fun _ _ => refused_of_ne
    refine Triple.bind ((NoRC.leafInsert p _ _).triple (appendLogEntry_recorded _ fun _ =>
      recoverInsertItems_grows _ p _ _)) fun _ => ?_
    exact Triple.modify fun s hmem => ⟨_, hmem, hne⟩
  · have hsize : 0 < (v.node p).size := by
      rw [maxSize, if_pos hl] at hfull
      omega
    refine (split_removal hp hsize).bind fun newPage => ?_
    refine ((insertAfterSplit_logsFirst tree p newPage _ _).grows.triple
      fun _ _ => RemovalRecorded.grows).conseq (fun _ => id) (fun _ _ h => h.change hne)
      fun _ _ h _ _ => Or.inr ⟨p, h⟩

section Operations

variable {υ : Type} [Inhabited υ] [DecidableEq υ] (index : BplusTreeHandler (Key υ))
  {v : Pages (Key υ)}

theorem insertEntryMtr_recorded (hL : 0 < index.fileHeader.leafMaxSize) (hv : TreePages v)
    (userKey : υ) (rid : RID) (isNull : Bool) :
    Triple (Idle v) (insertEntryMtr index userKey rid isNull) (fun _ => ChangeRecorded)
      Refused := by
  have hidle : ∀ (e : Fault) (s : Mtr (Key υ)), Idle v s → Refused e s := fun _ _ => refused_of_idle
  refine readRootPage_of (v := v) (fun _ hs => hs.1) <| Triple.ite
    (fun hroot => createNewTree_recorded hv hroot _ rid) fun _ => ?_
  refine ((checkUnique_idle index userKey isNull).conseq (fun _ => id) (fun _ _ => id) hidle).bind
    fun _ => ?_
  refine ((findLeafInternal_idle _).conseq (fun _ => id) (fun _ _ => id) hidle).bind fun p =>
    Triple.of_and fun ⟨⟨depth, hr⟩, hl⟩ => ?_
  obtain ⟨hp, hne⟩ := hv.nodes p depth hr
  exact insertEntryIntoLeafNode_recorded index hL hp hne hl _ rid

omit [Inhabited υ] [DecidableEq υ] in
theorem removeKey_recorded (keyComparator : Key υ → Key υ → Int) (p : PageNum) (key : Key υ) :
    Triple (Idle v) (LeafIndexNodeHandler.removeKey keyComparator p key)
      (fun n s => if n = 0 then Idle v s else RemovalRecorded p s)
      (fun e _ => ∀ rc, e ≠ .rc rc) := by
  refine readNode_of (v := v) (fun _ hs => hs.1) <| Triple.ite (fun _ => ?_) fun _ =>
    Triple.pure fun _ => id
  refine Triple.bind (Q := fun _ => RemovalRecorded p) ?_ fun _ => Triple.pure fun _ => id
  refine ((NoRC.itemAt p _).triple itemAt_idle).bind fun item => ?_
  refine Triple.conseq ((NoRC.modify.bind fun _ => NoRC.recoverRemoveItems _ p _ _).triple
    (appendLogEntry_recorded _ fun _ => recoverRemoveItems_grows _ p _ _)) (fun s hs => hs.2.2.2)
    (fun _ s hmem => ⟨_, [item], by simp, hmem⟩) fun _ _ => id

omit [Inhabited υ] [DecidableEq υ] in
theorem deleteEntryMtr_recorded (hv : TreePages v) (userKey : υ) (rid : RID) :
    Triple (Idle v) (deleteEntryMtr index userKey rid) (fun _ => ChangeRecorded) Refused := by
  refine readRootPage_of (v := v) (fun _ hs => hs.1) <| Triple.ite
    (fun _ => Triple.throw fun _ => refused_of_idle) fun _ => ?_
  refine ((findLeafInternal_idle _).conseq (fun _ => id) (fun _ _ => id)
    fun _ _ => refused_of_idle).bind fun p => Triple.of_and fun ⟨⟨depth, hr⟩, _⟩ => ?_
  refine ((removeKey_recorded _ p _).conseq (fun _ => id) (fun _ _ => id)
    fun _ _ => refused_of_ne).bind fun n => Triple.ite (fun hn => ?_) fun hn => ?_
  · exact Triple.throw fun s hs => refused_of_idle (by rwa [if_pos hn] at hs)
  · simp only [if_neg hn]
    refine Triple.conseq (Within.triple (R := Grows) ?_ fun _ _ => RemovalRecorded.grows)
      (fun _ => id) (fun _ _ h => h.change (hv.nodes p depth hr).2) fun _ _ h _ _ => Or.inr ⟨p, h⟩
    exact (markDirty_logsFirst p).grows.bind fun _ => (readNode_logsFirst p).grows.bind fun _ =>
      Within.ite (fun _ => Within.pure _) fun _ => rounds_logsFirst.grows.bind fun fuel =>
      (coalesceOrRedistribute_logsFirst index fuel .leaf p).grows

end Operations

end ObHtap
