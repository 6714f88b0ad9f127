import ObHtap.Bplus.Log
import ObHtap.Library.Triple

/-!
# Every change is logged first

The entries that a mini-transaction has recorded stay recorded, and as long as it has recorded
none it has changed no node and not the root page number.
-/

namespace ObHtap

open IndexNodeHandler BplusTreeHandler

variable {κ α : Type}

/-- The entries and the file are only added to, and nothing is appended to the log yet. -/
structure Grows (s s' : Mtr κ) : Prop where
  needLog : s'.needLog = s.needLog
  entries : s.entries <+: s'.entries
  log : s'.log = s.log
  pageCount : s.pages.fileHeader.pageCount ≤ s'.pages.fileHeader.pageCount

/-- The tree changes only when an entry is added. -/
def LogsFirst (s s' : Mtr κ) : Prop :=
  Grows s s' ∧ (s.needLog = true → s'.entries = s.entries →
    s'.pages.node = s.pages.node ∧ s'.pages.rootPage = s.pages.rootPage)

instance : Std.Refl (Grows (κ := κ)) := ⟨fun _ => ⟨rfl, List.prefix_rfl, rfl, le_rfl⟩⟩

instance : IsTrans (Mtr κ) Grows :=
  ⟨fun _ _ _ h h' => ⟨h'.needLog.trans h.needLog, h.entries.trans h'.entries, h'.log.trans h.log,
    h.pageCount.trans h'.pageCount⟩⟩

instance : Std.Refl (LogsFirst (κ := κ)) := ⟨fun _ => ⟨refl _, fun _ _ => ⟨rfl, rfl⟩⟩⟩

instance : IsTrans (Mtr κ) LogsFirst where
  trans := by
    rintro s s' s'' ⟨hg, h⟩ ⟨hg', h'⟩
    refine ⟨IsTrans.trans _ _ _ hg hg', fun hlog heq => ?_⟩
    have hs' : s'.entries = s.entries :=
      (heq ▸ hg'.entries).eq_of_length_le hg.entries.length_le
    obtain ⟨hn, hr⟩ := h hlog hs'
    obtain ⟨hn', hr'⟩ := h' (hg.needLog.trans hlog) (heq.trans hs'.symm)
    exact ⟨hn'.trans hn, hr'.trans hr⟩

theorem LogsFirst.grows {s s' : Mtr κ} (h : LogsFirst s s') : Grows s s' := h.1

theorem Within.grows {x : MtrM κ α} (h : Within LogsFirst x) : Within Grows x :=
  h.mono fun _ _ => LogsFirst.grows

/-! ## Primitives -/

theorem logsFirst_of_eq {s s' : Mtr κ} (hlog : s'.needLog = s.needLog)
    (hentries : s'.entries = s.entries) (hlog' : s'.log = s.log)
    (hnode : s'.pages.node = s.pages.node) (hroot : s'.pages.rootPage = s.pages.rootPage)
    (hcount : s.pages.fileHeader.pageCount ≤ s'.pages.fileHeader.pageCount) : LogsFirst s s' :=
  ⟨⟨hlog, hentries ▸ List.prefix_rfl, hlog', hcount⟩, fun _ _ => ⟨hnode, hroot⟩⟩

theorem readNode_logsFirst (p : PageNum) : Within LogsFirst (readNode p : MtrM κ _) :=
  Within.get.bind fun _ => Within.pure _

theorem readRootPage_logsFirst : Within LogsFirst (readRootPage : MtrM κ _) :=
  Within.get.bind fun _ => Within.pure _

theorem rounds_logsFirst : Within LogsFirst (rounds : MtrM κ _) :=
  Within.get.bind fun _ => Within.pure _

theorem nextOutcome_logsFirst : Within LogsFirst (nextOutcome : MtrM κ _) := by
  rintro _ s rfl
  obtain ⟨t, entries, needLog, outcomes⟩ := s
  cases outcomes with
  | nil => exact logsFirst_of_eq rfl rfl rfl rfl rfl le_rfl
  | cons outcome rest => exact logsFirst_of_eq rfl rfl rfl rfl rfl le_rfl

theorem getPage_logsFirst (p : PageNum) : Within LogsFirst (getPage p : MtrM κ _) :=
  nextOutcome_logsFirst.bind fun
    | some _ => Within.throw _
    | none => Within.get.bind fun _ => Within.ite (fun _ => Within.pure _) fun _ => Within.throw _

theorem allocatePage_logsFirst : Within LogsFirst (allocatePage : MtrM κ _) :=
  nextOutcome_logsFirst.bind fun
    | some _ => by
      refine Within.bind (Within.modify fun s => ?_) fun _ => Within.throw _
      split
      · exact logsFirst_of_eq rfl rfl rfl rfl rfl le_rfl
      · exact refl _
    | none => by
      rintro _ s rfl
      refine logsFirst_of_eq rfl rfl rfl rfl rfl ?_
      change _ ≤ s.pages.fileHeader.allocate.2.pageCount
      unfold BPFileHeader.allocate
      split
      · exact le_rfl
      · exact Nat.le_succ _

theorem disposePage_logsFirst (p : PageNum) : Within LogsFirst (disposePage p : MtrM κ _) :=
  Within.modify fun _ => logsFirst_of_eq rfl rfl rfl rfl rfl le_rfl

theorem markDirty_logsFirst (p : PageNum) : Within LogsFirst (markDirty p : MtrM κ _) :=
  Within.modify fun _ => logsFirst_of_eq rfl rfl rfl rfl rfl le_rfl

theorem ignoreRC_logsFirst {x : MtrM κ Unit} (h : Within LogsFirst x) :
    Within LogsFirst (ignoreRC x) := by
  rintro _ s rfl
  unfold ignoreRC
  cases hx : x s with
  | ok a s' => exact h.ok hx
  | error e s' =>
    cases e with
    | rc rc => exact h.error hx
    | abort => exact h.error hx
    | outOfFuel => exact h.error hx

/-- Once an entry is recorded the pages may change in any way. -/
theorem Within.logged {entry : LogEntry κ} {f : PUnit → MtrM κ α}
    (hf : ∀ a, Within Grows (f a)) : Within LogsFirst (appendLogEntry entry >>= f) := by
  intro s
  have happend : Triple (· = s) (appendLogEntry entry) (fun _ s' => Grows s s' ∧
      (s.needLog = true → s.entries.length < s'.entries.length)) (fun _ => LogsFirst s) := by
    refine Triple.modify fun s hs => ?_
    subst hs
    cases hlog : s.needLog with
    | false => exact ⟨⟨rfl, List.prefix_rfl, rfl, le_rfl⟩, by simp⟩
    | true => exact ⟨⟨hlog.symm, List.prefix_append _ _, rfl, le_rfl⟩, fun _ => by simp⟩
  have hrest : ∀ s' s'' : Mtr κ, Grows s' s'' → (Grows s s' ∧
      (s.needLog = true → s.entries.length < s'.entries.length)) → LogsFirst s s'' := by
    rintro s' s'' hg ⟨hg', hlt⟩
    refine ⟨IsTrans.trans _ _ _ hg' hg, fun hlog heq => ?_⟩
    have := hg.entries.length_le
    have := hlt hlog
    rw [heq] at *
    omega
  exact happend.bind fun a s' hs' => (hf a s').conseq (fun _ => id)
    (fun _ s'' hg => hrest s' s'' hg hs') (fun _ s'' hg => hrest s' s'' hg hs') s' rfl

theorem writeNode_grows (p : PageNum) (node : IndexNode κ) : Within Grows (writeNode p node) :=
  Within.modify fun _ => ⟨rfl, List.prefix_rfl, rfl, le_rfl⟩

theorem writeRootPage_grows (p : PageNum) : Within Grows (writeRootPage p : MtrM κ _) :=
  Within.modify fun _ => ⟨rfl, List.prefix_rfl, rfl, le_rfl⟩

/-! ## Node handlers -/

namespace IndexNodeHandler

theorem setParentPageNum_logsFirst (p parent : PageNum) :
    Within LogsFirst (setParentPageNum p parent : MtrM κ _) :=
  (readNode_logsFirst p).bind fun _ => Within.logged fun _ => writeNode_grows _ _

theorem initEmpty_grows (p : PageNum) (leaf : Bool) :
    Within Grows (initEmpty p leaf : MtrM κ _) :=
  (readNode_logsFirst p).grows.bind fun _ => writeNode_grows _ _

theorem recoverInsertItems_grows (kind : HandlerKind) (p : PageNum) (index : Nat)
    (items : List (Item κ)) : Within Grows (recoverInsertItems kind p index items) :=
  (readNode_logsFirst p).grows.bind fun _ => Within.ite (fun _ => Within.throw _) fun _ =>
    Within.ite (fun _ => Within.throw _) fun _ => writeNode_grows _ _

theorem recoverRemoveItems_grows (kind : HandlerKind) (p : PageNum) (index num : Nat) :
    Within Grows (recoverRemoveItems kind p index num : MtrM κ _) :=
  (readNode_logsFirst p).grows.bind fun _ => Within.ite (fun _ => Within.throw _) fun _ =>
    Within.ite
      (fun _ => Within.ite (fun _ => Within.throw _) fun _ => writeNode_grows _ _)
      fun _ => writeNode_grows _ _

theorem decreaseSize_grows (p : PageNum) (n : Nat) :
    Within Grows (decreaseSize p n : MtrM κ _) :=
  (readNode_logsFirst p).grows.bind fun _ => writeNode_grows _ _

theorem itemAt_logsFirst (p : PageNum) (index : Int) :
    Within LogsFirst (itemAt p index : MtrM κ _) :=
  (readNode_logsFirst p).bind fun node => Within.ite (fun _ => Within.throw _) fun _ => by
    cases node.items[index.toNat]? with
    | some item => exact Within.pure _
    | none => exact Within.throw _

theorem keyAt_logsFirst (p : PageNum) (index : Int) :
    Within LogsFirst (keyAt p index : MtrM κ _) :=
  (itemAt_logsFirst p index).bind fun _ => Within.pure _

end IndexNodeHandler

namespace LeafIndexNodeHandler

theorem initEmpty_logsFirst (p : PageNum) : Within LogsFirst (initEmpty p : MtrM κ _) :=
  Within.logged fun _ => (initEmpty_grows p true).bind fun _ =>
    (readNode_logsFirst p).grows.bind fun _ => writeNode_grows _ _

theorem setNextPage_logsFirst (p nextPage : PageNum) :
    Within LogsFirst (setNextPage p nextPage : MtrM κ _) :=
  (readNode_logsFirst p).bind fun _ => Within.logged fun _ => writeNode_grows _ _

theorem insert_logsFirst (p : PageNum) (index : Nat) (item : Item κ) :
    Within LogsFirst (insert p index item) :=
  Within.logged fun _ => recoverInsertItems_grows _ _ _ _

theorem remove_logsFirst (p : PageNum) (index : Int) :
    Within LogsFirst (remove p index : MtrM κ _) :=
  (itemAt_logsFirst p index).bind fun _ => Within.logged fun _ =>
    recoverRemoveItems_grows _ _ _ _

theorem removeKey_logsFirst (keyComparator : κ → κ → Int) (p : PageNum) (key : κ) :
    Within LogsFirst (removeKey keyComparator p key) :=
  (readNode_logsFirst p).bind fun _ => Within.ite
    (fun _ => (remove_logsFirst _ _).bind fun _ => Within.pure _) fun _ => Within.pure _

theorem append_logsFirst (p : PageNum) (items : List (Item κ)) :
    Within LogsFirst (append p items) :=
  (readNode_logsFirst p).bind fun _ => Within.logged fun _ => recoverInsertItems_grows _ _ _ _

theorem preappend_logsFirst (p : PageNum) (item : Item κ) :
    Within LogsFirst (preappend p item) :=
  insert_logsFirst p 0 item

theorem moveHalfTo_logsFirst (p other : PageNum) :
    Within LogsFirst (moveHalfTo p other : MtrM κ _) :=
  (readNode_logsFirst p).bind fun _ => (append_logsFirst other _).bind fun _ =>
    Within.logged fun _ => recoverRemoveItems_grows _ _ _ _

theorem moveFirstToEnd_logsFirst (p other : PageNum) :
    Within LogsFirst (moveFirstToEnd p other : MtrM κ _) :=
  (itemAt_logsFirst p 0).bind fun _ => (append_logsFirst other _).bind fun _ =>
    remove_logsFirst p 0

theorem moveLastToFront_logsFirst (p other : PageNum) :
    Within LogsFirst (moveLastToFront p other : MtrM κ _) :=
  (readNode_logsFirst p).bind fun _ => (itemAt_logsFirst p _).bind fun _ =>
    (preappend_logsFirst other _).bind fun _ => (readNode_logsFirst p).bind fun _ =>
      remove_logsFirst p _

theorem moveTo_logsFirst (p other : PageNum) : Within LogsFirst (moveTo p other : MtrM κ _) :=
  (readNode_logsFirst p).bind fun _ => (append_logsFirst other _).bind fun _ =>
    (setNextPage_logsFirst other _).bind fun _ => Within.logged fun _ => decreaseSize_grows _ _

end LeafIndexNodeHandler

namespace InternalIndexNodeHandler

theorem initEmpty_logsFirst (p : PageNum) : Within LogsFirst (initEmpty p : MtrM κ _) :=
  Within.logged fun _ => initEmpty_grows p false

theorem createNewRoot_logsFirst [Inhabited κ] (p firstPage : PageNum) (key : κ)
    (secondPage : PageNum) : Within LogsFirst (createNewRoot p firstPage key secondPage) :=
  Within.logged fun _ => (readNode_logsFirst p).grows.bind fun _ =>
    Within.ite (fun _ => Within.throw _) fun _ => writeNode_grows _ _

theorem insert_logsFirst (keyComparator : κ → κ → Int) (p : PageNum) (key : κ)
    (child : PageNum) : Within LogsFirst (insert keyComparator p key child) :=
  (readNode_logsFirst p).bind fun _ => Within.logged fun _ => recoverInsertItems_grows _ _ _ _

theorem insertItems_logsFirst (p : PageNum) (index : Nat) (items : List (Item κ)) :
    Within LogsFirst (insertItems p index items) :=
  Within.logged fun _ => (recoverInsertItems_grows _ _ _ _).bind fun _ =>
    Within.forM items fun item _ => (getPage_logsFirst item.child).grows.bind fun _ =>
      (setParentPageNum_logsFirst item.child p).grows.bind fun _ =>
        (markDirty_logsFirst item.child).grows

theorem append_logsFirst (p : PageNum) (items : List (Item κ)) :
    Within LogsFirst (append p items) :=
  (readNode_logsFirst p).bind fun _ => insertItems_logsFirst p _ items

theorem preappend_logsFirst (p : PageNum) (item : Item κ) :
    Within LogsFirst (preappend p item) :=
  insertItems_logsFirst p 0 [item]

theorem moveHalfTo_logsFirst (p other : PageNum) :
    Within LogsFirst (moveHalfTo p other : MtrM κ _) :=
  (readNode_logsFirst p).bind fun _ => (append_logsFirst other _).bind fun _ =>
    Within.logged fun _ => decreaseSize_grows _ _

theorem setKeyAt_logsFirst (p : PageNum) (index : Nat) (key : κ) :
    Within LogsFirst (setKeyAt p index key) :=
  (itemAt_logsFirst p index).bind fun _ => Within.logged fun _ =>
    (readNode_logsFirst p).grows.bind fun _ => writeNode_grows _ _

theorem valueAt_logsFirst (p : PageNum) (index : Nat) :
    Within LogsFirst (valueAt p index : MtrM κ _) :=
  (itemAt_logsFirst p index).bind fun _ => Within.pure _

theorem remove_logsFirst (p : PageNum) (index : Nat) :
    Within LogsFirst (remove p index : MtrM κ _) :=
  (itemAt_logsFirst p index).bind fun _ => Within.logged fun _ =>
    recoverRemoveItems_grows _ _ _ _

theorem moveTo_logsFirst (p other : PageNum) : Within LogsFirst (moveTo p other : MtrM κ _) :=
  (readNode_logsFirst p).bind fun _ => (append_logsFirst other _).bind fun _ =>
    Within.logged fun _ => recoverRemoveItems_grows _ _ _ _

theorem moveFirstToEnd_logsFirst (p other : PageNum) :
    Within LogsFirst (moveFirstToEnd p other : MtrM κ _) :=
  (itemAt_logsFirst p 0).bind fun _ => (append_logsFirst other _).bind fun _ =>
    remove_logsFirst p 0

theorem moveLastToFront_logsFirst (p other : PageNum) :
    Within LogsFirst (moveLastToFront p other : MtrM κ _) :=
  (readNode_logsFirst p).bind fun _ => (itemAt_logsFirst p _).bind fun _ =>
    (preappend_logsFirst other _).bind fun _ => Within.logged fun _ => decreaseSize_grows _ _

end InternalIndexNodeHandler

namespace NodeKind

theorem initEmpty_logsFirst (kind : NodeKind) (p : PageNum) :
    Within LogsFirst (kind.initEmpty p : MtrM κ _) := by
  cases kind with
  | leaf => exact LeafIndexNodeHandler.initEmpty_logsFirst p
  | internal => exact InternalIndexNodeHandler.initEmpty_logsFirst p

theorem moveHalfTo_logsFirst (kind : NodeKind) (p other : PageNum) :
    Within LogsFirst (kind.moveHalfTo p other : MtrM κ _) := by
  cases kind with
  | leaf => exact LeafIndexNodeHandler.moveHalfTo_logsFirst p other
  | internal => exact InternalIndexNodeHandler.moveHalfTo_logsFirst p other

theorem moveTo_logsFirst (kind : NodeKind) (p other : PageNum) :
    Within LogsFirst (kind.moveTo p other : MtrM κ _) := by
  cases kind with
  | leaf => exact LeafIndexNodeHandler.moveTo_logsFirst p other
  | internal => exact InternalIndexNodeHandler.moveTo_logsFirst p other

theorem moveFirstToEnd_logsFirst (kind : NodeKind) (p other : PageNum) :
    Within LogsFirst (kind.moveFirstToEnd p other : MtrM κ _) := by
  cases kind with
  | leaf => exact LeafIndexNodeHandler.moveFirstToEnd_logsFirst p other
  | internal => exact InternalIndexNodeHandler.moveFirstToEnd_logsFirst p other

theorem moveLastToFront_logsFirst (kind : NodeKind) (p other : PageNum) :
    Within LogsFirst (kind.moveLastToFront p other : MtrM κ _) := by
  cases kind with
  | leaf => exact LeafIndexNodeHandler.moveLastToFront_logsFirst p other
  | internal => exact InternalIndexNodeHandler.moveLastToFront_logsFirst p other

end NodeKind

/-! ## The tree -/

namespace BplusTreeHandler

theorem findLeafFrom_logsFirst (childPageGetter : IndexNode κ → Nat) :
    ∀ (fuel : Nat) (p : PageNum), Within LogsFirst (findLeafFrom childPageGetter fuel p)
  | 0, _ => Within.throw _
  | fuel + 1, p => (readNode_logsFirst p).bind fun _ => Within.ite (fun _ => Within.pure _) fun _ =>
    (InternalIndexNodeHandler.valueAt_logsFirst p _).bind fun next =>
      (getPage_logsFirst next).bind fun _ => findLeafFrom_logsFirst childPageGetter fuel next

theorem findLeafInternal_logsFirst (childPageGetter : IndexNode κ → Nat) :
    Within LogsFirst (findLeafInternal childPageGetter) :=
  readRootPage_logsFirst.bind fun rootPage => Within.ite (fun _ => Within.throw _) fun _ =>
    (getPage_logsFirst rootPage).bind fun _ => rounds_logsFirst.bind fun fuel =>
      findLeafFrom_logsFirst childPageGetter fuel rootPage

theorem updateRootPageNumLocked_logsFirst (rootPage : PageNum) :
    Within LogsFirst (updateRootPageNumLocked rootPage : MtrM κ _) :=
  nextOutcome_logsFirst.bind fun
    | some _ => Within.throw _
    | none => readRootPage_logsFirst.bind fun _ => Within.logged fun _ =>
      (writeRootPage_grows rootPage).bind fun _ => (markDirty_logsFirst _).grows

theorem split_logsFirst (kind : NodeKind) (p : PageNum) :
    Within LogsFirst (split kind p : MtrM κ _) :=
  allocatePage_logsFirst.bind fun newPage => (kind.initEmpty_logsFirst newPage).bind fun _ =>
    (readNode_logsFirst p).bind fun _ => (setParentPageNum_logsFirst newPage _).bind fun _ =>
      (ignoreRC_logsFirst (kind.moveHalfTo_logsFirst p newPage)).bind fun _ =>
        (markDirty_logsFirst p).bind fun _ => (markDirty_logsFirst newPage).bind fun _ =>
          Within.pure _

section Trees

variable [Inhabited κ] (tree : BplusTreeHandler κ)

omit [Inhabited κ] in
theorem insertIntoHalf_logsFirst (parentPage newParentPage newPage : PageNum) (key : κ) :
    Within LogsFirst (insertIntoHalf tree parentPage newParentPage newPage key) :=
  (keyAt_logsFirst newParentPage 0).bind fun _ => Within.ite
    (fun _ => (InternalIndexNodeHandler.insert_logsFirst _ newParentPage key newPage).bind
      fun _ => setParentPageNum_logsFirst _ _)
    fun _ => (InternalIndexNodeHandler.insert_logsFirst _ parentPage key newPage).bind
      fun _ => setParentPageNum_logsFirst _ _

theorem insertEntryIntoParent_logsFirst : ∀ (fuel : Nat) (p newPage : PageNum) (key : κ),
    Within LogsFirst (insertEntryIntoParent tree fuel p newPage key)
  | 0, _, _, _ => Within.throw _
  | fuel + 1, p, newPage, key => by
    refine (readNode_logsFirst p).bind fun node => Within.ite (fun _ => ?_) fun _ => ?_
    · exact allocatePage_logsFirst.bind fun rootPage =>
        (InternalIndexNodeHandler.initEmpty_logsFirst rootPage).bind fun _ =>
        (InternalIndexNodeHandler.createNewRoot_logsFirst rootPage p key newPage).bind fun _ =>
        (setParentPageNum_logsFirst p rootPage).bind fun _ =>
        (setParentPageNum_logsFirst newPage rootPage).bind fun _ =>
        (markDirty_logsFirst p).bind fun _ => (markDirty_logsFirst newPage).bind fun _ =>
        (updateRootPageNumLocked_logsFirst rootPage).bind fun _ => markDirty_logsFirst rootPage
    · refine (getPage_logsFirst _).bind fun _ => (readNode_logsFirst _).bind fun _ =>
        Within.ite (fun _ => ?_) fun _ => ?_
      · exact (InternalIndexNodeHandler.insert_logsFirst _ _ key newPage).bind fun _ =>
          (setParentPageNum_logsFirst newPage _).bind fun _ =>
          (markDirty_logsFirst p).bind fun _ => (markDirty_logsFirst newPage).bind fun _ =>
          markDirty_logsFirst _
      · exact (split_logsFirst .internal _).bind fun newParentPage =>
          (insertIntoHalf_logsFirst tree _ newParentPage newPage key).bind fun _ =>
          (keyAt_logsFirst newParentPage 0).bind fun newKey =>
          insertEntryIntoParent_logsFirst fuel _ newParentPage newKey

omit [Inhabited κ] in
theorem insertIntoLeafHalf_logsFirst (p newPage : PageNum) (leafSize insertPosition : Nat)
    (item : Item κ) :
    Within LogsFirst (insertIntoLeafHalf p newPage leafSize insertPosition item) :=
  Within.ite (fun _ => LeafIndexNodeHandler.insert_logsFirst _ _ item) fun _ =>
    LeafIndexNodeHandler.insert_logsFirst _ _ item

theorem insertAfterSplit_logsFirst (p newPage : PageNum) (insertPosition : Nat) (item : Item κ) :
    Within LogsFirst (do
      let leafNode ← readNode p
      LeafIndexNodeHandler.setNextPage newPage leafNode.nextBrother
      setParentPageNum newPage leafNode.parent
      LeafIndexNodeHandler.setNextPage p newPage
      insertIntoLeafHalf p newPage leafNode.size insertPosition item
      let newKey ← keyAt newPage 0
      insertEntryIntoParent tree (← rounds) p newPage newKey) :=
  (readNode_logsFirst p).bind fun leafNode =>
    (LeafIndexNodeHandler.setNextPage_logsFirst newPage _).bind fun _ =>
    (setParentPageNum_logsFirst newPage _).bind fun _ =>
    (LeafIndexNodeHandler.setNextPage_logsFirst p newPage).bind fun _ =>
    (insertIntoLeafHalf_logsFirst p newPage leafNode.size insertPosition item).bind fun _ =>
    (keyAt_logsFirst newPage 0).bind fun newKey => rounds_logsFirst.bind fun fuel =>
    insertEntryIntoParent_logsFirst tree fuel p newPage newKey

theorem insertEntryIntoLeafNode_logsFirst (p : PageNum) (key : κ) (rid : RID) :
    Within LogsFirst (insertEntryIntoLeafNode tree p key rid) :=
  (readNode_logsFirst p).bind fun _ => Within.ite (fun _ => Within.throw _) fun _ => Within.ite
    (fun _ => (LeafIndexNodeHandler.insert_logsFirst p _ _).bind fun _ => markDirty_logsFirst p)
    fun _ => (split_logsFirst .leaf p).bind fun newPage =>
      insertAfterSplit_logsFirst tree p newPage _ _

omit [Inhabited κ] in
theorem createNewTree_logsFirst (key : κ) (rid : RID) :
    Within LogsFirst (createNewTree key rid) :=
  readRootPage_logsFirst.bind fun _ => Within.ite (fun _ => Within.throw _) fun _ =>
    allocatePage_logsFirst.bind fun newPage =>
      (LeafIndexNodeHandler.initEmpty_logsFirst newPage).bind fun _ =>
      (LeafIndexNodeHandler.insert_logsFirst newPage 0 _).bind fun _ =>
      (updateRootPageNumLocked_logsFirst newPage).bind fun _ => markDirty_logsFirst newPage

omit [Inhabited κ] in
theorem adjustRoot_logsFirst (p : PageNum) : Within LogsFirst (adjustRoot p : MtrM κ _) :=
  (readNode_logsFirst p).bind fun _ => Within.ite (fun _ => markDirty_logsFirst p) fun _ =>
    Within.ite
      (fun _ => (updateRootPageNumLocked_logsFirst _).bind fun _ => disposePage_logsFirst p)
      fun _ => (InternalIndexNodeHandler.valueAt_logsFirst p 0).bind fun child =>
        (getPage_logsFirst child).bind fun _ =>
        (setParentPageNum_logsFirst child _).bind fun _ =>
        (updateRootPageNumLocked_logsFirst child).bind fun _ => disposePage_logsFirst p

omit [Inhabited κ] in
theorem moveFromNeighbor_logsFirst (kind : NodeKind) (neighborPage p parentPage : PageNum)
    (index : Nat) :
    Within LogsFirst (moveFromNeighbor kind neighborPage p parentPage index : MtrM κ _) :=
  Within.ite
    (fun _ => (ignoreRC_logsFirst (kind.moveFirstToEnd_logsFirst neighborPage p)).bind fun _ =>
      (keyAt_logsFirst neighborPage 0).bind fun key =>
      InternalIndexNodeHandler.setKeyAt_logsFirst parentPage _ key)
    fun _ => (ignoreRC_logsFirst (kind.moveLastToFront_logsFirst neighborPage p)).bind fun _ =>
      (keyAt_logsFirst p 0).bind fun key =>
      InternalIndexNodeHandler.setKeyAt_logsFirst parentPage _ key

omit [Inhabited κ] in
theorem redistribute_logsFirst (kind : NodeKind) (neighborPage p parentPage : PageNum)
    (index : Nat) :
    Within LogsFirst (redistribute kind neighborPage p parentPage index : MtrM κ _) :=
  (moveFromNeighbor_logsFirst kind neighborPage p parentPage index).bind fun _ =>
    (markDirty_logsFirst neighborPage).bind fun _ => (markDirty_logsFirst p).bind fun _ =>
    markDirty_logsFirst parentPage

omit [Inhabited κ] in
theorem mergeRight_logsFirst (kind : NodeKind) (leftPage rightPage parentPage : PageNum)
    (index : Nat) :
    Within LogsFirst (mergeRight kind leftPage rightPage parentPage index : MtrM κ _) :=
  (InternalIndexNodeHandler.remove_logsFirst parentPage index).bind fun _ =>
    (kind.moveTo_logsFirst rightPage leftPage).bind fun _ =>
    Within.bind
      ((readNode_logsFirst leftPage).bind fun _ => Within.ite
        (fun _ => (readNode_logsFirst rightPage).bind fun _ =>
          LeafIndexNodeHandler.setNextPage_logsFirst leftPage _)
        fun _ => Within.pure _)
      fun _ => disposePage_logsFirst rightPage

omit [Inhabited κ] in
theorem coalesce_logsFirst (kind : NodeKind) (neighborPage p parentPage : PageNum)
    (index : Nat) :
    Within LogsFirst (coalesce kind neighborPage p parentPage index : MtrM κ _) :=
  Within.ite (fun _ => mergeRight_logsFirst kind p neighborPage parentPage _) fun _ =>
    mergeRight_logsFirst kind neighborPage p parentPage _

omit [Inhabited κ] in
theorem coalesceOrRedistribute_logsFirst : ∀ (fuel : Nat) (kind : NodeKind) (p : PageNum),
    Within LogsFirst (coalesceOrRedistribute tree fuel kind p)
  | 0, _, _ => Within.throw _
  | fuel + 1, kind, p => by
    refine (readNode_logsFirst p).bind fun node => Within.ite (fun _ => Within.pure _) fun _ =>
      Within.ite (fun _ => Within.ite (fun _ => Within.pure _) fun _ => ?_) fun _ => ?_
    · exact ignoreRC_logsFirst (adjustRoot_logsFirst p)
    · refine (getPage_logsFirst node.parent).bind fun _ => (readNode_logsFirst _).bind fun _ =>
        (keyAt_logsFirst p _).bind fun _ =>
        (InternalIndexNodeHandler.valueAt_logsFirst _ _).bind fun _ =>
        Within.ite (fun _ => Within.throw _) fun _ =>
        (InternalIndexNodeHandler.valueAt_logsFirst _ _).bind fun neighborPage =>
        (getPage_logsFirst neighborPage).bind fun _ => (readNode_logsFirst _).bind fun _ =>
        Within.ite (fun _ => redistribute_logsFirst kind neighborPage p _ _) fun _ => ?_
      exact (coalesce_logsFirst kind neighborPage p _ _).bind fun _ =>
        coalesceOrRedistribute_logsFirst fuel .internal _

omit [Inhabited κ] in
theorem deleteEntryInternal_logsFirst (p : PageNum) (key : κ) :
    Within LogsFirst (deleteEntryInternal tree p key) :=
  (LeafIndexNodeHandler.removeKey_logsFirst _ p key).bind fun _ => Within.ite
    (fun _ => Within.throw _) fun _ => (markDirty_logsFirst p).bind fun _ =>
      (readNode_logsFirst p).bind fun _ => Within.ite (fun _ => Within.pure _) fun _ =>
      rounds_logsFirst.bind fun fuel => coalesceOrRedistribute_logsFirst tree fuel .leaf p

end Trees

section Operations

variable {υ : Type} [Inhabited υ] [DecidableEq υ] (index : BplusTreeHandler (Key υ))

omit [Inhabited υ] in
theorem checkUnique_logsFirst (userKey : υ) (isNull : Bool) :
    Within LogsFirst (checkUnique index userKey isNull) := by
  have hcompare : ∀ (p : PageNum) (i : Nat) (frame : PageNum),
      Within LogsFirst (tryInsertEntry.compareUserKey userKey p i frame) := fun p i frame =>
    (keyAt_logsFirst p i).bind fun _ => (markDirty_logsFirst frame).bind fun _ =>
      Within.ite (fun _ => Within.throw _) fun _ => Within.pure _
  refine Within.ite (fun _ => ?_) fun _ => Within.pure _
  exact (findLeafInternal_logsFirst _).bind fun p => (readNode_logsFirst p).bind fun _ =>
    Within.ite (fun _ => hcompare p _ p) fun _ => Within.ite (fun _ => markDirty_logsFirst p)
      fun _ => (markDirty_logsFirst p).bind fun _ => (getPage_logsFirst _).bind fun _ =>
        hcompare p 0 _

theorem insertEntryMtr_logsFirst (userKey : υ) (rid : RID) (isNull : Bool) :
    Within LogsFirst (insertEntryMtr index userKey rid isNull) :=
  readRootPage_logsFirst.bind fun _ => Within.ite (fun _ => createNewTree_logsFirst _ rid) fun _ =>
    (checkUnique_logsFirst index userKey isNull).bind fun _ =>
      (findLeafInternal_logsFirst _).bind fun p => insertEntryIntoLeafNode_logsFirst index p _ rid

omit [Inhabited υ] [DecidableEq υ] in
theorem deleteEntryMtr_logsFirst (userKey : υ) (rid : RID) :
    Within LogsFirst (deleteEntryMtr index userKey rid) :=
  readRootPage_logsFirst.bind fun _ => Within.ite (fun _ => Within.throw _) fun _ =>
    (findLeafInternal_logsFirst _).bind fun p => deleteEntryInternal_logsFirst index p _

end Operations

end BplusTreeHandler

end ObHtap
