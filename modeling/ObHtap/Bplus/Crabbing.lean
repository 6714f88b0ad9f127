import ObHtap.Bplus.LatchMemo
import ObHtap.Library.Triple

/-!
# Changes and latches

The rest of an insertion or a deletion once `find_leaf` has returned, with its latch memo beside
the mini-transaction.  Every change of the pages is kept with what the operation holds at that
moment, and so is the way that the recursion takes towards the root.
-/

namespace ObHtap

/-- A change of the pages, with the latch memo at that moment and the pages that the operation has
allocated so far. -/
structure Change (κ : Type) where
  before : Pages κ
  after : Pages κ
  memo : List (LatchMemoItem PageNum)
  allocated : List PageNum

/-- A mini-transaction with its latch memo.  `climbed` are the pages that the recursion has come
to; `none` is the root page number. -/
structure Crabbing (κ : Type) extends Mtr κ where
  memo : List (LatchMemoItem PageNum)
  allocated : List PageNum
  changes : List (Change κ)
  climbed : List (Option PageNum)

abbrev CrabM (κ : Type) := EStateM Fault (Crabbing κ)

namespace Crabbing

variable {κ α : Type}

/-- An operation that `find_leaf` has returned to. -/
def start (s : Mtr κ) (memo : List (LatchMemoItem PageNum)) : Crabbing κ :=
  { s with memo, allocated := [], changes := [], climbed := [] }

/-- The mini-transaction goes on to `t` under the same latches. -/
def goOn (s : Crabbing κ) (t : Mtr κ) : Crabbing κ :=
  { t with
    memo := s.memo
    allocated := s.allocated
    changes := s.changes ++ [⟨s.pages, t.pages, s.memo, s.allocated⟩]
    climbed := s.climbed }

/-- A part of the operation that takes no latch. -/
def under (x : MtrM κ α) : CrabM κ α := fun s =>
  match x s.toMtr with
  | .ok a t => .ok a (s.goOn t)
  | .error e t => .error e (s.goOn t)

/-- A part of the operation that only looks at the pages. -/
def look (x : MtrM κ α) : CrabM κ α := fun s =>
  match x s.toMtr with
  | .ok a _ => .ok a s
  | .error e _ => .error e s

/-- The memo gets one more item. -/
def hold (item : LatchMemoItem PageNum) : CrabM κ Unit :=
  modify fun s => { s with memo := s.memo ++ [item] }

/-- `LatchMemo::xlatch`. -/
def xlatch (pageNum : PageNum) : CrabM κ Unit := hold ⟨.exclusive, some pageNum⟩

/-- `LatchMemo::get_page`. -/
def getPage (pageNum : PageNum) : CrabM κ Unit := do
  under (ObHtap.getPage pageNum)
  hold ⟨.pin, some pageNum⟩

/-- `DiskBufferPool::allocate_page`. -/
def allocatePage : CrabM κ PageNum := do
  let pageNum ← under ObHtap.allocatePage
  modify fun s => { s with allocated := s.allocated ++ [pageNum] }
  pure pageNum

/-- The recursion comes to a page, or to the root page number. -/
def climb (target : Option PageNum) : CrabM κ Unit :=
  modify fun s => { s with climbed := s.climbed ++ [target] }

/-- `update_root_page_num_locked`. -/
def updateRootPageNumLocked (rootPageNum : PageNum) : CrabM κ Unit := do
  match ← under nextOutcome with
  | some _ => throw .abort
  | none =>
    hold ⟨.pin, some firstIndexPage⟩
    xlatch firstIndexPage
    under do
      let oldRootPage ← readRootPage
      appendLogEntry (.updateRootPage rootPageNum oldRootPage)
      writeRootPage rootPageNum
      markDirty firstIndexPage

/-! ## Insertion -/

/-- `split`. -/
def split (kind : NodeKind) (pageNum : PageNum) : CrabM κ PageNum := do
  let newPage ← allocatePage
  hold ⟨.pin, some newPage⟩
  xlatch newPage
  under do
    kind.initEmpty newPage
    let node ← readNode pageNum
    IndexNodeHandler.setParentPageNum newPage node.parent
    ignoreRC (kind.moveHalfTo pageNum newPage)
    markDirty pageNum
    markDirty newPage
  pure newPage

variable [Inhabited κ] (tree : BplusTreeHandler κ)

/-- `insert_entry_into_parent`. -/
def insertEntryIntoParent : Nat → PageNum → PageNum → κ → CrabM κ Unit
  | 0, _, _, _ => throw .outOfFuel
  | fuel + 1, pageNum, newPage, key => do
    let node ← look (readNode pageNum)
    let parentPageNum := node.parent
    if parentPageNum = bpInvalidPageNum then
      climb none
      let rootPage ← allocatePage
      under do
        InternalIndexNodeHandler.initEmpty rootPage
        InternalIndexNodeHandler.createNewRoot rootPage pageNum key newPage
        IndexNodeHandler.setParentPageNum pageNum rootPage
        IndexNodeHandler.setParentPageNum newPage rootPage
        markDirty pageNum
        markDirty newPage
      updateRootPageNumLocked rootPage
      under (markDirty rootPage)
    else
      climb (some parentPageNum)
      getPage parentPageNum
      let parentNode ← look (readNode parentPageNum)
      if parentNode.size < IndexNodeHandler.maxSize tree.fileHeader parentNode then
        under do
          InternalIndexNodeHandler.insert tree.keyComparator parentPageNum key newPage
          IndexNodeHandler.setParentPageNum newPage parentPageNum
          markDirty pageNum
          markDirty newPage
          markDirty parentPageNum
      else
        let newParentPage ← split .internal parentPageNum
        under (tree.insertIntoHalf parentPageNum newParentPage newPage key)
        let newKey ← look (IndexNodeHandler.keyAt newParentPage 0)
        insertEntryIntoParent fuel parentPageNum newParentPage newKey

/-- `insert_entry_into_leaf_node`. -/
def insertEntryIntoLeafNode (pageNum : PageNum) (key : κ) (rid : RID) : CrabM κ Unit := do
  let node ← look (readNode pageNum)
  let (insertPosition, exists_) := LeafIndexNodeHandler.lookup tree.keyComparator node key
  if exists_ then throw (.rc .recordDuplicateKey)
  else if node.size < IndexNodeHandler.maxSize tree.fileHeader node then
    under do
      LeafIndexNodeHandler.insert pageNum insertPosition ⟨key, .rid rid⟩
      markDirty pageNum
  else
    let newPage ← split .leaf pageNum
    under do
      let leafNode ← readNode pageNum
      LeafIndexNodeHandler.setNextPage newPage leafNode.nextBrother
      IndexNodeHandler.setParentPageNum newPage leafNode.parent
      LeafIndexNodeHandler.setNextPage pageNum newPage
      BplusTreeHandler.insertIntoLeafHalf pageNum newPage leafNode.size insertPosition
        ⟨key, .rid rid⟩
    let newKey ← look (IndexNodeHandler.keyAt newPage 0)
    insertEntryIntoParent tree (← look BplusTreeHandler.rounds) pageNum newPage newKey

/-! ## Deletion -/

omit [Inhabited κ]

/-- `adjust_root`. -/
def adjustRoot (rootPage : PageNum) : CrabM κ Unit := do
  let node ← look (readNode rootPage)
  if node.isLeaf ∧ 0 < node.size then under (markDirty rootPage)
  else
    climb none
    if node.isLeaf then
      updateRootPageNumLocked bpInvalidPageNum
      under (disposePage rootPage)
    else
      let childPageNum ← look (InternalIndexNodeHandler.valueAt rootPage 0)
      getPage childPageNum
      under (IndexNodeHandler.setParentPageNum childPageNum bpInvalidPageNum)
      updateRootPageNumLocked childPageNum
      under (disposePage rootPage)

/-- Runs a program whose return code the caller does not look at. -/
def ignoreRC (x : CrabM κ Unit) : CrabM κ Unit := fun s =>
  match x s with
  | .error (.rc _) s' => .ok () s'
  | result => result

/-- `coalesce_or_redistribute`, with the recursive call at the end of `coalesce`. -/
def coalesceOrRedistribute : Nat → NodeKind → PageNum → CrabM κ Unit
  | 0, _, _ => throw .outOfFuel
  | fuel + 1, kind, pageNum => do
    let node ← look (readNode pageNum)
    if IndexNodeHandler.minSize tree.fileHeader node ≤ node.size then pure ()
    else if node.parent = bpInvalidPageNum then
      if 1 < node.size then pure ()
      else ignoreRC (adjustRoot pageNum)
    else
      let parentPage := node.parent
      climb (some parentPage)
      getPage parentPage
      let parentNode ← look (readNode parentPage)
      let key ← look (IndexNodeHandler.keyAt pageNum (node.size - 1))
      let index := (InternalIndexNodeHandler.lookup tree.keyComparator parentNode key).1
      let child ← look (InternalIndexNodeHandler.valueAt parentPage index)
      if child ≠ pageNum then throw .abort
      else
        let neighborPage ← look (InternalIndexNodeHandler.valueAt parentPage
          (if index = 0 then 1 else index - 1))
        getPage neighborPage
        xlatch neighborPage
        let neighborNode ← look (readNode neighborPage)
        if node.size + neighborNode.size > IndexNodeHandler.maxSize tree.fileHeader node then
          under (BplusTreeHandler.redistribute kind neighborPage pageNum parentPage index)
        else
          under (BplusTreeHandler.coalesce kind neighborPage pageNum parentPage index)
          coalesceOrRedistribute fuel .internal parentPage

/-- `delete_entry_internal`. -/
def deleteEntryInternal (leafPage : PageNum) (key : κ) : CrabM κ Unit := do
  let removeCount ← under (LeafIndexNodeHandler.removeKey tree.keyComparator leafPage key)
  if removeCount = 0 then throw (.rc .recordNotExist)
  else
    under (markDirty leafPage)
    let node ← look (readNode leafPage)
    if IndexNodeHandler.minSize tree.fileHeader node ≤ node.size then pure ()
    else coalesceOrRedistribute tree (← look BplusTreeHandler.rounds) .leaf leafPage

/-! ## Without the latches -/

/-- The result of a run without what the latch memo adds. -/
def forget : EStateM.Result Fault (Crabbing κ) α → EStateM.Result Fault (Mtr κ) α
  | .ok a s => .ok a s.toMtr
  | .error e s => .error e s.toMtr

/-- The program does to the mini-transaction what the one without latches does. -/
def Erases (x : CrabM κ α) (y : MtrM κ α) : Prop :=
  ∀ s, forget (x s) = y s.toMtr

namespace Erases

variable {β : Type} {x : CrabM κ α} {y : MtrM κ α}

theorem under (x : MtrM κ α) : Erases (Crabbing.under x) x := by
  intro s
  unfold Crabbing.under
  cases x s.toMtr with
  | ok a t => rfl
  | error e t => rfl

theorem look {x : MtrM κ α} (h : Within (· = ·) x) : Erases (Crabbing.look x) x := by
  intro s
  unfold Crabbing.look
  cases hx : x s.toMtr with
  | ok a t => rw [show t = s.toMtr from (h.ok hx).symm]; rfl
  | error e t => rw [show t = s.toMtr from (h.error hx).symm]; rfl

theorem pure (a : α) : Erases (Pure.pure a : CrabM κ α) (Pure.pure a) := fun _ => rfl

theorem throw (e : Fault) : Erases (throw e : CrabM κ α) (throw e) := fun _ => rfl

theorem bind {f : α → CrabM κ β} {g : α → MtrM κ β} (hx : Erases x y)
    (hf : ∀ a, Erases (f a) (g a)) : Erases (x >>= f) (y >>= g) := by
  intro s
  have h := hx s
  change forget (EStateM.bind x f s) = EStateM.bind y g s.toMtr
  unfold EStateM.bind
  cases hrun : x s with
  | ok a s' =>
    rw [hrun] at h
    rw [← h]
    exact hf a s'
  | error e s' =>
    rw [hrun] at h
    rw [← h]
    rfl

theorem ite {c : Prop} [Decidable c] {x' : CrabM κ α} {y' : MtrM κ α} (h : c → Erases x y)
    (h' : ¬ c → Erases x' y') : Erases (if c then x else x') (if c then y else y') := by
  by_cases hc : c
  · rw [if_pos hc, if_pos hc]; exact h hc
  · rw [if_neg hc, if_neg hc]; exact h' hc

theorem trans_eq {y' : MtrM κ α} (h : Erases x y) (heq : y = y') : Erases x y' := heq ▸ h

/-- A step that only the latch memo takes. -/
theorem skip {z : CrabM κ PUnit} (hz : Erases z (Pure.pure ⟨⟩)) {f : PUnit → CrabM κ α}
    (hf : Erases (f ⟨⟩) y) : Erases (z >>= f) y :=
  hz.bind fun _ => hf

/-- A part of the operation between two parts that take latches. -/
theorem under_bind {f : α → CrabM κ β} {g : α → MtrM κ β} (hf : ∀ a, Erases (f a) (g a)) :
    Erases (Crabbing.under y >>= f) (y >>= g) :=
  (Erases.under y).bind hf

theorem look_bind {f : α → CrabM κ β} {g : α → MtrM κ β} (h : Within (· = ·) y)
    (hf : ∀ a, Erases (f a) (g a)) : Erases (Crabbing.look y >>= f) (y >>= g) :=
  (Erases.look h).bind hf

end Erases

/-! What only looks at the pages. -/

theorem readNode_looks (p : PageNum) : Within (· = ·) (readNode p : MtrM κ _) :=
  Within.get.bind fun _ => Within.pure _

theorem rounds_looks : Within (· = ·) (BplusTreeHandler.rounds : MtrM κ _) :=
  Within.get.bind fun _ => Within.pure _

theorem itemAt_looks (p : PageNum) (index : Int) :
    Within (· = ·) (IndexNodeHandler.itemAt p index : MtrM κ _) :=
  (readNode_looks p).bind fun node => Within.ite (fun _ => Within.throw _) fun _ => by
    cases node.items[index.toNat]? with
    | none => exact Within.throw _
    | some item => exact Within.pure item

theorem keyAt_looks (p : PageNum) (index : Int) :
    Within (· = ·) (IndexNodeHandler.keyAt p index : MtrM κ _) :=
  (itemAt_looks p index).bind fun _ => Within.pure _

theorem valueAt_looks (p : PageNum) (index : Nat) :
    Within (· = ·) (InternalIndexNodeHandler.valueAt p index : MtrM κ _) :=
  (itemAt_looks p index).bind fun _ => Within.pure _

theorem hold_erases (item : LatchMemoItem PageNum) :
    Erases (hold item : CrabM κ Unit) (pure ()) := fun _ => rfl

theorem climb_erases (target : Option PageNum) :
    Erases (climb target : CrabM κ Unit) (pure ()) := fun _ => rfl

theorem getPage_erases (p : PageNum) : Erases (getPage p : CrabM κ Unit) (ObHtap.getPage p) := by
  have h : Erases (getPage p : CrabM κ Unit) (ObHtap.getPage p >>= fun _ => pure ()) :=
    .under_bind fun _ => hold_erases _
  rwa [bind_pure_unit] at h

theorem allocatePage_erases : Erases (allocatePage : CrabM κ _) ObHtap.allocatePage := by
  have h : Erases (allocatePage : CrabM κ _) (ObHtap.allocatePage >>= fun p => pure p) :=
    .under_bind fun p => .skip (fun _ => rfl) (.pure p)
  rwa [bind_pure] at h

theorem updateRootPageNumLocked_erases (rootPage : PageNum) :
    Erases (updateRootPageNumLocked rootPage : CrabM κ Unit)
      (BplusTreeHandler.updateRootPageNumLocked rootPage) :=
  .under_bind fun
    | some _ => .throw _
    | none => .skip (hold_erases _) <| .skip (hold_erases _) <| .under _

theorem split_erases (kind : NodeKind) (p : PageNum) :
    Erases (split kind p : CrabM κ _) (BplusTreeHandler.split kind p) := by
  refine allocatePage_erases.bind fun newPage => .skip (hold_erases _) <| .skip (hold_erases _) ?_
  refine Erases.trans_eq (.under_bind fun _ => .pure newPage) ?_
  simp only [bind_assoc]

theorem insertEntryIntoParent_erases [Inhabited κ] (fuel : Nat) (p newPage : PageNum) (key : κ) :
    Erases (insertEntryIntoParent tree fuel p newPage key)
      (tree.insertEntryIntoParent fuel p newPage key) := by
  induction fuel generalizing p newPage key with
  | zero => exact .throw _
  | succ fuel ih =>
    refine .look_bind (readNode_looks p) fun node => .ite (fun _ => ?_) fun _ => ?_
    · refine .skip (climb_erases _) <| allocatePage_erases.bind fun rootPage => ?_
      refine Erases.trans_eq (.under_bind fun _ => (updateRootPageNumLocked_erases _).bind fun _ =>
        .under _) ?_
      simp only [bind_assoc]
    · refine .skip (climb_erases _) <| (getPage_erases _).bind fun _ => ?_
      refine .look_bind (readNode_looks _) fun parentNode => .ite (fun _ => .under _) fun _ => ?_
      refine (split_erases _ _).bind fun newParentPage => .under_bind fun _ => ?_
      exact .look_bind (keyAt_looks _ _) fun newKey => ih _ _ _

/-- The latches leave an insertion as it is. -/
theorem insertEntryIntoLeafNode_erases [Inhabited κ] (p : PageNum) (key : κ) (rid : RID) :
    Erases (insertEntryIntoLeafNode tree p key rid) (tree.insertEntryIntoLeafNode p key rid) := by
  refine .look_bind (readNode_looks p) fun node => .ite (fun _ => .throw _) fun _ => .ite
    (fun _ => .under _) fun _ => (split_erases _ _).bind fun newPage => ?_
  refine Erases.trans_eq (.under_bind fun _ => .look_bind (keyAt_looks newPage 0) fun newKey =>
    .look_bind rounds_looks fun rounds =>
      insertEntryIntoParent_erases tree rounds p newPage newKey) ?_
  simp only [bind_assoc]

theorem adjustRoot_erases (p : PageNum) :
    Erases (adjustRoot p : CrabM κ Unit) (BplusTreeHandler.adjustRoot p) := by
  refine .look_bind (readNode_looks p) fun node => .ite (fun _ => .under _) fun _ =>
    .skip (climb_erases _) ?_
  refine .ite (fun _ => (updateRootPageNumLocked_erases _).bind fun _ => .under _) fun _ => ?_
  refine .look_bind (valueAt_looks p 0) fun child => (getPage_erases child).bind fun _ =>
    .under_bind fun _ => ?_
  exact (updateRootPageNumLocked_erases _).bind fun _ => .under _

theorem ignoreRC_erases {x : CrabM κ Unit} {y : MtrM κ Unit} (h : Erases x y) :
    Erases (ignoreRC x) (ObHtap.ignoreRC y) := by
  intro s
  unfold ignoreRC ObHtap.ignoreRC
  rw [← h s]
  cases x s with
  | ok a s' => rfl
  | error e s' =>
    cases e with
    | rc rc => rfl
    | abort => rfl
    | outOfFuel => rfl

theorem coalesceOrRedistribute_erases (fuel : Nat) (kind : NodeKind) (p : PageNum) :
    Erases (coalesceOrRedistribute tree fuel kind p) (tree.coalesceOrRedistribute fuel kind p) := by
  induction fuel generalizing kind p with
  | zero => exact .throw _
  | succ fuel ih =>
    refine .look_bind (readNode_looks p) fun node => .ite (fun _ => .pure _) fun _ => .ite
      (fun _ => .ite (fun _ => .pure _) fun _ => ignoreRC_erases (adjustRoot_erases p))
      fun _ => .skip (climb_erases _) <| (getPage_erases _).bind fun _ => ?_
    refine .look_bind (readNode_looks _) fun parentNode => .look_bind (keyAt_looks p _) fun key =>
      .look_bind (valueAt_looks _ _) fun child => .ite (fun _ => .throw _) fun _ =>
      .look_bind (valueAt_looks _ _) fun neighborPage => (getPage_erases _).bind fun _ =>
      .skip (hold_erases _) <| .look_bind (readNode_looks _) fun _ => ?_
    exact .ite (fun _ => .under _) fun _ => .under_bind fun _ => ih _ _

/-- The latches leave a deletion as it is. -/
theorem deleteEntryInternal_erases (p : PageNum) (key : κ) :
    Erases (deleteEntryInternal tree p key) (tree.deleteEntryInternal p key) := by
  refine .under_bind fun removeCount => .ite (fun _ => .throw _) fun _ => .under_bind fun _ => ?_
  exact .look_bind (readNode_looks p) fun node => .ite (fun _ => .pure _) fun _ =>
    .look_bind rounds_looks fun rounds => coalesceOrRedistribute_erases tree rounds .leaf p

end Crabbing

end ObHtap
