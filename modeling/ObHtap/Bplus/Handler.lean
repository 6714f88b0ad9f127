import ObHtap.Bplus.NodeHandler

/-!
# `BplusTreeHandler`

Insertion and deletion of index entries: the descent to a leaf, splits that climb towards the
root, and the redistribution and merging of nodes that have become too small.
-/

namespace ObHtap

open IndexNodeHandler

/-- What an opened index does not change: its header, without the root page, and the
comparator of its keys. -/
structure BplusTreeHandler (κ : Type) where
  fileHeader : IndexFileHeader
  keyComparator : κ → κ → Int

/-- The node handler class that a template function is instantiated with. -/
inductive NodeKind where
  | leaf
  | internal
  deriving DecidableEq

namespace NodeKind

variable {κ : Type}

def initEmpty : NodeKind → PageNum → MtrM κ Unit
  | leaf => LeafIndexNodeHandler.initEmpty
  | internal => InternalIndexNodeHandler.initEmpty

def moveHalfTo : NodeKind → PageNum → PageNum → MtrM κ Unit
  | leaf => LeafIndexNodeHandler.moveHalfTo
  | internal => InternalIndexNodeHandler.moveHalfTo

def moveTo : NodeKind → PageNum → PageNum → MtrM κ Unit
  | leaf => LeafIndexNodeHandler.moveTo
  | internal => InternalIndexNodeHandler.moveTo

def moveFirstToEnd : NodeKind → PageNum → PageNum → MtrM κ Unit
  | leaf => LeafIndexNodeHandler.moveFirstToEnd
  | internal => InternalIndexNodeHandler.moveFirstToEnd

def moveLastToFront : NodeKind → PageNum → PageNum → MtrM κ Unit
  | leaf => LeafIndexNodeHandler.moveLastToFront
  | internal => InternalIndexNodeHandler.moveLastToFront

end NodeKind

namespace BplusTreeHandler

variable {κ : Type} [Inhabited κ] (tree : BplusTreeHandler κ)

/-! ## Descent -/

/-- The loop of `find_leaf_internal`, from a page that has just been fetched. -/
def findLeafFrom (childPageGetter : IndexNode κ → Nat) : Nat → PageNum → MtrM κ PageNum
  | 0, _ => throw .outOfFuel
  | fuel + 1, pageNum => do
    let node ← readNode pageNum
    if node.isLeaf then pure pageNum
    else
      let nextPageId ← InternalIndexNodeHandler.valueAt pageNum (childPageGetter node)
      getPage nextPageId
      findLeafFrom childPageGetter fuel nextPageId

/-- The rounds that a descent or a climb through the tree can take. -/
def rounds : MtrM κ Nat := do
  return (← get).pages.fileHeader.pageCount + 1

/-- `find_leaf_internal`.  Latches are not modelled. -/
def findLeafInternal (childPageGetter : IndexNode κ → Nat) : MtrM κ PageNum := do
  let rootPage ← readRootPage
  if rootPage = bpInvalidPageNum then throw (.rc .empty)
  else
    getPage rootPage
    findLeafFrom childPageGetter (← rounds) rootPage

/-- `find_leaf`. -/
def findLeaf (key : κ) : MtrM κ PageNum :=
  findLeafInternal fun node => (InternalIndexNodeHandler.lookup tree.keyComparator node key).1

/-- `left_most_page`. -/
def leftMostPage : MtrM κ PageNum :=
  findLeafInternal fun _ => 0

/-! ## Walking the leaves -/

/-- The loop of `print_leafs` over the leaf chain: the items it comes across. -/
def printLeafsFrom : Nat → PageNum → MtrM κ (List (Item κ))
  | 0, _ => throw .outOfFuel
  | fuel + 1, pageNum => do
    let node ← readNode pageNum
    if node.nextBrother = bpInvalidPageNum then pure node.items
    else
      getPage node.nextBrother
      let items ← printLeafsFrom fuel node.nextBrother
      pure (node.items ++ items)

/-- `print_leafs`. -/
def printLeafs : MtrM κ (List (Item κ)) := do
  let rootPage ← readRootPage
  if rootPage = bpInvalidPageNum then pure []
  else
    let pageNum ← leftMostPage
    printLeafsFrom (← rounds) pageNum

/-! ## Insertion -/

/-- `update_root_page_num_locked`.  A header page that cannot be fetched is a null frame. -/
def updateRootPageNumLocked (rootPageNum : PageNum) : MtrM κ Unit := do
  match ← nextOutcome with
  | some _ => throw .abort
  | none =>
    let oldRootPage ← readRootPage
    appendLogEntry (.updateRootPage rootPageNum oldRootPage)
    writeRootPage rootPageNum
    markDirty firstIndexPage

/-- `split`: a new right sibling takes half of the items.  The return code of `move_half_to`
is not looked at. -/
def split (kind : NodeKind) (pageNum : PageNum) : MtrM κ PageNum := do
  let newPage ← allocatePage
  kind.initEmpty newPage
  let node ← readNode pageNum
  setParentPageNum newPage node.parent
  ignoreRC (kind.moveHalfTo pageNum newPage)
  markDirty pageNum
  markDirty newPage
  pure newPage

/-- Which half of a split parent takes the new child, in `insert_entry_into_parent`. -/
def insertIntoHalf (parentPage newParentPage newPage : PageNum) (key : κ) : MtrM κ Unit := do
  let firstKey ← keyAt newParentPage 0
  if tree.keyComparator key firstKey > 0 then
    InternalIndexNodeHandler.insert tree.keyComparator newParentPage key newPage
    setParentPageNum newPage newParentPage
  else
    InternalIndexNodeHandler.insert tree.keyComparator parentPage key newPage
    setParentPageNum newPage parentPage

/-- `insert_entry_into_parent`. -/
def insertEntryIntoParent : Nat → PageNum → PageNum → κ → MtrM κ Unit
  | 0, _, _, _ => throw .outOfFuel
  | fuel + 1, pageNum, newPage, key => do
    let node ← readNode pageNum
    let parentPageNum := node.parent
    if parentPageNum = bpInvalidPageNum then
      let rootPage ← allocatePage
      InternalIndexNodeHandler.initEmpty rootPage
      InternalIndexNodeHandler.createNewRoot rootPage pageNum key newPage
      setParentPageNum pageNum rootPage
      setParentPageNum newPage rootPage
      markDirty pageNum
      markDirty newPage
      updateRootPageNumLocked rootPage
      markDirty rootPage
    else
      getPage parentPageNum
      let parentNode ← readNode parentPageNum
      if parentNode.size < maxSize tree.fileHeader parentNode then
        InternalIndexNodeHandler.insert tree.keyComparator parentPageNum key newPage
        setParentPageNum newPage parentPageNum
        markDirty pageNum
        markDirty newPage
        markDirty parentPageNum
      else
        let newParentPage ← split .internal parentPageNum
        insertIntoHalf tree parentPageNum newParentPage newPage key
        let newKey ← keyAt newParentPage 0
        insertEntryIntoParent fuel parentPageNum newParentPage newKey

/-- Which half of a split leaf takes the new item, in `insert_entry_into_leaf_node`. -/
def insertIntoLeafHalf (pageNum newPage : PageNum) (leafSize insertPosition : Nat)
    (item : Item κ) : MtrM κ Unit :=
  if insertPosition < leafSize then LeafIndexNodeHandler.insert pageNum insertPosition item
  else LeafIndexNodeHandler.insert newPage (insertPosition - leafSize) item

/-- `insert_entry_into_leaf_node`. -/
def insertEntryIntoLeafNode (pageNum : PageNum) (key : κ) (rid : RID) : MtrM κ Unit := do
  let node ← readNode pageNum
  let (insertPosition, exists_) := LeafIndexNodeHandler.lookup tree.keyComparator node key
  if exists_ then throw (.rc .recordDuplicateKey)
  else if node.size < maxSize tree.fileHeader node then
    LeafIndexNodeHandler.insert pageNum insertPosition ⟨key, .rid rid⟩
    markDirty pageNum
  else
    let newPage ← split .leaf pageNum
    let leafNode ← readNode pageNum
    LeafIndexNodeHandler.setNextPage newPage leafNode.nextBrother
    setParentPageNum newPage leafNode.parent
    LeafIndexNodeHandler.setNextPage pageNum newPage
    insertIntoLeafHalf pageNum newPage leafNode.size insertPosition ⟨key, .rid rid⟩
    let newKey ← keyAt newPage 0
    insertEntryIntoParent tree (← rounds) pageNum newPage newKey

/-- `create_new_tree`. -/
def createNewTree (key : κ) (rid : RID) : MtrM κ Unit := do
  let rootPage ← readRootPage
  if rootPage ≠ bpInvalidPageNum then throw (.rc .internal)
  else
    let newPage ← allocatePage
    LeafIndexNodeHandler.initEmpty newPage
    LeafIndexNodeHandler.insert newPage 0 ⟨key, .rid rid⟩
    updateRootPageNumLocked newPage
    markDirty newPage

/-! ## Deletion -/

/-- `adjust_root`. -/
def adjustRoot (rootPage : PageNum) : MtrM κ Unit := do
  let node ← readNode rootPage
  if node.isLeaf ∧ 0 < node.size then markDirty rootPage
  else
    if node.isLeaf then
      updateRootPageNumLocked bpInvalidPageNum
      disposePage rootPage
    else
      let childPageNum ← InternalIndexNodeHandler.valueAt rootPage 0
      getPage childPageNum
      setParentPageNum childPageNum bpInvalidPageNum
      updateRootPageNumLocked childPageNum
      disposePage rootPage

/-- The two directions of `redistribute`: an item moves over from the right or from the left
neighbor, and the separator in the parent follows.  The return codes of the moves are not
looked at. -/
def moveFromNeighbor (kind : NodeKind) (neighborPage pageNum parentPage : PageNum)
    (index : Nat) : MtrM κ Unit := do
  if index = 0 then
    ignoreRC (kind.moveFirstToEnd neighborPage pageNum)
    let key ← keyAt neighborPage 0
    InternalIndexNodeHandler.setKeyAt parentPage (index + 1) key
  else
    ignoreRC (kind.moveLastToFront neighborPage pageNum)
    let key ← keyAt pageNum 0
    InternalIndexNodeHandler.setKeyAt parentPage index key

/-- `redistribute`. -/
def redistribute (kind : NodeKind) (neighborPage pageNum parentPage : PageNum) (index : Nat) :
    MtrM κ Unit := do
  moveFromNeighbor kind neighborPage pageNum parentPage index
  markDirty neighborPage
  markDirty pageNum
  markDirty parentPage

/-- The leaf chain leaves out a leaf that has been merged into its left neighbor. -/
def linkOverRight (leftPage rightPage : PageNum) : MtrM κ Unit := do
  let leftNode ← readNode leftPage
  if leftNode.isLeaf then
    let rightNode ← readNode rightPage
    LeafIndexNodeHandler.setNextPage leftPage rightNode.nextBrother
  else pure ()

/-- The merge in `coalesce`, once the left and the right node are told apart. -/
def mergeRight (kind : NodeKind) (leftPage rightPage parentPage : PageNum) (index : Nat) :
    MtrM κ Unit := do
  InternalIndexNodeHandler.remove parentPage index
  kind.moveTo rightPage leftPage
  linkOverRight leftPage rightPage
  disposePage rightPage

/-- `coalesce` up to its recursive call. -/
def coalesce (kind : NodeKind) (neighborPage pageNum parentPage : PageNum) (index : Nat) :
    MtrM κ Unit :=
  if index = 0 then mergeRight kind pageNum neighborPage parentPage (index + 1)
  else mergeRight kind neighborPage pageNum parentPage index

/-- `coalesce_or_redistribute`, with the recursive call at the end of `coalesce`. -/
def coalesceOrRedistribute : Nat → NodeKind → PageNum → MtrM κ Unit
  | 0, _, _ => throw .outOfFuel
  | fuel + 1, kind, pageNum => do
    let node ← readNode pageNum
    if minSize tree.fileHeader node ≤ node.size then pure ()
    else if node.parent = bpInvalidPageNum then
      if 1 < node.size then pure ()
      else ignoreRC (adjustRoot pageNum)
    else
      let parentPage := node.parent
      getPage parentPage
      let parentNode ← readNode parentPage
      let key ← keyAt pageNum (node.size - 1)
      let index := (InternalIndexNodeHandler.lookup tree.keyComparator parentNode key).1
      let child ← InternalIndexNodeHandler.valueAt parentPage index
      if child ≠ pageNum then throw .abort
      else
        let neighborPage ← InternalIndexNodeHandler.valueAt parentPage
          (if index = 0 then 1 else index - 1)
        getPage neighborPage
        let neighborNode ← readNode neighborPage
        if node.size + neighborNode.size > maxSize tree.fileHeader node then
          redistribute kind neighborPage pageNum parentPage index
        else
          coalesce kind neighborPage pageNum parentPage index
          coalesceOrRedistribute fuel .internal parentPage

/-- `delete_entry_internal`. -/
def deleteEntryInternal (leafPage : PageNum) (key : κ) : MtrM κ Unit := do
  let removeCount ← LeafIndexNodeHandler.removeKey tree.keyComparator leafPage key
  if removeCount = 0 then throw (.rc .recordNotExist)
  else
    markDirty leafPage
    let node ← readNode leafPage
    if minSize tree.fileHeader node ≤ node.size then pure ()
    else coalesceOrRedistribute tree (← rounds) .leaf leafPage

/-! ## Operations of the index -/

section Operations

variable {υ : Type} [Inhabited υ] [DecidableEq υ] (index : BplusTreeHandler (Key υ))

/-- `try_insert_entry`: the search for the user key with the least record identifier.  When
the position found is past the end of the leaf, the next leaf is fetched, but the item looked
at is the first one of the leaf searched. -/
def tryInsertEntry (userKey : υ) : MtrM (Key υ) Unit := do
  let pageNum ← findLeaf index ⟨userKey, RID.min⟩
  let node ← readNode pageNum
  let leftIndex := (LeafIndexNodeHandler.lookup index.keyComparator node ⟨userKey, RID.min⟩).1
  if leftIndex < node.size then compareUserKey pageNum leftIndex pageNum
  else if node.nextBrother = bpInvalidPageNum then markDirty pageNum
  else
    markDirty pageNum
    getPage node.nextBrother
    compareUserKey pageNum 0 node.nextBrother
where
  /-- The comparison of the user keys by their bytes.  `frame` is the page fetched last. -/
  compareUserKey (pageNum : PageNum) (iterIndex : Nat) (frame : PageNum) : MtrM (Key υ) Unit := do
    let key ← keyAt pageNum iterIndex
    markDirty frame
    if key.userKey = userKey then throw (.rc .schemaIndexUnique) else pure ()

/-- The uniqueness check of `insert_entry`. -/
def checkUnique (userKey : υ) (isNull : Bool) : MtrM (Key υ) Unit :=
  if index.fileHeader.unique ∧ isNull = false then tryInsertEntry index userKey else pure ()

/-- The mini-transaction of `insert_entry`. -/
def insertEntryMtr (userKey : υ) (rid : RID) (isNull : Bool) : MtrM (Key υ) Unit := do
  let rootPage ← readRootPage
  if rootPage = bpInvalidPageNum then createNewTree ⟨userKey, rid⟩ rid
  else
    checkUnique index userKey isNull
    let pageNum ← findLeaf index ⟨userKey, rid⟩
    insertEntryIntoLeafNode index pageNum ⟨userKey, rid⟩ rid

/-- The mini-transaction of `delete_entry`. -/
def deleteEntryMtr (userKey : υ) (rid : RID) : MtrM (Key υ) Unit := do
  let rootPage ← readRootPage
  if rootPage = bpInvalidPageNum then throw (.rc .recordNotExist)
  else
    let leafPage ← findLeaf index ⟨userKey, rid⟩
    deleteEntryInternal index leafPage ⟨userKey, rid⟩

end Operations

end BplusTreeHandler

end ObHtap
