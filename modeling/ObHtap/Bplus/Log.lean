import ObHtap.Bplus.Handler

/-!
# The log of a mini-transaction

A mini-transaction that succeeds appends its entries to the log as one record and stamps the
pages with the LSN of the record.  One that fails with a return code takes its entries back in
reverse order.
-/

namespace ObHtap

open IndexNodeHandler BplusTreeHandler

variable {κ : Type} [Inhabited κ]

/-! ## Redo and rollback of an entry -/

namespace LogEntry

/-- The handler class that `NormalOperationLogEntryHandler::redo` picks. -/
def handlerKind (node : IndexNode κ) : HandlerKind :=
  if node.isLeaf then .leaf else .internal

/-- `redo` of each kind of entry. -/
def redo : LogEntry κ → MtrM κ Unit
  | initHeaderPage rootPage => do
    writeRootPage rootPage
    markDirty firstIndexPage
  | updateRootPage rootPage _ => updateRootPageNumLocked rootPage
  | setParentPage p parentPage _ => setParentPageNum p parentPage
  | leafInitEmpty p => LeafIndexNodeHandler.initEmpty p
  | leafSetNextPage p nextPage _ => LeafIndexNodeHandler.setNextPage p nextPage
  | internalInitEmpty p => InternalIndexNodeHandler.initEmpty p
  | internalCreateNewRoot p first key second =>
    InternalIndexNodeHandler.createNewRoot p first key second
  | internalUpdateKey p index key _ => InternalIndexNodeHandler.setKeyAt p index key
  | nodeInsert p index items => do
    let node ← readNode p
    recoverInsertItems (handlerKind node) p index items
  | nodeRemove p index items => do
    let node ← readNode p
    recoverRemoveItems (handlerKind node) p index items.length

/-- `rollback` of each kind of entry.  Insertions and removals of items are taken back through
`IndexNodeHandler` itself. -/
def rollback : LogEntry κ → MtrM κ Unit
  | initHeaderPage _ => pure ()
  | updateRootPage _ oldRootPage => updateRootPageNumLocked oldRootPage
  | setParentPage p _ oldParentPage => setParentPageNum p oldParentPage
  | leafInitEmpty _ => pure ()
  | leafSetNextPage p _ oldNextPage => LeafIndexNodeHandler.setNextPage p oldNextPage
  | internalInitEmpty _ => pure ()
  | internalCreateNewRoot _ _ _ _ => pure ()
  | internalUpdateKey p index _ oldKey => InternalIndexNodeHandler.setKeyAt p index oldKey
  | nodeInsert p index items => recoverRemoveItems .base p index items.length
  | nodeRemove p index items => recoverInsertItems .base p index items

end LogEntry

/-! ## `BplusTreeLogger` -/

namespace BplusTreeLogger

/-- `commit`. -/
def commit (s : Mtr κ) : Mtr κ :=
  match s.entries with
  | [] => s
  | entries =>
    let lsn := s.currentLsn + 1
    { s with
      currentLsn := lsn
      log := s.log ++ [(lsn, entries)]
      lsn := fun p => if p ∈ entries.map LogEntry.pageNum then lsn else s.lsn p
      entries := [] }

/-- `rollback`: the return codes of the single entries are not looked at. -/
def rollback : MtrM κ Unit := do
  let s ← get
  set { s with needLog := false }
  s.entries.reverse.forM fun entry => ignoreRC entry.rollback
  modify fun s => { s with entries := [], needLog := true }

/-- The loop of `__redo`: the pages of the entries that have been redone.  An entry whose page
carries the LSN already is passed over. -/
def redoEntries (lsn : LSN) : List (LogEntry κ) → MtrM κ (List PageNum)
  | [] => pure []
  | entry :: entries => do
    getPage entry.pageNum
    let s ← get
    if lsn ≤ s.lsn entry.pageNum then redoEntries lsn entries
    else
      entry.redo
      let frames ← redoEntries lsn entries
      pure (entry.pageNum :: frames)

/-- `Frame::set_lsn` on the frames of the entries redone. -/
def setLsn (lsn : LSN) (frames : List PageNum) : MtrM κ Unit :=
  modify fun s => { s with lsn := fun p => if p ∈ frames then lsn else s.lsn p }

/-- `__redo`: when an entry fails the rest is dropped and no LSN is set. -/
def redo (lsn : LSN) (entries : List (LogEntry κ)) : MtrM κ Unit :=
  ignoreRC do
    let frames ← redoEntries lsn entries
    setLsn lsn frames

end BplusTreeLogger

/-! ## `BplusTreeMiniTransaction` -/

namespace BplusTreeMiniTransaction

/-- A mini-transaction begins. -/
def start (t : TreeState κ) (needLog : Bool) (outcomes : List (Option RC)) : Mtr κ :=
  { t with entries := [], needLog, outcomes }

/-- `LatchMemo::release`: the buffer pool disposes of the pages given up. -/
def release (s : TreeState κ) : TreeState κ :=
  { s with
    pages :=
      { s.pages with
        fileHeader := s.pages.disposedPages.foldl (fun hdr p => hdr.dispose p.toNat)
          s.pages.fileHeader
        disposedPages := [] }
    currentLsn := s.currentLsn + s.pages.disposedPages.length }

/-- The mini-transaction of an operation, from its construction to its destruction: the return
code of the operation and the state it leaves, or nothing when the process has ended. -/
def run (body : MtrM κ Unit) (t : TreeState κ) (outcomes : List (Option RC)) :
    Option (Except RC Unit × TreeState κ) :=
  match body (start t true outcomes) with
  | .ok () s => some (.ok (), release (BplusTreeLogger.commit s).toTreeState)
  | .error (.rc rc) s =>
    match BplusTreeLogger.rollback s with
    | .ok () s' => some (.error rc, release s'.toTreeState)
    | .error _ _ => none
  | .error _ _ => none

end BplusTreeMiniTransaction

namespace BplusTreeHandler

variable {υ : Type} [Inhabited υ] [DecidableEq υ] (index : BplusTreeHandler (Key υ))

/-- `insert_entry`. -/
def insertEntry (userKey : υ) (rid : RID) (isNull : Bool) (t : TreeState (Key υ))
    (outcomes : List (Option RC)) : Option (Except RC Unit × TreeState (Key υ)) :=
  BplusTreeMiniTransaction.run (insertEntryMtr index userKey rid isNull) t outcomes

/-- `delete_entry`. -/
def deleteEntry (userKey : υ) (rid : RID) (t : TreeState (Key υ))
    (outcomes : List (Option RC)) : Option (Except RC Unit × TreeState (Key υ)) :=
  BplusTreeMiniTransaction.run (deleteEntryMtr index userKey rid) t outcomes

end BplusTreeHandler

end ObHtap
