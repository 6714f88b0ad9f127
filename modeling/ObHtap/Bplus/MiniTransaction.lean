import ObHtap.Buffer.FileHeader
import ObHtap.Bplus.Key
import ObHtap.Common.RC

/-!
# Pages and mini-transactions of a B+ tree index

A node page holds its header fields and its items in slot order.  An operation of the index
is a mini-transaction: it changes pages in place and records a log entry before every change.
A program of a mini-transaction fails with a return code, or it ends the process (`assert`,
`ASSERT`, a null pointer).
-/

namespace ObHtap

abbrev PageNum := Int

/-- `BP_INVALID_PAGE_NUM`. -/
def bpInvalidPageNum : PageNum := -1

/-- `FIRST_INDEX_PAGE`: the page of the index file header. -/
def firstIndexPage : PageNum := 1

/-! ## Node pages -/

/-- The value of an item: a record identifier in a leaf, a child page in an internal node. -/
inductive NodeValue where
  | rid (rid : RID)
  | page (pageNum : PageNum)
  deriving DecidableEq

/-- The bytes of a value read as a page number. -/
def NodeValue.pageNum : NodeValue → PageNum
  | rid r => r.pageNum
  | page p => p

/-- The bytes of a value read as a record identifier. -/
def NodeValue.toRid : NodeValue → RID
  | rid r => r
  | page p => ⟨p.toNat, 0⟩

structure Item (κ : Type) where
  key : κ
  value : NodeValue
  deriving DecidableEq

/-- The page that an item of an internal node refers to. -/
def Item.child {κ : Type} (item : Item κ) : PageNum := item.value.pageNum

/-- `IndexNode`: `key_num` is the number of items; `next_brother` is used by leaves. -/
structure IndexNode (κ : Type) where
  isLeaf : Bool
  parent : PageNum
  nextBrother : PageNum
  items : List (Item κ)
  deriving DecidableEq

/-- `IndexNodeHandler::size`. -/
def IndexNode.size {κ : Type} (node : IndexNode κ) : Nat := node.items.length

/-- The limits and the kind of an index, as its file header has them. -/
structure IndexFileHeader where
  internalMaxSize : Nat
  leafMaxSize : Nat
  unique : Bool

/-- `calc_internal_page_capacity`: 12 bytes of header, 8 for a record identifier, 4 for a
page number. -/
def calcInternalPageCapacity (attrLength : Nat) : Nat :=
  (bpPageDataSize - 12) / (attrLength + 8 + 4)

/-- `calc_leaf_page_capacity`. -/
def calcLeafPageCapacity (attrLength : Nat) : Nat :=
  (bpPageDataSize - 16) / (attrLength + 8 + 8)

/-! ## Log entries -/

/-- The entries that an operation records, with what `redo` and `rollback` read. -/
inductive LogEntry (κ : Type) where
  | initHeaderPage (rootPage : PageNum)
  | updateRootPage (rootPage oldRootPage : PageNum)
  | setParentPage (pageNum parentPage oldParentPage : PageNum)
  | leafInitEmpty (pageNum : PageNum)
  | leafSetNextPage (pageNum nextPage oldNextPage : PageNum)
  | internalInitEmpty (pageNum : PageNum)
  | internalCreateNewRoot (pageNum firstPage : PageNum) (key : κ) (secondPage : PageNum)
  | internalUpdateKey (pageNum : PageNum) (index : Nat) (key oldKey : κ)
  | nodeInsert (pageNum : PageNum) (index : Nat) (items : List (Item κ))
  | nodeRemove (pageNum : PageNum) (index : Nat) (items : List (Item κ))

/-- The page whose frame an entry holds. -/
def LogEntry.pageNum {κ : Type} : LogEntry κ → PageNum
  | initHeaderPage _ => firstIndexPage
  | updateRootPage _ _ => firstIndexPage
  | setParentPage p _ _ => p
  | leafInitEmpty p => p
  | leafSetNextPage p _ _ => p
  | internalInitEmpty p => p
  | internalCreateNewRoot p _ _ _ => p
  | internalUpdateKey p _ _ _ => p
  | nodeInsert p _ _ => p
  | nodeRemove p _ _ => p

/-! ## States -/

/-- What the pages of the index file hold: the allocation of pages, the root page number of
the index file header (`file_header_` is kept equal to it), and a node on every page.
`disposedPages` are the pages the latch memo is going to dispose of. -/
structure Pages (κ : Type) where
  fileHeader : BPFileHeader
  rootPage : PageNum
  node : PageNum → IndexNode κ
  disposedPages : List PageNum

/-- The pages with what the buffer pool and the log know about them. -/
structure TreeState (κ : Type) where
  pages : Pages κ
  dirty : PageNum → Bool
  lsn : PageNum → LSN
  currentLsn : LSN
  log : List (LSN × List (LogEntry κ))

/-- The state of a mini-transaction.  `outcomes` are the outcomes of the page requests still
to come: a request fails with the code given, because of an I/O error or because the file is
full.  Past the end of the list all requests succeed. -/
structure Mtr (κ : Type) extends TreeState κ where
  entries : List (LogEntry κ)
  needLog : Bool
  outcomes : List (Option RC)

abbrev MtrM (κ : Type) := EStateM Fault (Mtr κ)

section Primitives

variable {κ : Type}

namespace Pages

/-- Whether the page is part of the file and allocated. -/
def Allocated (v : Pages κ) (pageNum : PageNum) : Prop :=
  0 ≤ pageNum ∧ v.fileHeader.Allocated pageNum.toNat

/-- The pages after one node has been changed. -/
def setNode (v : Pages κ) (pageNum : PageNum) (node : IndexNode κ) : Pages κ :=
  { v with node := fun p => if p = pageNum then node else v.node p }

end Pages

/-- The outcome of the next page request. -/
def nextOutcome : MtrM κ (Option RC) := fun s =>
  match s.outcomes with
  | [] => .ok none s
  | outcome :: rest => .ok outcome { s with outcomes := rest }

/-- `LatchMemo::get_page`.  The page has to be part of the file. -/
def getPage (pageNum : PageNum) : MtrM κ Unit := do
  match ← nextOutcome with
  | some rc => throw (.rc rc)
  | none =>
    let s ← get
    if 0 ≤ pageNum ∧ pageNum.toNat < s.pages.fileHeader.pageCount then pure ()
    else throw (.rc .ioerrRead)

/-- `allocate_page`.  The buffer pool logs the allocation.  The bytes of the page are those it
had when it was last in use.  A page used again stays allocated when it cannot be read; without
one the file may be full. -/
def allocatePage : MtrM κ PageNum := do
  match ← nextOutcome with
  | some rc =>
    modify fun s => match s.pages.fileHeader.freePage with
      | some i =>
        { s with
          pages := { s.pages with fileHeader := s.pages.fileHeader.reuse i }
          currentLsn := s.currentLsn + 1 }
      | none => s
    throw (.rc rc)
  | none =>
    let s ← get
    let (pageNum, fileHeader) := s.pages.fileHeader.allocate
    set { s with pages := { s.pages with fileHeader }, currentLsn := s.currentLsn + 1 }
    pure pageNum

/-- `LatchMemo::dispose_page`: the page is disposed of when the mini-transaction ends. -/
def disposePage (pageNum : PageNum) : MtrM κ Unit :=
  modify fun s =>
    { s with pages := { s.pages with disposedPages := s.pages.disposedPages ++ [pageNum] } }

/-- `BplusTreeLogger::append_log_entry`. -/
def appendLogEntry (entry : LogEntry κ) : MtrM κ Unit :=
  modify fun s => if s.needLog then { s with entries := s.entries ++ [entry] } else s

def readNode (pageNum : PageNum) : MtrM κ (IndexNode κ) := do
  return (← get).pages.node pageNum

def writeNode (pageNum : PageNum) (node : IndexNode κ) : MtrM κ Unit :=
  modify fun s => { s with pages := s.pages.setNode pageNum node }

def readRootPage : MtrM κ PageNum := do
  return (← get).pages.rootPage

def writeRootPage (rootPage : PageNum) : MtrM κ Unit :=
  modify fun s => { s with pages := { s.pages with rootPage } }

/-- `Frame::mark_dirty`. -/
def markDirty (pageNum : PageNum) : MtrM κ Unit :=
  modify fun s => { s with dirty := fun p => if p = pageNum then true else s.dirty p }

/-- Runs a program whose return code the caller does not look at. -/
def ignoreRC (x : MtrM κ Unit) : MtrM κ Unit := fun s =>
  match x s with
  | .error (.rc _) s' => .ok () s'
  | result => result

end Primitives

end ObHtap
