import ObHtap.Common.RC
import ObHtap.Buffer.FileHeader
import Mathlib.Data.List.Basic

/-!
# The double write buffer

Before a page is written to its own file it is written to a slot of a shared file.  The buffer
keeps the pages of the slots in memory until it writes them to their files.  A call is a list of
writes to the disk, so that a crash can come between any two of them.
-/

namespace ObHtap

/-! ## Pages -/

/-- An entry of `crc_table`. -/
def crcTable (i : UInt32) : UInt32 :=
  Nat.repeat (fun crc => if crc &&& 1 = 1 then (crc >>> 1) ^^^ 0xEDB88320 else crc >>> 1) 8 i

/-- `crc32`. -/
@[irreducible] def crc32 (buffer : List UInt8) : UInt32 :=
  buffer.foldl (fun crc byte => crcTable ((crc ^^^ byte.toUInt32) &&& 0xff) ^^^ (crc >>> 8))
    0xffffffff

/-- `Page`. -/
structure Page where
  lsn : LSN
  checkSum : UInt32
  data : Vector UInt8 bpPageDataSize
  deriving DecidableEq

namespace Page

/-- `clear_page`. -/
def zero : Page := ⟨0, 0, Vector.replicate bpPageDataSize 0⟩

/-- What `load_pages` checks of a page. -/
def Checked (page : Page) : Prop := crc32 page.data.toList = page.checkSum

instance (page : Page) : Decidable page.Checked := inferInstanceAs (Decidable (_ = _))

end Page

/-- `DoubleWritePageKey`. -/
structure DoubleWritePageKey where
  bufferPoolId : Int
  pageNum : Nat
  deriving DecidableEq

/-- `DoubleWritePage`. -/
structure DoubleWritePage where
  key : DoubleWritePageKey
  pageIndex : Nat
  valid : Bool
  page : Page
  deriving DecidableEq

theorem nodup_keys_append {pages : List DoubleWritePage} {page : DoubleWritePage}
    (h : (pages.map DoubleWritePage.key).Nodup) (hnew : ∀ p ∈ pages, p.key ≠ page.key) :
    ((pages ++ [page]).map DoubleWritePage.key).Nodup := by
  rw [List.map_append, List.nodup_append]
  refine ⟨h, List.pairwise_singleton _ _, ?_⟩
  rintro k hk k' hk' rfl
  obtain ⟨p, hp, rfl⟩ := List.mem_map.mp hk
  exact hnew p hp (List.mem_singleton.mp hk')

/-! ## The disk -/

/-- The files of the buffer pools, and the file of the double write buffer: its slots, and the
page count of its header, 0 if the file is empty. -/
structure Disk where
  files : Int → List Page
  slots : Nat → Option DoubleWritePage
  pageCnt : Nat

inductive DiskWrite where
  | slot (page : DoubleWritePage)
  | header (pageCnt : Nat)
  | page (key : DoubleWritePageKey) (page : Page)

namespace Disk

def readPage (disk : Disk) (key : DoubleWritePageKey) : Option Page :=
  (disk.files key.bufferPoolId)[key.pageNum]?

/-- A write behind the end of a file leaves a hole of zeros. -/
def writeAt (file : List Page) (pageNum : Nat) (page : Page) : List Page :=
  if pageNum < file.length then file.set pageNum page
  else file ++ List.replicate (pageNum - file.length) Page.zero ++ [page]

def write (disk : Disk) : DiskWrite → Disk
  | .slot page =>
    { disk with slots := fun i => if i = page.pageIndex then some page else disk.slots i }
  | .header pageCnt => { disk with pageCnt }
  | .page key page =>
    { disk with
      files := fun id =>
        if id = key.bufferPoolId then writeAt (disk.files id) key.pageNum page
        else disk.files id }

variable {disk : Disk} {key other : DoubleWritePageKey} {page held : Page}

theorem getElem?_writeAt_self (file : List Page) (pageNum : Nat) (page : Page) :
    (writeAt file pageNum page)[pageNum]? = some page := by
  unfold writeAt
  split_ifs with hlt
  · rw [List.getElem?_set_self hlt]
  · have hlen : (file ++ List.replicate (pageNum - file.length) Page.zero).length = pageNum := by
      rw [List.length_append, List.length_replicate]
      omega
    rw [List.getElem?_append_right (Nat.le_of_eq hlen), hlen, Nat.sub_self]
    rfl

theorem getElem?_writeAt_of_some {file : List Page} {pageNum i : Nat}
    (h : file[i]? = some held) (hne : i ≠ pageNum) : (writeAt file pageNum page)[i]? = some held := by
  have hi := (List.getElem?_eq_some_iff.mp h).1
  unfold writeAt
  split_ifs with hlt
  · rw [List.getElem?_set_ne (Ne.symm hne)]
    exact h
  · rw [List.append_assoc, List.getElem?_append_left hi]
    exact h

@[simp] theorem readPage_write_self : (disk.write (.page key page)).readPage key = some page := by
  unfold readPage write
  simp only [if_true]
  exact getElem?_writeAt_self _ _ _

theorem readPage_write_of_ne (hne : other ≠ key) (h : disk.readPage other = some held) :
    (disk.write (.page key page)).readPage other = some held := by
  unfold readPage write at *
  simp only
  split_ifs with hid
  · apply getElem?_writeAt_of_some h
    intro hnum
    apply hne
    cases other
    cases key
    simp_all
  · exact h

end Disk

/-! ## `DiskDoubleWriteBuffer` -/

/-- The order in which a hash map is iterated. -/
structure HashOrder where
  arrange : List DoubleWritePage → List DoubleWritePage
  perm : ∀ pages, (arrange pages).Perm pages

/-- The order of insertion. -/
def HashOrder.unchanged : HashOrder := ⟨id, fun pages => List.Perm.refl pages⟩

/-- `DiskDoubleWriteBuffer`: `header_` and `dblwr_pages_`. -/
structure DoubleWriteBuffer where
  maxPages : Int
  pageCnt : Nat
  pages : List DoubleWritePage

namespace DoubleWriteBuffer

def find (buffer : DoubleWriteBuffer) (key : DoubleWritePageKey) : Option DoubleWritePage :=
  buffer.pages.find? fun page => page.key = key

/-- The loop of `flush_page`: a page is written to its file, then its slot is marked. -/
def flushWrites (pages : List DoubleWritePage) : List DiskWrite :=
  pages.flatMap fun page =>
    (if page.valid then [DiskWrite.page page.key page.page] else []) ++
      [DiskWrite.slot { page with valid := false }]

/-- `flush_page`, which is also `recover`. -/
def flushPage (buffer : DoubleWriteBuffer) (order : HashOrder) :
    List DiskWrite × DoubleWriteBuffer :=
  (flushWrites (order.arrange buffer.pages), { buffer with pages := [], pageCnt := 0 })

/-- `add_page` of a page that the buffer has. -/
def updatePage (buffer : DoubleWriteBuffer) (held : DoubleWritePage) (page : Page) :
    List DiskWrite × DoubleWriteBuffer :=
  ([.slot { held with page }],
    { buffer with pages := buffer.pages.map fun p => if p = held then { held with page } else p })

/-- `add_page` of a new page, before the buffer is flushed: the slot is the number of pages, and
the header is written when it does not count the slot. -/
def insertPage (buffer : DoubleWriteBuffer) (key : DoubleWritePageKey) (page : Page) :
    List DiskWrite × DoubleWriteBuffer :=
  let pageCnt := buffer.pages.length
  let new : DoubleWritePage := ⟨key, pageCnt, true, page⟩
  if buffer.pageCnt < pageCnt + 1 then
    ([.slot new, .header (pageCnt + 1)],
      { buffer with pages := buffer.pages ++ [new], pageCnt := pageCnt + 1 })
  else ([.slot new], { buffer with pages := buffer.pages ++ [new] })

/-- `add_page`. -/
def addPage (buffer : DoubleWriteBuffer) (key : DoubleWritePageKey) (page : Page)
    (order : HashOrder) : List DiskWrite × DoubleWriteBuffer :=
  match buffer.find key with
  | some held => buffer.updatePage held page
  | none =>
    let (writes, buffer') := buffer.insertPage key page
    if buffer'.maxPages ≤ buffer'.pages.length then
      let (flushWrites, buffer'') := buffer'.flushPage order
      (writes ++ flushWrites, buffer'')
    else (writes, buffer')

/-- `read_page`. -/
def readPage (buffer : DoubleWriteBuffer) (key : DoubleWritePageKey) : Option Page :=
  (buffer.find key).map DoubleWritePage.page

/-- The pages of `clear_pages`, in the order of their numbers. -/
def specPages (buffer : DoubleWriteBuffer) (bufferPoolId : Int) : List DoubleWritePage :=
  (buffer.pages.filter fun page => page.key.bufferPoolId = bufferPoolId).mergeSort
    fun a b => a.key.pageNum ≤ b.key.pageNum

/-- `clear_pages`.  It does not look at `valid`. -/
def clearPages (buffer : DoubleWriteBuffer) (bufferPoolId : Int) :
    List DiskWrite × DoubleWriteBuffer :=
  ((buffer.specPages bufferPoolId).flatMap fun page =>
      [.page page.key page.page, .slot { page with valid := false }],
    { buffer with
      pages := buffer.pages.filter fun page => page.key.bufferPoolId ≠ bufferPoolId })

/-- The loop of `load_pages` over slots: `insert` keeps the first page of a key. -/
def loadSlots (disk : Disk) : List Nat → List DoubleWritePage → Except RC (List DoubleWritePage)
  | [], pages => .ok pages
  | i :: is, pages =>
    match disk.slots i with
    | none => .error .ioerrRead
    | some page =>
      if page.page.Checked ∧ ∀ p ∈ pages, p.key ≠ page.key then
        loadSlots disk is (pages ++ [page])
      else loadSlots disk is pages

/-- `load_pages` of a new buffer. -/
def loadPages (maxPages : Int) (disk : Disk) : Except RC DoubleWriteBuffer :=
  match loadSlots disk (List.range disk.pageCnt) [] with
  | .error rc => .error rc
  | .ok pages => .ok ⟨maxPages, disk.pageCnt, pages⟩

variable {buffer : DoubleWriteBuffer} {key : DoubleWritePageKey} {held : DoubleWritePage}

theorem find_eq_some (h : buffer.find key = some held) :
    held ∈ buffer.pages ∧ held.key = key := by
  have hkey := List.find?_some h
  exact ⟨List.mem_of_find?_eq_some h, of_decide_eq_true hkey⟩

theorem find_eq_none : buffer.find key = none ↔ ∀ p ∈ buffer.pages, p.key ≠ key := by
  simp [find]

theorem mem_specPages {bufferPoolId : Int} :
    held ∈ buffer.specPages bufferPoolId ↔
      held ∈ buffer.pages ∧ held.key.bufferPoolId = bufferPoolId := by
  simp [specPages]

@[simp] theorem flushWrites_cons (page : DoubleWritePage) (pages : List DoubleWritePage) :
    flushWrites (page :: pages) = (if page.valid then [DiskWrite.page page.key page.page] else []) ++
      DiskWrite.slot { page with valid := false } :: flushWrites pages := by
  simp [flushWrites]

theorem pages_insertPage (buffer : DoubleWriteBuffer) (key : DoubleWritePageKey) (page : Page) :
    (buffer.insertPage key page).2.pages =
      buffer.pages ++ [⟨key, buffer.pages.length, true, page⟩] := by
  unfold insertPage
  simp only
  split_ifs <;> rfl

theorem writes_insertPage (buffer : DoubleWriteBuffer) (key : DoubleWritePageKey) (page : Page) :
    (buffer.insertPage key page).1 = .slot ⟨key, buffer.pages.length, true, page⟩ ::
      if buffer.pageCnt < buffer.pages.length + 1 then [.header (buffer.pages.length + 1)]
      else [] := by
  unfold insertPage
  simp only
  split_ifs <;> rfl

theorem header_notMem_flushWrites (pages : List DoubleWritePage) (pageCnt : Nat) :
    DiskWrite.header pageCnt ∉ flushWrites pages := by
  intro h
  obtain ⟨p, -, hw⟩ := List.mem_flatMap.mp h
  split_ifs at hw <;> simp at hw

/-- The pages of the buffer are valid, so `clear_pages` writes what `flush_page` would. -/
theorem writes_clearPages (buffer : DoubleWriteBuffer) (bufferPoolId : Int)
    (hvalid : ∀ p ∈ buffer.pages, p.valid = true) :
    (buffer.clearPages bufferPoolId).1 = flushWrites (buffer.specPages bufferPoolId) := by
  apply List.flatMap_congr
  intro p hp
  rw [if_pos (hvalid p (mem_specPages.mp hp).1)]
  rfl

/-- The pages that go and the pages that stay. -/
theorem specPages_append_perm (buffer : DoubleWriteBuffer) (bufferPoolId : Int) :
    buffer.pages.Perm (buffer.specPages bufferPoolId ++ (buffer.clearPages bufferPoolId).2.pages) := by
  have hfilter := List.filter_append_perm (fun p : DoubleWritePage =>
    decide (p.key.bufferPoolId = bufferPoolId)) buffer.pages
  apply hfilter.symm.trans
  unfold specPages clearPages
  simp only [ne_eq, decide_not]
  exact (List.mergeSort_perm _ _).symm.append_right _

/-- What `add_page` can do: the page is in the buffer, the buffer is full with it, or neither. -/
theorem addPage_cases (buffer : DoubleWriteBuffer) (key : DoubleWritePageKey) (page : Page)
    (order : HashOrder) :
    (∃ held ∈ buffer.pages, held.key = key ∧
      buffer.addPage key page order = buffer.updatePage held page) ∨
    ((∀ p ∈ buffer.pages, p.key ≠ key) ∧ buffer.maxPages ≤ buffer.pages.length + 1 ∧
      buffer.addPage key page order = ((buffer.insertPage key page).1 ++
        ((buffer.insertPage key page).2.flushPage order).1,
        ((buffer.insertPage key page).2.flushPage order).2)) ∨
    ((∀ p ∈ buffer.pages, p.key ≠ key) ∧ ¬ buffer.maxPages ≤ buffer.pages.length + 1 ∧
      buffer.addPage key page order = buffer.insertPage key page) := by
  have hsize : (buffer.insertPage key page).2.maxPages = buffer.maxPages ∧
      (buffer.insertPage key page).2.pages.length = buffer.pages.length + 1 := by
    rw [pages_insertPage, List.length_append, List.length_singleton]
    unfold insertPage
    simp only
    split_ifs <;> simp
  unfold addPage
  cases hfind : buffer.find key with
  | some held =>
    obtain ⟨hmem, hkey⟩ := find_eq_some hfind
    exact .inl ⟨held, hmem, hkey, rfl⟩
  | none =>
    have hne := find_eq_none.mp hfind
    simp only [hsize]
    by_cases hfull : buffer.maxPages ≤ buffer.pages.length + 1
    · exact .inr (.inl ⟨hne, hfull, if_pos (by exact_mod_cast hfull)⟩)
    · exact .inr (.inr ⟨hne, hfull, if_neg (by exact_mod_cast hfull)⟩)

end DoubleWriteBuffer

/-- `DiskBufferPool::load_page`: the double write buffer is asked first. -/
def loadPage (buffer : DoubleWriteBuffer) (disk : Disk) (key : DoubleWritePageKey) :
    Except RC Page :=
  match buffer.readPage key with
  | some page => .ok page
  | none =>
    match disk.readPage key with
    | some page => .ok page
    | none => .error .ioerrRead

/-! ## Runs -/

/-- The calls to the buffer, and a write to a file that passes it by. -/
inductive DoubleWriteCall where
  | addPage (key : DoubleWritePageKey) (page : Page) (order : HashOrder)
  | flushPage (order : HashOrder)
  | clearPages (bufferPoolId : Int)
  | writePage (key : DoubleWritePageKey) (page : Page)

namespace DoubleWriteCall

def run (buffer : DoubleWriteBuffer) : DoubleWriteCall → List DiskWrite × DoubleWriteBuffer
  | addPage key page order => buffer.addPage key page order
  | flushPage order => buffer.flushPage order
  | clearPages bufferPoolId => buffer.clearPages bufferPoolId
  | writePage key page => ([.page key page], buffer)

end DoubleWriteCall

/-- The disk with its history: how many slots have been written, which of these writes was the
last to each slot, and the images of each page that have been handed to the buffer since its file
was written last. -/
structure DiskHistory where
  disk : Disk
  clock : Nat
  writtenAt : Nat → Nat
  newer : DoubleWritePageKey → List Page

namespace DiskHistory

def write (history : DiskHistory) : DiskWrite → DiskHistory
  | .slot page =>
    { history with
      disk := history.disk.write (.slot page)
      clock := history.clock + 1
      writtenAt := fun i => if i = page.pageIndex then history.clock else history.writtenAt i }
  | .header pageCnt => { history with disk := history.disk.write (.header pageCnt) }
  | .page key page =>
    { history with
      disk := history.disk.write (.page key page)
      newer := fun k => if k = key then [] else history.newer k }

def writeAll (history : DiskHistory) (writes : List DiskWrite) : DiskHistory :=
  writes.foldl write history

@[simp] theorem writeAll_nil (history : DiskHistory) : history.writeAll [] = history := rfl

@[simp] theorem writeAll_cons (history : DiskHistory) (w : DiskWrite) (writes : List DiskWrite) :
    history.writeAll (w :: writes) = (history.write w).writeAll writes := rfl

theorem writeAll_append (history : DiskHistory) (writes writes' : List DiskWrite) :
    history.writeAll (writes ++ writes') = (history.writeAll writes).writeAll writes' :=
  List.foldl_append

@[simp] theorem disk_write (history : DiskHistory) (w : DiskWrite) :
    (history.write w).disk = history.disk.write w := by
  cases w <;> rfl

theorem slots_writeAll {history : DiskHistory} {writes : List DiskWrite} {i : Nat}
    (h : ∀ page, DiskWrite.slot page ∈ writes → page.pageIndex ≠ i) :
    (history.writeAll writes).disk.slots i = history.disk.slots i := by
  induction writes generalizing history with
  | nil => rfl
  | cons w writes ih =>
    rw [writeAll_cons, ih fun page hpage => h page (List.mem_cons_of_mem _ hpage)]
    cases w with
    | slot page => exact if_neg fun hi => h page List.mem_cons_self hi.symm
    | header pageCnt => rfl
    | page key page => rfl

theorem pageCnt_writeAll {history : DiskHistory} {writes : List DiskWrite}
    (h : ∀ pageCnt, DiskWrite.header pageCnt ∉ writes) :
    (history.writeAll writes).disk.pageCnt = history.disk.pageCnt := by
  induction writes generalizing history with
  | nil => rfl
  | cons w writes ih =>
    rw [writeAll_cons, ih fun pageCnt hw => h pageCnt (List.mem_cons_of_mem _ hw)]
    cases w with
    | slot page => rfl
    | header pageCnt => exact absurd List.mem_cons_self (h pageCnt)
    | page key page => rfl

/-- An image is handed to the buffer. -/
def hand (history : DiskHistory) : DoubleWriteCall → DiskHistory
  | .addPage key page _ =>
    { history with
      newer := fun k => if k = key then history.newer k ++ [page] else history.newer k }
  | _ => history

@[simp] theorem disk_hand (history : DiskHistory) (call : DoubleWriteCall) :
    (history.hand call).disk = history.disk := by
  cases call <;> rfl

/-- The copy in the slot is the last that was written of its page and is still in the file. -/
def NewestCopy (history : DiskHistory) (i : Nat) (copy : DoubleWritePage) : Prop :=
  history.disk.slots i = some copy ∧
    ∀ j other, history.disk.slots j = some other → other.key = copy.key →
      history.writtenAt j ≤ history.writtenAt i

end DiskHistory

structure DoubleWriteState where
  buffer : DoubleWriteBuffer
  history : DiskHistory

namespace DoubleWriteState

/-- A buffer that has opened a new file, on a disk with these files. -/
def create (maxPages : Int) (files : Int → List Page) : DoubleWriteState :=
  ⟨⟨maxPages, 0, []⟩, ⟨⟨files, fun _ => none, 0⟩, 0, fun _ => 0, fun _ => []⟩⟩

/-- The disk after a crash that comes when the call has made its first `n` writes. -/
def crash (s : DoubleWriteState) (call : DoubleWriteCall) (n : Nat) : DiskHistory :=
  (s.history.hand call).writeAll ((call.run s.buffer).1.take n)

def step (s : DoubleWriteState) (call : DoubleWriteCall) : DoubleWriteState :=
  ⟨(call.run s.buffer).2, (s.history.hand call).writeAll (call.run s.buffer).1⟩

def runs (s : DoubleWriteState) (calls : List DoubleWriteCall) : DoubleWriteState :=
  calls.foldl step s

theorem runs_append_singleton (s : DoubleWriteState) (calls : List DoubleWriteCall)
    (call : DoubleWriteCall) : s.runs (calls ++ [call]) = (s.runs calls).step call :=
  List.foldl_append

end DoubleWriteState

end ObHtap
