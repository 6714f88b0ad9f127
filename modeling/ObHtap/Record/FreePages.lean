import ObHtap.Library.PartialRun
import ObHtap.Record.PageLayout
import ObHtap.Record.RecordFile
import ObHtap.Record.RecordLog
import Mathlib.Data.Finset.Max

/-!
# The free pages of a record file

`RecordFileHandler` keeps the pages that are not full, so that an insertion need not look for one.
The set is filled when the file is opened; the replay of the log comes after that and changes the
pages behind it.
-/

namespace ObHtap

open RowRecordPageHandler

/-- `RecordPageHandler::is_full`. -/
def RecordPage.isFull (page : RecordPage) : Prop :=
  (page.header.recordCapacity : Int) ≤ page.header.recordNum

instance (page : RecordPage) : Decidable page.isFull := inferInstanceAs (Decidable (_ ≤ _))

/-- What the layers below answer during a call: whether a page can be read, whether there is a frame
for a new one, and what the log returns; and which page of a set is its `begin()`. -/
structure FileOutcomes where
  load : Nat → Except RC Unit
  frame : Except RC Unit
  initLog : Except RC LSN
  recordLog : Except RC LSN
  first : Finset Nat → Nat
  first_mem : ∀ pages, pages.Nonempty → first pages ∈ pages

/-- `RecordFileHandler` with its file and the LSNs of the pages.  The handler has its free pages
from `init` on. -/
structure RecordFileHandler where
  file : RecordFile
  lsns : Nat → LSN
  freePages : Option (Finset Nat)

namespace RecordFileHandler

variable (env : FileOutcomes)

def setPage (s : RecordFileHandler) (pageNum : Nat) (page : RecordPage) : RecordFileHandler :=
  { s with file := s.file.setPage pageNum page }

/-- `Frame::set_lsn` with what the log has returned. -/
def setLsn (s : RecordFileHandler) (pageNum : Nat) : Except RC LSN → RecordFileHandler
  | .ok lsn =>
    if 0 < lsn then { s with lsns := Function.update s.lsns pageNum lsn } else s
  | .error _ => s

/-! ## `init` -/

/-- The loop of `init_free_pages` over the allocated pages. -/
def initFreePages (file : RecordFile) : List Nat → Finset Nat → Finset Nat
  | [], free => free
  | pageNum :: rest, free =>
    match env.load pageNum with
    | .error _ => free
    | .ok () =>
      if (file.pages pageNum).isFull then initFreePages file rest free
      else initFreePages file rest (insert pageNum free)

/-- `init`, which ignores what `init_free_pages` returns. -/
def init (s : RecordFileHandler) : Except RC Unit × RecordFileHandler :=
  match s.freePages with
  | some _ => (.error .recordOpenned, s)
  | none => (.ok (), { s with freePages := some (initFreePages env s.file
      (settedFrom s.file.header.bitmap s.file.header.pageCount 1) ∅) })

/-! ## `insert_record` -/

/-- The search of `insert_record` among the free pages, with those that it leaves. -/
def findFreePage (file : RecordFile) : Nat → Finset Nat → Except RC (Option Nat) × Finset Nat
  | 0, free => (.ok none, free)
  | n + 1, free =>
    if free = ∅ then (.ok none, free)
    else
      let pageNum := env.first free
      match env.load pageNum with
      | .error rc => (.error rc, free)
      | .ok () =>
        if (file.pages pageNum).isFull then findFreePage file n (free.erase pageNum)
        else (.ok (some pageNum), free)

/-- A page that has been cleared. -/
def clearedPage : RecordPage := ⟨⟨0, 0, 0, 0, 0, 0, 0⟩, fun _ => 0⟩

/-- `DiskBufferPool::allocate_page`. -/
def allocatePage (file : RecordFile) : Except RC Nat × RecordFile :=
  match file.header.freePage with
  | some i =>
    let file := { file with header := file.header.reuse i }
    match env.load i with
    | .ok () => (.ok i, file)
    | .error rc => (.error rc, file)
  | none =>
    if BPFileHeader.maxPageNum ≤ file.header.pageCount then (.error .nobuf, file)
    else
      match env.frame with
      | .error rc => (.error rc, file)
      | .ok () =>
        let pageNum := file.header.pageCount
        (.ok pageNum, { file.setPage pageNum clearedPage with header := file.header.extend })

/-- A page that is appended is cleared with its LSN, one that is used again keeps both. -/
def lsnsAllocated (s : RecordFileHandler) (pageNum : Nat) : Nat → LSN :=
  if pageNum = s.file.header.pageCount then Function.update s.lsns pageNum 0 else s.lsns

/-- `RecordPageHandler::insert_record` and what it logs; nothing when the process ends. -/
def insertInPage (pageNum : Nat) (record : List UInt8) (s : RecordFileHandler) :
    Option (Except RC Unit × RecordFileHandler) :=
  match insertRecord record (s.file.pages pageNum) with
  | .ok (page, _) => some (.ok (), (s.setPage pageNum page).setLsn pageNum env.recordLog)
  | .error (.rc rc) => some (.error rc, s)
  | .error _ => none

/-- `insert_record` once a page has been allocated. -/
def insertInNew (record : List UInt8) (recordSize : Nat) (free : Finset Nat)
    (pageNum : Nat) (s : RecordFileHandler) : Option (Except RC Unit × RecordFileHandler) :=
  match initEmptyPage recordSize (s.file.pages pageNum) with
  | .error _ => none
  | .ok (page, _) =>
    let s : RecordFileHandler := { s.setPage pageNum page with freePages := some free }
    match env.initLog with
    | .error rc => some (.error rc, s)
    | .ok lsn =>
      let s := { s.setLsn pageNum (.ok lsn) with freePages := some (insert pageNum free) }
      insertInPage env pageNum record s

/-- `insert_record` of an open handler. -/
def insertRecord (record : List UInt8) (recordSize : Nat) (free : Finset Nat)
    (s : RecordFileHandler) : Option (Except RC Unit × RecordFileHandler) :=
  match findFreePage env s.file free.card free with
  | (.error rc, free) => some (.error rc, { s with freePages := some free })
  | (.ok (some pageNum), free) => insertInPage env pageNum record { s with freePages := some free }
  | (.ok none, free) =>
    match allocatePage env s.file with
    | (.error rc, file) => some (.error rc, { s with file, freePages := some free })
    | (.ok pageNum, file) =>
      insertInNew env record recordSize free pageNum
        { s with file, lsns := s.lsnsAllocated pageNum }

/-! ## `delete_record` and the replay -/

/-- `delete_record` of an open handler. -/
def deleteRecord (pageNum slotNum : Nat) (free : Finset Nat) (s : RecordFileHandler) :
    Option (Except RC Unit × RecordFileHandler) :=
  match env.load pageNum with
  | .error rc => some (.error rc, s)
  | .ok () =>
    match RowRecordPageHandler.deleteRecord slotNum (s.file.pages pageNum) with
    | .ok (page, _) =>
      let s := (s.setPage pageNum page).setLsn pageNum env.recordLog
      some (.ok (), { s with freePages := some (insert pageNum free) })
    | .error (.rc rc) => some (.error rc, s)
    | .error _ => none

/-- `RecordLogReplayer::replay` of an entry of the file. -/
def replay (pageNum : Nat) (entry : RecordLogEntry) (s : RecordFileHandler) :
    Option (Except RC Unit × RecordFileHandler) :=
  match env.load pageNum with
  | .error rc => some (.error rc, s)
  | .ok () =>
    match RecordLogReplayer.replay entry ⟨s.file.pages pageNum, s.lsns pageNum⟩ with
    | .ok frame => some (.ok (),
        { s.setPage pageNum frame.page with lsns := Function.update s.lsns pageNum frame.lsn })
    | .error (.rc rc) => some (.error rc, s)
    | .error _ => none

/-! ## Runs -/

/-- The number of a page of records.  Page 0 is the header of the file. -/
abbrev RecordPageNum := { pageNum : Nat // 1 ≤ pageNum }

inductive Call where
  | init (env : FileOutcomes)
  | insertRecord (env : FileOutcomes) (record : List UInt8) (recordSize : Nat)
  | deleteRecord (env : FileOutcomes) (pageNum : RecordPageNum) (slotNum : Nat)
  | replay (env : FileOutcomes) (pageNum : RecordPageNum) (entry : RecordLogEntry)

/-- A call with its return code.  A handler that has not been opened has no file to work on. -/
def perform (s : RecordFileHandler) : Call → Option (Except RC Unit × RecordFileHandler)
  | .init env => some (s.init env)
  | .insertRecord env record recordSize =>
    s.freePages.bind fun free => s.insertRecord env record recordSize free
  | .deleteRecord env pageNum slotNum =>
    s.freePages.bind fun free => s.deleteRecord env pageNum slotNum free
  | .replay env pageNum entry => s.replay env pageNum entry

def step (s : RecordFileHandler) (call : Call) : Option RecordFileHandler :=
  (s.perform call).map Prod.snd

/-- A file that has not been opened. -/
def closed (file : RecordFile) (lsns : Nat → LSN) : RecordFileHandler := ⟨file, lsns, none⟩

/-! ## What is to hold -/

variable (s s' : RecordFileHandler)

/-- A page of records that is allocated and not full. -/
def HasRoom (pageNum : Nat) : Prop :=
  1 ≤ pageNum ∧ s.file.header.Allocated pageNum ∧ ¬ (s.file.pages pageNum).isFull

/-- Every page with room is in the set. -/
def NothingForgotten : Prop :=
  ∀ free, s.freePages = some free → ∀ pageNum, s.HasRoom pageNum → pageNum ∈ free

def SameAllocated : Prop :=
  ∀ pageNum, s'.file.header.Allocated pageNum ↔ s.file.header.Allocated pageNum

/-- No page is forgotten, a call that fails has allocated nothing, and one that allocates has found
every page full. -/
def Meets (call : Call) : Prop :=
  ∀ result s', s.perform call = some (result, s') → s'.NothingForgotten ∧
    (∀ rc, result = .error rc → s.SameAllocated s') ∧
    (¬ s.SameAllocated s' → ∀ pageNum, ¬ s.HasRoom pageNum)

/-- The capacity of a new page. -/
def emptyCapacity (recordSize : Nat) : Nat :=
  let capacity := pageRecordCapacity bpPageDataSize (align8 recordSize) 0
  fixRecordCapacity (align8 (pageHeaderSize + pageBitmapSize capacity)) (align8 recordSize)
    capacity

/-- Every page of the set can be read and is full. -/
def NeedsPage (free : Finset Nat) : Prop :=
  ∀ pageNum ∈ free, env.load pageNum = .ok () ∧ (s.file.pages pageNum).isFull

/-- A new page is not allocated at all, or it can be read, its initialization is logged and a record
fits in it. -/
def AllocatesWell (recordSize : Nat) : Prop :=
  match s.file.header.freePage with
  | some i => env.load i = .ok () ∧ (∃ lsn, env.initLog = .ok lsn) ∧ emptyCapacity recordSize ≠ 0
  | none => BPFileHeader.maxPageNum ≤ s.file.header.pageCount ∨ env.frame ≠ .ok () ∨
      ((∃ lsn, env.initLog = .ok lsn) ∧ emptyCapacity recordSize ≠ 0)

/-- A full page is full after the entry, too. -/
def KeepsFull (page : RecordPage) : RecordLog → Prop
  | .initPage recordSize => emptyCapacity recordSize = 0
  | .insert _ _ | .update _ _ => True
  | .delete slotNum => bpPageDataSize ≤ RecordPage.bitmapByte slotNum ∨
      page.getBit slotNum = false ∨ (page.header.recordCapacity : Int) < page.header.recordNum

/-- What a call must not meet with. -/
def Harmless : Call → Prop
  | .init env => s.freePages = none → ∀ pageNum, s.HasRoom pageNum →
      ∀ before ≤ pageNum, 1 ≤ before → s.file.header.Allocated before → env.load before = .ok ()
  | .insertRecord env _ recordSize => ∀ free, s.freePages = some free →
      s.NeedsPage env free → s.AllocatesWell env recordSize
  | .deleteRecord _ _ _ => True
  | .replay env pageNum entry => ∀ free, s.freePages = some free → env.load pageNum = .ok () →
      s.lsns pageNum < entry.lsn → pageNum.1 ∈ free ∨ ¬ s.file.header.Allocated pageNum ∨
        KeepsFull (s.file.pages pageNum) entry.log

/-! ## Pages that stay full -/

section

variable {page page' : RecordPage} {log : RecordLog} {recordSize : Nat}

theorem dataOffset_empty_le (recordSize : Nat) : align8 (pageHeaderSize + pageBitmapSize
    (pageRecordCapacity bpPageDataSize (align8 recordSize) 0)) ≤ bpPageDataSize := by
  have hcap : pageRecordCapacity bpPageDataSize (align8 recordSize) 0 ≤ 261784 := by
    unfold pageRecordCapacity
    exact Nat.div_le_self _ _
  generalize pageRecordCapacity bpPageDataSize (align8 recordSize) 0 = capacity at hcap ⊢
  unfold align8 pageHeaderSize pageBitmapSize bpPageDataSize
  omega

theorem initEmptyPage_ok (recordSize : Nat) (page : RecordPage) :
    ∃ page' log, initEmptyPage recordSize page = .ok (page', log) ∧
      page'.header.recordNum = 0 ∧ page'.header.recordCapacity = emptyCapacity recordSize := by
  have hin := (fixRecordCapacity_spec _ (align8 recordSize)
    (pageRecordCapacity bpPageDataSize (align8 recordSize) 0) (dataOffset_empty_le recordSize)).2.1
  unfold initEmptyPage
  rw [if_neg (Nat.not_lt.mpr hin)]
  exact ⟨_, _, rfl, rfl, rfl⟩

theorem isFull_insertRecord {record : List UInt8} (hfull : page.isFull)
    (h : RowRecordPageHandler.insertRecord record page = .ok (page', log)) : page'.isFull := by
  unfold RowRecordPageHandler.insertRecord at h
  split at h
  · cases h
  · split at h
    · cases h
    · cases h
      unfold RecordPage.isFull at hfull ⊢
      simp only [RecordPage.setRecordData, RecordPage.addRecordNum, RecordPage.setBit]
      omega

/-- What an operation of the replay leaves full. -/
theorem isFull_redo (hfull : page.isFull) (hkeeps : KeepsFull page log)
    {log' : RecordLog} (h : RecordLogReplayer.redo log page = .ok (page', log')) :
    page'.isFull := by
  cases log with
  | initPage recordSize =>
    obtain ⟨page'', log'', hinit, hnum, hcap⟩ := initEmptyPage_ok recordSize page
    cases hinit.symm.trans h
    have hzero : emptyCapacity recordSize = 0 := hkeeps
    unfold RecordPage.isFull
    rw [hnum, hcap, hzero]
    exact Int.le_refl _
  | insert slotNum data => exact isFull_insertRecord hfull h
  | update slotNum data =>
    simp only [RecordLogReplayer.redo, RowRecordPageHandler.updateRecord] at h
    split at h
    · cases h
    · split at h
      · cases h
        exact hfull
      · cases h
  | delete slotNum =>
    simp only [RecordLogReplayer.redo, RowRecordPageHandler.deleteRecord] at h
    rcases hkeeps with hout | hclear | hover
    · rw [if_pos hout] at h
      cases h
    · rw [hclear] at h
      split at h <;> cases h
    · split at h
      · cases h
      · split at h
        · cases h
          unfold RecordPage.isFull
          simp only [RecordPage.addRecordNum, RecordPage.clearBit]
          omega
        · cases h

/-- What an operation of the replay does not leave full. -/
theorem not_isFull_redo (hkeeps : ¬ KeepsFull page log) : ∃ page' log',
    RecordLogReplayer.redo log page = .ok (page', log') ∧ ¬ page'.isFull := by
  cases log with
  | initPage recordSize =>
    obtain ⟨page', log', hinit, hnum, hcap⟩ := initEmptyPage_ok recordSize page
    refine ⟨page', log', hinit, ?_⟩
    have hzero : ¬ emptyCapacity recordSize = 0 := hkeeps
    unfold RecordPage.isFull
    rw [hnum, hcap]
    omega
  | insert slotNum data => exact absurd trivial hkeeps
  | update slotNum data => exact absurd trivial hkeeps
  | delete slotNum =>
    simp only [KeepsFull, not_or, Bool.not_eq_false] at hkeeps
    obtain ⟨hin, hset, hnum⟩ := hkeeps
    refine ⟨(page.clearBit slotNum).addRecordNum (-1), .delete slotNum, ?_, ?_⟩
    · simp only [RecordLogReplayer.redo, RowRecordPageHandler.deleteRecord, if_neg hin, hset,
        if_true]
    · unfold RecordPage.isFull
      simp only [RecordPage.addRecordNum, RecordPage.clearBit]
      omega

end

/-! ## Pages that are not forgotten -/

variable {env s s'} {free free' : Finset Nat} {pageNum : Nat} {page : RecordPage}

/-- A page changes, and the others are where they were. -/
theorem NothingForgotten.setPage (h : s.NothingForgotten) (hfree : s.freePages = some free)
    (hheader : s'.file.header = s.file.header)
    (hpages : ∀ other, other ≠ pageNum → s'.file.pages other = s.file.pages other)
    (hfree' : s'.freePages = some free')
    (hkept : ∀ other ∈ free, other ∉ free' → (s.file.pages other).isFull)
    (hpage : s'.HasRoom pageNum → pageNum ∈ free') : s'.NothingForgotten := by
  rintro _ hopen other hroom
  obtain rfl : free' = _ := Option.some.inj (hfree'.symm.trans hopen)
  by_cases hother : other = pageNum
  · rw [hother] at hroom ⊢
    exact hpage hroom
  · obtain ⟨hpos, halloc, hfull⟩ := hroom
    rw [hheader] at halloc
    rw [hpages other hother] at hfull
    by_contra hnot
    exact hfull (hkept other (h free hfree other ⟨hpos, halloc, hfull⟩) hnot)

@[simp] theorem setLsn_file (lsn : Except RC LSN) : (s.setLsn pageNum lsn).file = s.file := by
  cases lsn with
  | ok lsn =>
    simp only [setLsn]
    split_ifs <;> rfl
  | error rc => rfl

@[simp] theorem setLsn_freePages (lsn : Except RC LSN) :
    (s.setLsn pageNum lsn).freePages = s.freePages := by
  cases lsn with
  | ok lsn =>
    simp only [setLsn]
    split_ifs <;> rfl
  | error rc => rfl

@[simp] theorem setPage_freePages : (s.setPage pageNum page).freePages = s.freePages := rfl

@[simp] theorem setPage_header : (s.setPage pageNum page).file.header = s.file.header := rfl

theorem setPage_pages {other : Nat} (h : other ≠ pageNum) :
    (s.setPage pageNum page).file.pages other = s.file.pages other :=
  RecordFile.setPage_ne h page

theorem SameAllocated.of_header (h : s'.file.header = s.file.header) : s.SameAllocated s' :=
  fun pageNum => by rw [h]

/-- A call that leaves the header and forgets nothing does what it is to do. -/
theorem meets_of_header {call : Call}
    (h : ∀ result s', s.perform call = some (result, s') →
      s'.NothingForgotten ∧ s'.file.header = s.file.header) : s.Meets call := by
  intro result s' hcall
  obtain ⟨hforgotten, hheader⟩ := h result s' hcall
  exact ⟨hforgotten, fun _ _ => .of_header hheader,
    fun hsame => absurd (SameAllocated.of_header hheader) hsame⟩

/-! ## `init` -/

theorem mem_initFreePages {file : RecordFile} {pages : List Nat}
    (hsorted : pages.Pairwise (· < ·)) : pageNum ∈ initFreePages env file pages free ↔
      pageNum ∈ free ∨ (pageNum ∈ pages ∧ ¬ (file.pages pageNum).isFull ∧
        ∀ before ∈ pages, before ≤ pageNum → env.load before = .ok ()) := by
  induction pages generalizing free with
  | nil => simp [initFreePages]
  | cons first rest ih =>
    obtain ⟨hfirst, hrest⟩ := List.pairwise_cons.mp hsorted
    rw [initFreePages]
    cases hload : env.load first with
    | error rc =>
      have hnone : ¬ (pageNum ∈ first :: rest ∧ ¬ (file.pages pageNum).isFull ∧
          ∀ before ∈ first :: rest, before ≤ pageNum → env.load before = .ok ()) := by
        rintro ⟨hmem, -, hall⟩
        have hle : first ≤ pageNum := by
          rcases List.mem_cons.mp hmem with rfl | hmem
          · exact Nat.le_refl _
          · exact Nat.le_of_lt (hfirst _ hmem)
        cases (hall first List.mem_cons_self hle).symm.trans hload
      rw [or_iff_left hnone]
    | ok _ =>
      have hstep : (pageNum ∈ first :: rest ∧ ¬ (file.pages pageNum).isFull ∧
          ∀ before ∈ first :: rest, before ≤ pageNum → env.load before = .ok ()) ↔
          (pageNum = first ∧ ¬ (file.pages first).isFull) ∨
            (pageNum ∈ rest ∧ ¬ (file.pages pageNum).isFull ∧
              ∀ before ∈ rest, before ≤ pageNum → env.load before = .ok ()) := by
        rw [List.mem_cons, List.forall_mem_cons]
        constructor
        · rintro ⟨rfl | hmem, hroom, -, hall⟩
          · exact Or.inl ⟨rfl, hroom⟩
          · exact Or.inr ⟨hmem, hroom, hall⟩
        · rintro (⟨rfl, hroom⟩ | ⟨hmem, hroom, hall⟩)
          · refine ⟨Or.inl rfl, hroom, fun _ => hload, fun before hmem hle => ?_⟩
            exact absurd (hfirst before hmem) (Nat.not_lt.mpr hle)
          · exact ⟨Or.inr hmem, hroom, fun _ => hload, hall⟩
      rw [hstep]
      dsimp only
      split_ifs with hfull
      · rw [ih hrest]
        simp only [hfull, not_true_eq_false, and_false, false_or]
      · rw [ih hrest, Finset.mem_insert]
        simp only [hfull, not_false_eq_true, and_true]
        rw [or_comm (a := pageNum = first), or_assoc]

theorem sorted_settedFrom (bits : Nat → Bool) (size start : Nat) :
    (settedFrom bits size start).Pairwise (· < ·) :=
  List.Pairwise.filter _ List.pairwise_lt_range'

theorem meets_init_iff (h : s.NothingForgotten) : s.Meets (.init env) ↔ s.Harmless (.init env) := by
  cases hopen : s.freePages with
  | some free =>
    refine iff_of_true ?_ ?_
    · apply meets_of_header
      intro result s' hcall
      simp only [perform, init, hopen, Option.some.injEq, Prod.mk.injEq] at hcall
      obtain ⟨-, rfl⟩ := hcall
      exact ⟨h, rfl⟩
    · intro hclosed
      cases hclosed.symm.trans hopen
  | none =>
    have hmem : ∀ pageNum, s.HasRoom pageNum →
        (pageNum ∈ initFreePages env s.file
          (settedFrom s.file.header.bitmap s.file.header.pageCount 1) ∅ ↔
          ∀ before ≤ pageNum, 1 ≤ before → s.file.header.Allocated before →
            env.load before = .ok ()) := by
      rintro pageNum ⟨hpos, halloc, hfull⟩
      rw [mem_initFreePages (sorted_settedFrom _ _ _)]
      constructor
      · rintro (hempty | ⟨-, -, hall⟩) before hle hpos' halloc'
        · exact absurd hempty (Finset.notMem_empty _)
        · exact hall before (mem_settedFrom.mpr ⟨hpos', halloc'.1, halloc'.2⟩) hle
      · intro hall
        refine Or.inr ⟨mem_settedFrom.mpr ⟨hpos, halloc.1, halloc.2⟩, hfull, ?_⟩
        intro before hbefore hle
        obtain ⟨hpos', hlt, hbit⟩ := mem_settedFrom.mp hbefore
        exact hall before hle hpos' ⟨hlt, hbit⟩
    constructor
    · intro hmeets _ pageNum hroom
      have hcall : s.perform (.init env) = some (.ok (), { s with
          freePages := some (initFreePages env s.file
            (settedFrom s.file.header.bitmap s.file.header.pageCount 1) ∅) }) := by
        simp only [perform, init, hopen]
      exact (hmem pageNum hroom).mp ((hmeets _ _ hcall).1 _ rfl pageNum hroom)
    · intro hharmless
      apply meets_of_header
      intro result s' hcall
      simp only [perform, init, hopen, Option.some.injEq, Prod.mk.injEq] at hcall
      obtain ⟨-, rfl⟩ := hcall
      refine ⟨?_, rfl⟩
      rintro _ ⟨⟩ pageNum hroom
      exact (hmem pageNum hroom).mpr (hharmless hopen pageNum hroom)

/-! ## `insert_record` -/

/-- The search takes full pages out of the set, until it comes to one with room or one that cannot
be read. -/
theorem findFreePage_spec {n : Nat} (hn : free.card ≤ n) :
    (findFreePage env s.file n free = (.ok none, ∅) ∧ s.NeedsPage env free) ∨
    (¬ s.NeedsPage env free ∧ ∃ result free', findFreePage env s.file n free = (result, free') ∧
      (∀ other ∈ free, other ∉ free' → (s.file.pages other).isFull) ∧
      ((∃ rc, result = .error rc) ∨ ∃ pageNum, result = .ok (some pageNum) ∧ pageNum ∈ free' ∧
        ¬ (s.file.pages pageNum).isFull)) := by
  induction n generalizing free with
  | zero =>
    obtain rfl := Finset.card_eq_zero.mp (Nat.le_zero.mp hn)
    exact Or.inl ⟨rfl, fun _ hmem => absurd hmem (Finset.notMem_empty _)⟩
  | succ n ih =>
    rw [findFreePage]
    by_cases hempty : free = ∅
    · rw [if_pos hempty, hempty]
      exact Or.inl ⟨rfl, fun _ hmem => absurd hmem (Finset.notMem_empty _)⟩
    · rw [if_neg hempty]
      dsimp only
      have hmem := env.first_mem free (Finset.nonempty_iff_ne_empty.mpr hempty)
      cases hload : env.load (env.first free) with
      | error rc =>
        refine Or.inr ⟨fun hall => ?_, _, _, rfl, fun _ hin hout => absurd hin hout,
          Or.inl ⟨rc, rfl⟩⟩
        cases (hall _ hmem).1.symm.trans hload
      | ok _ =>
        dsimp only
        split_ifs with hfull
        · have hcard : (free.erase (env.first free)).card ≤ n := by
            rw [Finset.card_erase_of_mem hmem]
            omega
          have hneeds : s.NeedsPage env free ↔ s.NeedsPage env (free.erase (env.first free)) := by
            constructor
            · exact fun hall other hother => hall other (Finset.mem_of_mem_erase hother)
            · intro hall other hother
              by_cases heq : other = env.first free
              · rw [heq]
                exact ⟨hload, hfull⟩
              · exact hall other (Finset.mem_erase.mpr ⟨heq, hother⟩)
          rw [hneeds]
          rcases ih hcard with hnone | ⟨hnot, result, free', hfind, hout, hresult⟩
          · exact Or.inl hnone
          · refine Or.inr ⟨hnot, result, free', hfind, fun other hin hnotin => ?_, hresult⟩
            by_cases heq : other = env.first free
            · rw [heq]
              exact hfull
            · exact hout other (Finset.mem_erase.mpr ⟨heq, hin⟩) hnotin
        · refine Or.inr ⟨fun hall => hfull (hall _ hmem).2, _, _, rfl,
            fun _ hin hout => absurd hin hout, Or.inr ⟨_, rfl, hmem, hfull⟩⟩

theorem insertInPage_spec {record : List UInt8} {result : Except RC Unit}
    (hfree : s.freePages = some free)
    (h : insertInPage env pageNum record s = some (result, s')) :
    s'.freePages = some free ∧ s'.file.header = s.file.header ∧
      ∀ other, other ≠ pageNum → s'.file.pages other = s.file.pages other := by
  unfold insertInPage at h
  cases hinsert : RowRecordPageHandler.insertRecord record (s.file.pages pageNum) with
  | error fault =>
    rw [hinsert] at h
    cases fault with
    | rc rc =>
      cases h
      exact ⟨hfree, rfl, fun _ _ => rfl⟩
    | abort => cases h
    | outOfFuel => cases h
  | ok result =>
    rw [hinsert] at h
    cases h
    refine ⟨?_, ?_, fun other hother => ?_⟩
    · rw [setLsn_freePages, setPage_freePages, hfree]
    · rw [setLsn_file, setPage_header]
    · rw [setLsn_file, setPage_pages hother]

/-- All pages are full where a new one is needed. -/
theorem NothingForgotten.not_hasRoom (h : s.NothingForgotten) (hfree : s.freePages = some free)
    (hneeds : s.NeedsPage env free) (pageNum : Nat) : ¬ s.HasRoom pageNum :=
  fun hroom => hroom.2.2 (hneeds pageNum (h free hfree pageNum hroom)).2

theorem meets_insertRecord_found {record : List UInt8} {recordSize : Nat}
    (h : s.NothingForgotten) (hfree : s.freePages = some free) (hneeds : ¬ s.NeedsPage env free) :
    s.Meets (.insertRecord env record recordSize) := by
  apply meets_of_header
  intro result s' hcall
  simp only [perform, hfree, Option.bind_some] at hcall
  unfold insertRecord at hcall
  rcases @findFreePage_spec env s free _ (Nat.le_refl free.card) with
    ⟨-, hnone⟩ | ⟨-, found, free', hfind, hkept, ⟨rc, rfl⟩ | ⟨pageNum, rfl, hmem, hroom⟩⟩
  · exact absurd hnone hneeds
  · rw [hfind] at hcall
    cases hcall
    refine ⟨?_, rfl⟩
    rintro _ ⟨⟩ other hother
    by_contra hnot
    exact hother.2.2 (hkept other (h free hfree other hother) hnot)
  · rw [hfind] at hcall
    obtain ⟨hfree', hheader, hpages⟩ :=
      insertInPage_spec (s := { s with freePages := some free' }) rfl hcall
    exact ⟨h.setPage hfree hheader hpages hfree' hkept fun _ => hmem, hheader⟩

/-- The page is kept in the set if its initialization is logged and a record fits in it; otherwise
the insertion fails. -/
theorem insertInNew_spec {record : List UInt8} {recordSize : Nat} :
    (((∃ lsn, env.initLog = .ok lsn) ∧ emptyCapacity recordSize ≠ 0) ∧
      ∀ result s', insertInNew env record recordSize free pageNum s = some (result, s') →
        s'.freePages = some (insert pageNum free) ∧ s'.file.header = s.file.header ∧
        (∀ other, other ≠ pageNum → s'.file.pages other = s.file.pages other) ∧
        ∃ done, result = .ok done) ∨
    (¬ ((∃ lsn, env.initLog = .ok lsn) ∧ emptyCapacity recordSize ≠ 0) ∧
      ∃ rc s', insertInNew env record recordSize free pageNum s = some (.error rc, s') ∧
        s'.file.header = s.file.header) := by
  obtain ⟨page, log, hinit, hnum, hcap⟩ := initEmptyPage_ok recordSize (s.file.pages pageNum)
  unfold insertInNew
  rw [hinit]
  dsimp only
  cases hlog : env.initLog with
  | error rc =>
    refine Or.inr ⟨?_, rc, _, rfl, rfl⟩
    rintro ⟨⟨lsn, hok⟩, -⟩
    cases hok
  | ok lsn =>
    have hfile : (RecordFileHandler.setLsn { s.setPage pageNum page with freePages := some free }
        pageNum (.ok lsn)).file = s.file.setPage pageNum page := setLsn_file _
    by_cases hzero : emptyCapacity recordSize = 0
    · refine Or.inr ⟨fun hok => hok.2 hzero, .recordNomem, ?_⟩
      unfold insertInPage
      dsimp only
      rw [hfile, RecordFile.setPage_self, RowRecordPageHandler.insertRecord, hnum, hcap, hzero,
        if_pos Nat.cast_zero.symm]
      exact ⟨_, rfl, rfl⟩
    · refine Or.inl ⟨⟨⟨lsn, rfl⟩, hzero⟩, fun result s' hcall => ?_⟩
      obtain ⟨hfree', hheader, hpages⟩ :=
        insertInPage_spec rfl hcall
      dsimp only at hheader hpages
      rw [hfile] at hheader hpages
      refine ⟨hfree', hheader, fun other hother => ?_, ?_⟩
      · rw [hpages other hother, RecordFile.setPage_ne hother]
      · unfold insertInPage at hcall
        dsimp only at hcall
        have hroom : ¬ (0 : Int) = (emptyCapacity recordSize : Int) := by omega
        rw [hfile, RecordFile.setPage_self, RowRecordPageHandler.insertRecord, hnum, hcap,
          if_neg hroom] at hcall
        cases hnext : page.nextUnsettedBit with
        | none =>
          rw [hnext] at hcall
          cases hcall
        | some index =>
          rw [hnext] at hcall
          cases hcall
          exact ⟨(), rfl⟩

/-- Where a new page has been allocated in place of full ones. -/
theorem nothingForgotten_new {file : RecordFile} (hnone : ∀ other, ¬ s.HasRoom other)
    (halloc : ∀ other, file.header.Allocated other ↔
      s.file.header.Allocated other ∨ other = pageNum)
    (hpages : ∀ other, other ≠ pageNum → file.pages other = s.file.pages other)
    (hfree : s'.freePages = some (insert pageNum free)) (hheader : s'.file.header = file.header)
    (hpages' : ∀ other, other ≠ pageNum → s'.file.pages other = file.pages other) :
    s'.NothingForgotten := by
  rintro _ hopen other ⟨hpos, hother, hroom⟩
  obtain rfl : insert pageNum free = _ := Option.some.inj (hfree.symm.trans hopen)
  by_cases heq : other = pageNum
  · rw [heq]
    exact Finset.mem_insert_self _ _
  · rw [hheader, halloc, or_iff_left heq] at hother
    rw [hpages' other heq, hpages other heq] at hroom
    exact absurd ⟨hpos, hother, hroom⟩ (hnone other)

theorem meets_insertRecord_new {record : List UInt8} {recordSize : Nat}
    (h : s.NothingForgotten) (hfree : s.freePages = some free) (hneeds : s.NeedsPage env free) :
    s.Meets (.insertRecord env record recordSize) ↔ s.AllocatesWell env recordSize := by
  have hnone := h.not_hasRoom hfree hneeds
  have hfind : findFreePage env s.file free.card free = (.ok none, ∅) := by
    rcases @findFreePage_spec env s free _ (Nat.le_refl free.card) with hfound | hfound
    · exact hfound.1
    · exact absurd hneeds hfound.1
  have hperform : s.perform (.insertRecord env record recordSize) =
      s.insertRecord env record recordSize free := by
    simp only [perform, hfree, Option.bind_some]
  -- what becomes of a page that has been allocated
  have hnew : ∀ (file : RecordFile) (pageNum : Nat), ¬ s.file.header.Allocated pageNum →
      (∀ other, file.header.Allocated other ↔ s.file.header.Allocated other ∨ other = pageNum) →
      (∀ other, other ≠ pageNum → file.pages other = s.file.pages other) →
      s.perform (.insertRecord env record recordSize) =
        insertInNew env record recordSize ∅ pageNum
          { s with file, lsns := s.lsnsAllocated pageNum } →
      (s.Meets (.insertRecord env record recordSize) ↔
        (∃ lsn, env.initLog = .ok lsn) ∧ emptyCapacity recordSize ≠ 0) := by
    intro file pageNum hfresh halloc hpages hcall
    rcases @insertInNew_spec env { s with file, lsns := s.lsnsAllocated pageNum } ∅ pageNum record
        recordSize with
      ⟨hgood, hspec⟩ | ⟨hbad, rc, s', hspec, hheader⟩
    · refine iff_of_true (fun result s' hresult => ?_) hgood
      obtain ⟨hfree', hheader, hpages', done, rfl⟩ := hspec result s' (hcall.symm.trans hresult)
      refine ⟨nothingForgotten_new hnone halloc hpages hfree' hheader hpages', ?_, fun _ => hnone⟩
      rintro _ ⟨⟩
    · refine iff_of_false (fun hmeets => ?_) hbad
      have hsame := (hmeets _ _ (hcall.trans hspec)).2.1 rc rfl pageNum
      rw [hheader] at hsame
      exact hfresh (hsame.mp ((halloc pageNum).mpr (Or.inr rfl)))
  -- an error that has allocated nothing
  have hrefused : ∀ rc, s.perform (.insertRecord env record recordSize) =
      some (.error rc, { s with freePages := some ∅ }) →
      s.Meets (.insertRecord env record recordSize) := by
    intro rc hcall
    apply meets_of_header
    intro result s' hresult
    cases hcall.symm.trans hresult
    refine ⟨?_, rfl⟩
    rintro _ ⟨⟩ other hother
    exact absurd hother (hnone other)
  unfold AllocatesWell
  cases hpage : s.file.header.freePage with
  | some i =>
    have hfresh : ¬ s.file.header.Allocated i := by
      rintro ⟨-, hbit⟩
      rw [(BPFileHeader.freePage_eq_some hpage).2] at hbit
      cases hbit
    have halloc (other : Nat) := @BPFileHeader.allocated_reuse _ _ other hpage
    cases hload : env.load i with
    | error rc =>
      refine iff_of_false (fun hmeets => ?_) (by simp [hload])
      have hcall : s.perform (.insertRecord env record recordSize) = some (.error rc, { s with
          file := { s.file with header := s.file.header.reuse i }, freePages := some ∅ }) := by
        rw [hperform, insertRecord, hfind]
        simp only [allocatePage, hpage, hload]
      have hsame := (hmeets _ _ hcall).2.1 rc rfl i
      exact hfresh (hsame.mp ((halloc i).mpr (Or.inr rfl)))
    | ok _ =>
      dsimp only
      rw [and_iff_right hload]
      apply hnew { s.file with header := s.file.header.reuse i } i hfresh halloc
        (fun _ _ => rfl)
      rw [hperform, insertRecord, hfind]
      simp only [allocatePage, hpage, hload]
  | none =>
    have hfresh : ¬ s.file.header.Allocated s.file.header.pageCount :=
      fun halloc => absurd halloc.1 (Nat.lt_irrefl _)
    have halloc (other : Nat) := @BPFileHeader.allocated_extend _ other hpage
    dsimp only
    by_cases hmax : BPFileHeader.maxPageNum ≤ s.file.header.pageCount
    · refine iff_of_true (hrefused .nobuf ?_) (Or.inl hmax)
      rw [hperform, insertRecord, hfind]
      simp only [allocatePage, hpage, if_pos hmax]
    · rw [or_iff_right hmax]
      cases hframe : env.frame with
      | error rc =>
        refine iff_of_true (hrefused rc ?_) (Or.inl (by simp))
        rw [hperform, insertRecord, hfind]
        simp only [allocatePage, hpage, if_neg hmax, hframe]
      | ok _ =>
        rw [or_iff_right (by simp)]
        apply hnew { s.file.setPage s.file.header.pageCount clearedPage with
          header := s.file.header.extend } s.file.header.pageCount hfresh halloc
          (fun other hother => RecordFile.setPage_ne hother _)
        rw [hperform, insertRecord, hfind]
        simp only [allocatePage, hpage, if_neg hmax, hframe]

theorem meets_insertRecord_iff {record : List UInt8} {recordSize : Nat}
    (h : s.NothingForgotten) : s.Meets (.insertRecord env record recordSize) ↔
      s.Harmless (.insertRecord env record recordSize) := by
  unfold Harmless
  cases hfree : s.freePages with
  | none =>
    refine iff_of_true (fun result s' hcall => ?_) (by simp)
    simp only [perform, hfree, Option.bind_none] at hcall
    cases hcall
  | some free =>
    simp only [Option.some.injEq, forall_eq']
    by_cases hneeds : s.NeedsPage env free
    · rw [meets_insertRecord_new h hfree hneeds]
      exact ⟨fun hwell _ => hwell, fun hwell => hwell hneeds⟩
    · exact iff_of_true (meets_insertRecord_found h hfree hneeds) fun hall => absurd hall hneeds

/-! ## `delete_record` and the replay -/

theorem meets_deleteRecord {pageNum : RecordPageNum} {slotNum : Nat} (h : s.NothingForgotten) :
    s.Meets (.deleteRecord env pageNum slotNum) := by
  apply meets_of_header
  intro result s' hcall
  cases hfree : s.freePages with
  | none =>
    simp only [perform, hfree, Option.bind_none] at hcall
    cases hcall
  | some free =>
    simp only [perform, hfree, Option.bind_some] at hcall
    unfold deleteRecord at hcall
    split at hcall
    · cases hcall
      exact ⟨h, rfl⟩
    · split at hcall
      · rename_i page _ _
        cases hcall
        have hheader : ((s.setPage pageNum page).setLsn pageNum env.recordLog).file.header =
            s.file.header := by rw [setLsn_file, setPage_header]
        refine ⟨?_, hheader⟩
        refine @NothingForgotten.setPage s _ free (insert pageNum.1 free) pageNum h hfree hheader
          ?_ rfl ?_ ?_
        · intro other hother
          dsimp only
          rw [setLsn_file, setPage_pages hother]
        · exact fun other hin hout => absurd (Finset.mem_insert_of_mem hin) hout
        · exact fun _ => Finset.mem_insert_self _ _
      · cases hcall
        exact ⟨h, rfl⟩
      · cases hcall

/-- The page after an entry that is behind it. -/
theorem perform_replay {pageNum : RecordPageNum} {entry : RecordLogEntry}
    (hload : env.load pageNum = .ok ()) (hlsn : s.lsns pageNum < entry.lsn)
    {page : RecordPage} {log : RecordLog}
    (hredo : RecordLogReplayer.redo entry.log (s.file.pages pageNum) = .ok (page, log)) :
    s.perform (.replay env pageNum entry) = some (.ok (),
      { s.setPage pageNum page with lsns := Function.update s.lsns pageNum entry.lsn }) := by
  simp only [perform, replay, hload, RecordLogReplayer.replay, if_neg (Nat.not_le.mpr hlsn), hredo]

theorem meets_replay_iff {pageNum : RecordPageNum} {entry : RecordLogEntry}
    (h : s.NothingForgotten) :
    s.Meets (.replay env pageNum entry) ↔ s.Harmless (.replay env pageNum entry) := by
  constructor
  · intro hmeets free hfree hload hlsn
    by_contra hnot
    rw [not_or, not_or, not_not] at hnot
    obtain ⟨hout, halloc, hkeeps⟩ := hnot
    obtain ⟨page, log, hredo, hroom⟩ := not_isFull_redo hkeeps
    have hforgotten := (hmeets _ _ (perform_replay hload hlsn hredo)).1
    refine hout (hforgotten free hfree pageNum ⟨pageNum.2, halloc, ?_⟩)
    change ¬ ((s.file.setPage pageNum page).pages pageNum).isFull
    rwa [RecordFile.setPage_self]
  · intro hharmless
    apply meets_of_header
    intro result s' hcall
    simp only [perform, replay, RecordLogReplayer.replay] at hcall
    cases hload : env.load pageNum with
    | error rc =>
      rw [hload] at hcall
      cases hcall
      exact ⟨h, rfl⟩
    | ok _ =>
      rw [hload] at hcall
      by_cases hlsn : entry.lsn ≤ s.lsns pageNum
      · -- the page is already behind the entry
        simp only [if_pos hlsn, Function.update_eq_self] at hcall
        cases hcall
        have hself : s.file.setPage pageNum (s.file.pages pageNum) = s.file := by
          unfold RecordFile.setPage
          rw [Function.update_eq_self]
        unfold setPage
        rw [hself]
        exact ⟨h, rfl⟩
      · simp only [if_neg hlsn] at hcall
        cases hredo : RecordLogReplayer.redo entry.log (s.file.pages pageNum) with
        | error fault =>
          rw [hredo] at hcall
          cases fault with
          | rc rc =>
            cases hcall
            exact ⟨h, rfl⟩
          | abort => cases hcall
          | outOfFuel => cases hcall
        | ok result =>
          obtain ⟨page, log⟩ := result
          rw [hredo] at hcall
          cases hcall
          refine ⟨?_, rfl⟩
          cases hfree : s.freePages with
          | none =>
            intro free hopen
            cases hfree.symm.trans hopen
          | some free =>
            refine @NothingForgotten.setPage s _ free free pageNum h hfree rfl ?_ hfree
              (fun other hin hout => absurd hin hout) ?_
            · exact fun other hother => setPage_pages hother
            rintro ⟨hpos, halloc, hroom⟩
            by_contra hout
            rcases hharmless free hfree hload (Nat.not_le.mp hlsn) with hin | hnot | hkeeps
            · exact hout hin
            · exact hnot halloc
            · have hfull : (s.file.pages pageNum).isFull := by
                by_contra hroom'
                exact hout (h free hfree pageNum ⟨hpos, halloc, hroom'⟩)
              refine hroom ?_
              change ((s.file.setPage pageNum page).pages pageNum).isFull
              rw [RecordFile.setPage_self]
              exact isFull_redo hfull hkeeps hredo

/-! ## Runs -/

theorem meets_iff (h : s.NothingForgotten) (call : Call) : s.Meets call ↔ s.Harmless call := by
  cases call with
  | init env => exact meets_init_iff h
  | insertRecord env record recordSize => exact meets_insertRecord_iff h
  | deleteRecord env pageNum slotNum => exact iff_of_true (meets_deleteRecord h) trivial
  | replay env pageNum entry => exact meets_replay_iff h

theorem Meets.nothingForgotten {call : Call} (hmeets : s.Meets call)
    (hstep : s.step call = some s') : s'.NothingForgotten := by
  obtain ⟨⟨result, s''⟩, hcall, rfl⟩ := Option.map_eq_some_iff.mp hstep
  exact (hmeets result s'' hcall).1

/-- In every run on a file no page with room is forgotten, and no failing insertion has allocated
one, exactly if no call meets with what it must not. -/
theorem freePages_iff (file : RecordFile) (lsns : Nat → LSN) (calls : List Call) :
    (∀ t ∈ taken step (closed file lsns) calls, t.1.Meets t.2) ↔
      ∀ t ∈ taken step (closed file lsns) calls, t.1.Harmless t.2 := by
  apply forall_taken_iff (I := NothingForgotten)
  · exact fun _ call h => meets_iff h call
  · exact fun _ _ _ _ hmeets hstep => hmeets.nothingForgotten hstep
  · intro free hopen
    cases hopen

/-- Nothing fails. -/
def quiet : FileOutcomes where
  load _ := .ok ()
  frame := .ok ()
  initLog := .ok 1
  recordLog := .ok 1
  first pages := if h : pages.Nonempty then pages.min' h else 0
  first_mem pages h := by
    rw [dif_pos h]
    exact pages.min'_mem h

/-- A file after a crash: page 1 is allocated and was never written. -/
def afterCrash : RecordFile where
  header := ⟨2, 2, fun i => decide (i < 2)⟩
  pages _ := clearedPage

/-- The replay initializes a page that was full when the file was opened. -/
theorem replay_forgets : ¬ ∀ t ∈ taken step (closed afterCrash fun _ => 0)
    [.init quiet, .replay quiet ⟨1, Nat.le_refl 1⟩ ⟨5, .initPage 20000⟩], t.1.Meets t.2 := by
  intro hall
  have hinit : step (closed afterCrash fun _ => 0) (.init quiet) =
      some ⟨afterCrash, fun _ => 0, some ∅⟩ := rfl
  simp only [taken, hinit, List.forall_mem_cons] at hall
  obtain ⟨hfirst, hreplay, -⟩ := hall
  have hharmless := (meets_iff (hfirst.nothingForgotten hinit) _).mp hreplay
  rcases hharmless ∅ rfl rfl (by decide) with hmem | halloc | hkeeps
  · exact absurd hmem (Finset.notMem_empty 1)
  · exact halloc (by decide)
  · exact absurd (show emptyCapacity 20000 = 0 from hkeeps) (by decide)

end RecordFileHandler

end ObHtap
