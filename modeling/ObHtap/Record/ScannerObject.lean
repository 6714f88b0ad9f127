import ObHtap.Common.Bitmap
import ObHtap.Library.LittleEndian
import ObHtap.Library.PartialRun
import ObHtap.Record.RecordFileScanner
import ObHtap.Trx.MvccTrx

/-!
# A scanner that is opened again

One `RecordFileScanner` serves one scan after the other.  `close_scan` deletes the handler of the
page, and the iterator over the page goes on pointing to it; `open_scan` does not look at the
iterator.
-/

namespace ObHtap

open Mvcc (ReadWriteMode)

/-! ## What is scanned -/

/-- A file with the bytes of its bitmap. -/
structure FileBytes where
  pageCount : Nat
  allocatedPages : Int
  bitmap : Nat → UInt8
  pages : Nat → RecordPage

def FileBytes.toRecordFile (file : FileBytes) : RecordFile where
  header := ⟨file.pageCount, file.allocatedPages, Bitmap.getBit file.bitmap⟩
  pages := file.pages

/-- The transaction of a scan, if there is one, with the places of its fields in a record. -/
inductive ScanTrx where
  | none
  | vacuous
  | mvcc (trxId : Int) (beginOffset endOffset : Nat)

/-- `Field::get_int`. -/
def fieldInt (data : List UInt8) (offset : Nat) : Int :=
  (bytesInt32 ((data.drop offset).take 4)).toInt

/-- `Trx::visit_record`. -/
def ScanTrx.visitRecord (mode : ReadWriteMode) (record : StoredRecord) :
    ScanTrx → Except RC Unit
  | .none | .vacuous => .ok ()
  | .mvcc trxId beginOffset endOffset =>
    Mvcc.visitRecord trxId mode
      ⟨fieldInt record.data beginOffset, fieldInt record.data endOffset, record.data⟩

/-- What `open_scan` is given, and how often `next` is called until `close_scan`. -/
structure Scan where
  file : FileBytes
  trx : ScanTrx
  mode : ReadWriteMode
  conditionFilter : Option (StoredRecord → Bool)
  calls : Nat

namespace Scan

def passes (scan : Scan) (record : StoredRecord) : Bool :=
  match scan.conditionFilter with
  | none => true
  | some filter => filter record

/-- What a scan says of a record: nothing if it does not pass the filter or is not visible, and an
error if the transaction may not touch it. -/
def answer (scan : Scan) (record : StoredRecord) : Option (Except RC StoredRecord) :=
  if scan.passes record then
    match scan.trx.visitRecord scan.mode record with
    | .ok () => some (.ok record)
    | .error .recordInvisible => none
    | .error rc => some (.error rc)
  else none

/-- What the calls of `next` are to return before `RECORD_EOF`. -/
def answers (scan : Scan) : List (Except RC StoredRecord) :=
  scan.file.toRecordFile.records.filterMap scan.answer

end Scan

/-! ## The scanner -/

/-- `RecordPageIterator`, with the handler that it points to. -/
structure PageIterator where
  handler : Nat
  pageNum : Nat
  nextSlotNum : Option Nat

/-- The fields of `RecordFileScanner` that change: the handlers are numbered as they are made, and
the one of an open scan is there. -/
structure ScannerObject where
  handlers : Nat
  handler : Option Nat
  iterator : Option PageIterator
  currentPageNum : Nat

namespace ScannerObject

def fresh : ScannerObject := ⟨0, none, none, 0⟩

/-- `close_scan`. -/
def closeScan (s : ScannerObject) : ScannerObject := { s with handler := none }

/-- `open_scan`. -/
def openScan (s : ScannerObject) : ScannerObject :=
  { s with handlers := s.handlers + 1, handler := some s.handlers, currentPageNum := 0 }

/-- The slot in use that comes next in a page, from a slot on. -/
def nextSlot (page : RecordPage) (start : Nat) : Option Nat :=
  Bitmap.nextSettedBit (fun i => page.data (pageHeaderSize + i)) page.header.recordCapacity start

/-- `fetch_next_record_in_page`; `none` where the iterator reads a handler that has been deleted. -/
def fetchNextRecordInPage (scan : Scan) :
    Nat → ScannerObject → PageIterator → Option (Except RC StoredRecord × ScannerObject)
  | 0, s, it => some (.error .recordEof, { s with iterator := some it })
  | rounds + 1, s, it =>
    match it.nextSlotNum with
    | none => some (.error .recordEof, { s with iterator := some it })
    | some slot =>
      if s.handler = some it.handler then
        let page := scan.file.pages it.pageNum
        let it := { it with nextSlotNum := nextSlot page (slot + 1) }
        let record : StoredRecord := ⟨⟨it.pageNum, slot⟩, page.recordData slot⟩
        if scan.passes record then
          match scan.trx.visitRecord scan.mode record with
          | .ok () => some (.ok record, { s with iterator := some it })
          | .error .recordInvisible => fetchNextRecordInPage scan rounds s it
          | .error rc => some (.error rc, { s with iterator := some it })
        else fetchNextRecordInPage scan rounds s it
      else none

/-- The slots of a page, for the rounds of the loop. -/
def rounds (scan : Scan) (it : PageIterator) : Nat :=
  (scan.file.pages it.pageNum).header.recordCapacity + 1

/-- The loop of `fetch_next_record` over the pages that come next. -/
def fetchNextPage (scan : Scan) :
    Nat → ScannerObject → Option (Except RC StoredRecord × ScannerObject)
  | 0, s => some (.error .recordEof, s)
  | pages + 1, s =>
    match Bitmap.nextSettedBit scan.file.bitmap scan.file.pageCount (s.currentPageNum + 1) with
    | none => some (.error .recordEof, s)
    | some pageNum =>
      match s.handler with
      | none => none
      | some handler =>
        let it : PageIterator := ⟨handler, pageNum, nextSlot (scan.file.pages pageNum) 0⟩
        let s := { s with currentPageNum := pageNum }
        match fetchNextRecordInPage scan (rounds scan it) s it with
        | some (.error .recordEof, s) => fetchNextPage scan pages s
        | result => result

/-- `next`. -/
def next (scan : Scan) (s : ScannerObject) : Option (Except RC StoredRecord × ScannerObject) :=
  match s.iterator with
  | none => fetchNextPage scan scan.file.pageCount s
  | some it =>
    match fetchNextRecordInPage scan (rounds scan it) s it with
    | some (.error .recordEof, s) => fetchNextPage scan scan.file.pageCount s
    | result => result

/-- A number of calls of `next`. -/
def nextMany (scan : Scan) : Nat → ScannerObject → Option ScannerObject
  | 0, s => some s
  | n + 1, s => (next scan s).bind fun result => nextMany scan n result.2

/-- A whole scan, closed after the calls. -/
def step (s : ScannerObject) (scan : Scan) : Option ScannerObject :=
  (nextMany scan scan.calls s.openScan).map closeScan

/-- The calls of `next` return the answers and then `RECORD_EOF`. -/
def Gives (scan : Scan) : ScannerObject → List (Except RC StoredRecord) → Prop
  | s, [] => ∃ s', next scan s = some (.error .recordEof, s')
  | s, answer :: answers => ∃ s', next scan s = some (answer, s') ∧ Gives scan s' answers

/-- A scan that is opened now returns what it is to return. -/
def Exact (s : ScannerObject) (scan : Scan) : Prop := Gives scan s.openScan scan.answers

/-- The iterator that earlier scans have left has no slot any more. -/
def Spent (s : ScannerObject) : Prop := ∀ it, s.iterator = some it → it.nextSlotNum = none

/-! ## A page -/

open RecordFileScanner (recordsInPage recordsBehind Ready)

variable {scan : Scan} {s s' : ScannerObject} {it : PageIterator}

/-- No transaction answers with the code that ends a page. -/
theorem visitRecord_ne_eof (trx : ScanTrx) (mode : ReadWriteMode) (record : StoredRecord) :
    trx.visitRecord mode record ≠ .error .recordEof := by
  cases trx with
  | none => simp [ScanTrx.visitRecord]
  | vacuous => simp [ScanTrx.visitRecord]
  | mvcc trxId beginOffset endOffset =>
    unfold ScanTrx.visitRecord Mvcc.visitRecord
    dsimp only
    cases mode <;> split_ifs <;> simp

theorem answer_ne_eof (record : StoredRecord) :
    scan.answer record ≠ some (.error .recordEof) := by
  have hvisit := visitRecord_ne_eof scan.trx scan.mode record
  unfold Scan.answer
  cases scan.passes record with
  | false => simp
  | true =>
    cases htrx : scan.trx.visitRecord scan.mode record with
    | ok _ => simp
    | error rc =>
      rw [htrx] at hvisit
      cases rc <;> simp_all

theorem nextSlot_eq (page : RecordPage) (start : Nat) :
    nextSlot page start = nextSettedBit page.getBit page.header.recordCapacity start :=
  Bitmap.nextSettedBit_eq _ _ _

theorem ready_nextSlot (pageNum start : Nat) : Ready scan.file.toRecordFile pageNum
    (nextSlot (scan.file.pages pageNum) start) :=
  ⟨start, nextSlot_eq _ _⟩

/-- The slot that comes next is the first of those that are left. -/
theorem recordsInPage_some {pageNum slot : Nat}
    (h : Ready scan.file.toRecordFile pageNum (some slot)) :
    recordsInPage scan.file.toRecordFile pageNum (some slot) =
      ⟨⟨pageNum, slot⟩, (scan.file.pages pageNum).recordData slot⟩ ::
        recordsInPage scan.file.toRecordFile pageNum
          (nextSlot (scan.file.pages pageNum) (slot + 1)) := by
  rcases RecordFileScanner.fetchNextRecordInPage_spec h with
    ⟨hnone, -⟩ | ⟨r, next, hsome, -, hrecords⟩
  · cases hnone
  · cases hsome
    rw [nextSlot_eq]
    exact hrecords

theorem fetchNextRecordInPage_some {handler pageNum slot : Nat} (hopen : s.handler = some handler)
    (rounds : Nat) :
    fetchNextRecordInPage scan (rounds + 1) s ⟨handler, pageNum, some slot⟩ =
      match scan.answer ⟨⟨pageNum, slot⟩, (scan.file.pages pageNum).recordData slot⟩ with
      | some answer => some (answer, { s with
          iterator := some ⟨handler, pageNum, nextSlot (scan.file.pages pageNum) (slot + 1)⟩ })
      | none => fetchNextRecordInPage scan rounds s
          ⟨handler, pageNum, nextSlot (scan.file.pages pageNum) (slot + 1)⟩ := by
  rw [fetchNextRecordInPage]
  simp only [hopen, if_true]
  unfold Scan.answer
  set record : StoredRecord := ⟨⟨pageNum, slot⟩, (scan.file.pages pageNum).recordData slot⟩
  cases scan.passes record with
  | false => rfl
  | true =>
    cases scan.trx.visitRecord scan.mode record with
    | ok _ => rfl
    | error rc => cases rc <;> rfl

/-- The rest of a page, by induction on the rounds: the first answer to a record that is left. -/
theorem fetchNextRecordInPage_spec {handler pageNum rounds : Nat} {nextSlotNum : Option Nat}
    (hopen : s.handler = some handler) (hready : Ready scan.file.toRecordFile pageNum nextSlotNum)
    (hrounds : (recordsInPage scan.file.toRecordFile pageNum nextSlotNum).length < rounds) :
    ((recordsInPage scan.file.toRecordFile pageNum nextSlotNum).filterMap scan.answer = [] ∧
      fetchNextRecordInPage scan rounds s ⟨handler, pageNum, nextSlotNum⟩ =
        some (.error .recordEof, { s with iterator := some ⟨handler, pageNum, none⟩ })) ∨
    ∃ answer next, fetchNextRecordInPage scan rounds s ⟨handler, pageNum, nextSlotNum⟩ =
        some (answer, { s with iterator := some ⟨handler, pageNum, next⟩ }) ∧
      answer ≠ .error .recordEof ∧ Ready scan.file.toRecordFile pageNum next ∧
      (recordsInPage scan.file.toRecordFile pageNum nextSlotNum).filterMap scan.answer =
        answer :: (recordsInPage scan.file.toRecordFile pageNum next).filterMap scan.answer := by
  induction rounds generalizing nextSlotNum with
  | zero => exact absurd hrounds (Nat.not_lt_zero _)
  | succ rounds ih =>
    cases nextSlotNum with
    | none => exact Or.inl ⟨rfl, rfl⟩
    | some slot =>
      have hrecords := recordsInPage_some hready
      rw [hrecords, List.length_cons] at hrounds
      have hrest := ih (ready_nextSlot pageNum (slot + 1)) (by omega)
      rw [fetchNextRecordInPage_some hopen, hrecords, List.filterMap_cons]
      cases hanswer : scan.answer
        ⟨⟨pageNum, slot⟩, (scan.file.pages pageNum).recordData slot⟩ with
      | none => exact hrest
      | some answer =>
        refine Or.inr ⟨answer, _, rfl, ?_, ready_nextSlot pageNum (slot + 1), rfl⟩
        intro heof
        exact answer_ne_eof _ (hanswer.trans (congrArg some heof))

theorem length_recordsInPage_lt {pageNum : Nat} (nextSlotNum : Option Nat) {handler : Nat} :
    (recordsInPage scan.file.toRecordFile pageNum nextSlotNum).length <
      rounds scan ⟨handler, pageNum, nextSlotNum⟩ := by
  apply Nat.lt_succ_of_le
  cases nextSlotNum with
  | none => exact Nat.zero_le _
  | some slot =>
    change ((settedFrom _ _ slot).map _).length ≤ _
    rw [List.length_map]
    refine (List.length_filter_le _ _).trans ?_
    rw [List.length_range']
    exact Nat.sub_le _ _

/-! ## The pages -/

/-- An open scan whose iterator has no slot left or is one over the page that has been reached. -/
structure Scanning (scan : Scan) (s : ScannerObject) : Prop where
  opened : ∃ handler, s.handler = some handler
  iterator : ∀ it, s.iterator = some it → it.nextSlotNum = none ∨
    (s.handler = some it.handler ∧ it.pageNum = s.currentPageNum ∧
      Ready scan.file.toRecordFile it.pageNum it.nextSlotNum)

/-- The records that the scan has not come to yet. -/
def recordsLeft (scan : Scan) (s : ScannerObject) : List StoredRecord :=
  (match s.iterator with
    | none => []
    | some it => recordsInPage scan.file.toRecordFile it.pageNum it.nextSlotNum) ++
    recordsBehind scan.file.toRecordFile s.currentPageNum

/-- The first answer to a record of the pages that are left, by induction on their number. -/
theorem fetchNextPage_spec {handler : Nat} (pages : Nat) (hopen : s.handler = some handler)
    (hpages : scan.file.pageCount ≤ pages + s.currentPageNum) :
    ((recordsBehind scan.file.toRecordFile s.currentPageNum).filterMap scan.answer = [] ∧
      ∃ s', fetchNextPage scan pages s = some (.error .recordEof, s')) ∨
    ∃ answer s', fetchNextPage scan pages s = some (answer, s') ∧ answer ≠ .error .recordEof ∧
      Scanning scan s' ∧
      (recordsBehind scan.file.toRecordFile s.currentPageNum).filterMap scan.answer =
        answer :: (recordsLeft scan s').filterMap scan.answer := by
  induction pages generalizing s with
  | zero =>
    refine Or.inl ⟨?_, s, rfl⟩
    have hcount : scan.file.toRecordFile.header.pageCount = scan.file.pageCount := rfl
    rw [recordsBehind, settedFrom, hcount,
      show scan.file.pageCount - (s.currentPageNum + 1) = 0 by omega]
    rfl
  | succ pages ih =>
    obtain ⟨handlers, _, iterator, currentPageNum⟩ := s
    obtain rfl : _ = some handler := hopen
    rw [fetchNextPage, Bitmap.nextSettedBit_eq]
    dsimp only at hpages ⊢
    cases hp : nextSettedBit (Bitmap.getBit scan.file.bitmap) scan.file.pageCount
        (currentPageNum + 1) with
    | none =>
      refine Or.inl ⟨?_, _, rfl⟩
      have hempty : settedFrom scan.file.toRecordFile.header.bitmap
          scan.file.toRecordFile.header.pageCount (currentPageNum + 1) = [] :=
        nextSettedBit_eq_none hp
      rw [recordsBehind, hempty]
      rfl
    | some pageNum =>
      obtain ⟨hle, hlt, hstart, -⟩ := nextSettedBit_eq_some hp
      have hbehind : recordsBehind scan.file.toRecordFile currentPageNum =
          recordsInPage scan.file.toRecordFile pageNum
            (nextSlot (scan.file.pages pageNum) 0) ++
              recordsBehind scan.file.toRecordFile pageNum := by
        have hstart' : settedFrom scan.file.toRecordFile.header.bitmap
            scan.file.toRecordFile.header.pageCount (currentPageNum + 1) = _ := hstart
        rw [recordsBehind, hstart', List.flatMap_cons, nextSlot_eq]
        exact congrArg (· ++ _)
          (@RecordFileScanner.recordsInPage_nextSettedBit scan.file.toRecordFile
            pageNum 0).symm
      rw [hbehind, List.filterMap_append]
      dsimp only
      rcases fetchNextRecordInPage_spec (s := ⟨handlers, some handler, iterator, pageNum⟩) rfl
        (ready_nextSlot pageNum 0) (length_recordsInPage_lt _) with
        ⟨hempty, hfetch⟩ | ⟨answer, next, hfetch, hne, hready, hanswers⟩
      · rw [hfetch, hempty, List.nil_append]
        exact ih (s := ⟨handlers, some handler, some ⟨handler, pageNum, none⟩, pageNum⟩) rfl
          (by dsimp only; omega)
      · rw [hfetch, hanswers, List.cons_append, ← List.filterMap_append]
        refine Or.inr ⟨answer, ⟨handlers, some handler, some ⟨handler, pageNum, next⟩, pageNum⟩, ?_,
          hne, ⟨⟨handler, rfl⟩, ?_⟩, rfl⟩
        · cases answer with
          | ok record => rfl
          | error rc => cases rc <;> first | rfl | exact absurd rfl hne
        · rintro _ ⟨⟩
          exact Or.inr ⟨rfl, rfl, hready⟩

/-! ## A scan -/

theorem next_spec (h : Scanning scan s) :
    ((recordsLeft scan s).filterMap scan.answer = [] ∧
      ∃ s', next scan s = some (.error .recordEof, s')) ∨
    ∃ answer s', next scan s = some (answer, s') ∧ Scanning scan s' ∧
      (recordsLeft scan s).filterMap scan.answer =
        answer :: (recordsLeft scan s').filterMap scan.answer := by
  obtain ⟨⟨handler, hopen⟩, hiterator⟩ := h
  have hpages : ∀ s : ScannerObject, s.handler = some handler →
      ((recordsBehind scan.file.toRecordFile s.currentPageNum).filterMap scan.answer = [] ∧
        ∃ s', fetchNextPage scan scan.file.pageCount s = some (.error .recordEof, s')) ∨
      ∃ answer s', fetchNextPage scan scan.file.pageCount s = some (answer, s') ∧
        Scanning scan s' ∧
        (recordsBehind scan.file.toRecordFile s.currentPageNum).filterMap scan.answer =
          answer :: (recordsLeft scan s').filterMap scan.answer := by
    intro s hopen
    rcases fetchNextPage_spec scan.file.pageCount hopen (Nat.le_add_right _ _) with
      hnone | ⟨answer, s', hfetch, -, hscanning, hanswers⟩
    · exact Or.inl hnone
    · exact Or.inr ⟨answer, s', hfetch, hscanning, hanswers⟩
  obtain ⟨handlers, _, iterator, currentPageNum⟩ := s
  obtain rfl : _ = some handler := hopen
  unfold next recordsLeft
  cases iterator with
  | none =>
    dsimp only
    rw [List.nil_append]
    exact hpages ⟨handlers, some handler, none, currentPageNum⟩ rfl
  | some it =>
    obtain ⟨itHandler, pageNum, nextSlotNum⟩ := it
    rcases hiterator _ rfl with hnone | ⟨hhandler, hpage, hready⟩
    · obtain rfl : nextSlotNum = none := hnone
      exact hpages ⟨handlers, some handler, some ⟨itHandler, pageNum, none⟩, currentPageNum⟩ rfl
    · obtain rfl : handler = itHandler := Option.some.inj hhandler
      obtain rfl : pageNum = currentPageNum := hpage
      dsimp only
      rw [List.filterMap_append]
      rcases fetchNextRecordInPage_spec
        (s := ⟨handlers, some handler, some ⟨handler, pageNum, nextSlotNum⟩, pageNum⟩) rfl hready
        (length_recordsInPage_lt _) with
        ⟨hempty, hfetch⟩ | ⟨answer, next, hfetch, hne, hready', hanswers⟩
      · rw [hfetch, hempty, List.nil_append]
        exact hpages ⟨handlers, some handler, some ⟨handler, pageNum, none⟩, pageNum⟩ rfl
      · rw [hfetch, hanswers, List.cons_append, ← List.filterMap_append]
        refine Or.inr ⟨answer, ⟨handlers, some handler, some ⟨handler, pageNum, next⟩, pageNum⟩, ?_,
          ⟨⟨handler, rfl⟩, ?_⟩, rfl⟩
        · cases answer with
          | ok record => rfl
          | error rc => cases rc <;> first | rfl | exact absurd rfl hne
        · rintro _ ⟨⟩
          exact Or.inr ⟨rfl, rfl, hready'⟩

/-- A scan gives the answers that are left, by induction on their number. -/
theorem gives_recordsLeft (h : Scanning scan s) :
    Gives scan s ((recordsLeft scan s).filterMap scan.answer) := by
  induction hn : (recordsLeft scan s).filterMap scan.answer generalizing s with
  | nil =>
    rcases next_spec h with ⟨-, hnext⟩ | ⟨answer, s', -, -, hanswers⟩
    · exact hnext
    · cases hn.symm.trans hanswers
  | cons answer answers ih =>
    rcases next_spec h with ⟨hempty, -⟩ | ⟨answer', s', hnext, hscanning, hanswers⟩
    · cases hempty.symm.trans hn
    · obtain ⟨rfl, hrest⟩ := List.cons.inj (hn.symm.trans hanswers)
      exact ⟨s', hnext, ih hscanning hrest.symm⟩

/-! ## Scans one after the other -/

/-- The handlers that a scanner knows have been made. -/
structure Numbered (s : ScannerObject) : Prop where
  handler : ∀ handler, s.handler = some handler → handler < s.handlers
  iterator : ∀ it, s.iterator = some it → it.handler < s.handlers

theorem exact_iff (h : Numbered s) : Exact s scan ↔ Spent s := by
  constructor
  · intro hexact
    by_contra hspent
    unfold Spent at hspent
    push Not at hspent
    obtain ⟨⟨handler, pageNum, nextSlotNum⟩, hit, hslot⟩ := hspent
    obtain ⟨slot, rfl⟩ := Option.ne_none_iff_exists'.mp hslot
    have hlt := h.iterator _ hit
    -- the first call reads the handler of an earlier scan
    have hnext : next scan s.openScan = none := by
      have hne : ¬ some s.handlers = some handler := fun heq => by
        have := Option.some.inj heq
        dsimp only at hlt
        omega
      unfold next openScan
      simp only [hit, rounds, fetchNextRecordInPage, if_neg hne]
    unfold Exact at hexact
    cases hanswers : scan.answers with
    | nil =>
      rw [hanswers] at hexact
      obtain ⟨s', hs'⟩ := hexact
      cases hnext.symm.trans hs'
    | cons answer answers =>
      rw [hanswers] at hexact
      obtain ⟨s', hs', -⟩ := hexact
      cases hnext.symm.trans hs'
  · intro hspent
    have hscanning : Scanning scan s.openScan :=
      ⟨⟨s.handlers, rfl⟩, fun it hit => Or.inl (hspent it hit)⟩
    have hleft : recordsLeft scan s.openScan = scan.file.toRecordFile.records := by
      unfold recordsLeft openScan
      cases hit : s.iterator with
      | none => rfl
      | some it =>
        dsimp only
        rw [hspent it hit]
        rfl
    have hgives := gives_recordsLeft hscanning
    rwa [hleft] at hgives

/-- What a call can do to the numbers of the handlers. -/
def Follows (s s' : ScannerObject) : Prop :=
  s'.handlers = s.handlers ∧ s'.handler = s.handler ∧
    ∀ it, s'.iterator = some it → (∃ old, s.iterator = some old ∧ it.handler = old.handler) ∨
      s.handler = some it.handler

theorem Numbered.follows (h : Numbered s) (hfollows : Follows s s') : Numbered s' := by
  obtain ⟨hhandlers, hhandler, hiterator⟩ := hfollows
  constructor
  · intro handler hopen
    rw [hhandlers]
    exact h.handler handler (hhandler.symm.trans hopen)
  · intro it hit
    rw [hhandlers]
    rcases hiterator it hit with ⟨old, hold, heq⟩ | hopen
    · rw [heq]
      exact h.iterator old hold
    · exact h.handler _ hopen

theorem fetchNextRecordInPage_handler {rounds : Nat} {result : Except RC StoredRecord}
    (h : fetchNextRecordInPage scan rounds s it = some (result, s')) :
    ∃ it', s' = { s with iterator := some it' } ∧ it'.handler = it.handler := by
  induction rounds generalizing it with
  | zero =>
    cases h
    exact ⟨it, rfl, rfl⟩
  | succ rounds ih =>
    rw [fetchNextRecordInPage] at h
    cases hslot : it.nextSlotNum with
    | none =>
      rw [hslot] at h
      cases h
      exact ⟨it, rfl, rfl⟩
    | some slot =>
      rw [hslot] at h
      dsimp only at h
      split at h
      · split at h
        · split at h
          · cases h
            exact ⟨_, rfl, rfl⟩
          · obtain ⟨it', hs', heq⟩ := ih h
            exact ⟨it', hs', heq⟩
          · cases h
            exact ⟨_, rfl, rfl⟩
        · obtain ⟨it', hs', heq⟩ := ih h
          exact ⟨it', hs', heq⟩
      · cases h

theorem Follows.trans {s'' : ScannerObject} (h : Follows s s') (h' : Follows s' s'') :
    Follows s s'' := by
  refine ⟨h'.1.trans h.1, h'.2.1.trans h.2.1, fun it hit => ?_⟩
  rcases h'.2.2 it hit with ⟨old, hold, heq⟩ | hopen
  · rcases h.2.2 old hold with ⟨first, hfirst, heq'⟩ | hopen
    · exact Or.inl ⟨first, hfirst, heq.trans heq'⟩
    · exact Or.inr (heq ▸ hopen)
  · exact Or.inr (h.2.1.symm.trans hopen)

theorem fetchNextPage_follows {pages : Nat} {result : Except RC StoredRecord}
    (h : fetchNextPage scan pages s = some (result, s')) : Follows s s' := by
  have hself : Follows s s := ⟨rfl, rfl, fun it hit => Or.inl ⟨it, hit, rfl⟩⟩
  induction pages generalizing s with
  | zero =>
    cases h
    exact hself
  | succ pages ih =>
    rw [fetchNextPage] at h
    split at h
    · cases h
      exact hself
    · split at h
      · cases h
      · rename_i pageNum _ _ handler hopen
        -- the iterator is one of the open handler
        have hpage : ∀ {result : Except RC StoredRecord} {s' : ScannerObject} {rounds : Nat},
            fetchNextRecordInPage scan rounds { s with currentPageNum := pageNum }
              ⟨handler, pageNum, nextSlot (scan.file.pages pageNum) 0⟩ = some (result, s') →
            Follows s s' := by
          intro result s' rounds hfetch
          obtain ⟨it, rfl, heq⟩ := fetchNextRecordInPage_handler hfetch
          refine ⟨rfl, rfl, ?_⟩
          rintro _ ⟨⟩
          exact Or.inr (heq ▸ hopen)
        dsimp only at h
        split at h
        · rename_i s₁ hfetch
          exact (hpage hfetch).trans
            (ih h ⟨rfl, rfl, fun it hit => Or.inl ⟨it, hit, rfl⟩⟩)
        · exact hpage h

theorem next_follows {result : Except RC StoredRecord} (h : next scan s = some (result, s')) :
    Follows s s' := by
  unfold next at h
  cases hit : s.iterator with
  | none =>
    rw [hit] at h
    exact fetchNextPage_follows h
  | some it =>
    rw [hit] at h
    have hpage : ∀ {result : Except RC StoredRecord} {s' : ScannerObject},
        fetchNextRecordInPage scan (rounds scan it) s it = some (result, s') → Follows s s' := by
      intro result s' hfetch
      obtain ⟨it', rfl, heq⟩ := fetchNextRecordInPage_handler hfetch
      refine ⟨rfl, rfl, ?_⟩
      rintro _ ⟨⟩
      exact Or.inl ⟨it, hit, heq⟩
    dsimp only at h
    split at h
    · rename_i s₁ hfetch
      exact (hpage hfetch).trans (fetchNextPage_follows h)
    · exact hpage h

theorem Numbered.nextMany {n : Nat} (h : Numbered s) (hnext : nextMany scan n s = some s') :
    Numbered s' := by
  induction n generalizing s with
  | zero =>
    cases hnext
    exact h
  | succ n ih =>
    obtain ⟨⟨result, s₁⟩, hcall, hrest⟩ := Option.bind_eq_some_iff.mp hnext
    exact ih (h.follows (next_follows hcall)) hrest

theorem Numbered.step (h : Numbered s) (hstep : step s scan = some s') : Numbered s' := by
  obtain ⟨s₁, hmany, rfl⟩ := Option.map_eq_some_iff.mp hstep
  have hopen : Numbered s.openScan := by
    constructor
    · intro handler heq
      cases heq
      exact Nat.lt_succ_self _
    · exact fun it hit => Nat.lt_succ_of_lt (h.iterator it hit)
  have hclosed := hopen.nextMany hmany
  constructor
  · intro handler heq
    cases heq
  · exact hclosed.iterator

theorem numbered_fresh : Numbered fresh := by
  constructor
  · intro handler h
    cases h
  · intro it h
    cases h

/-- Of scans one after the other with one scanner, all are exact exactly if none is opened while
the iterator of an earlier one has a slot left. -/
theorem scansExactly_iff (scans : List Scan) :
    (∀ t ∈ taken step fresh scans, Exact t.1 t.2) ↔ ∀ t ∈ taken step fresh scans, Spent t.1 :=
  forall_taken_iff (P := Exact) (C := fun s _ => Spent s) (fun _ _ h => exact_iff h)
    (fun _ _ _ h _ hstep => h.step hstep) numbered_fresh scans

/-- A file with one page of two records of four bytes. -/
def twoRecords : FileBytes where
  pageCount := 2
  allocatedPages := 2
  bitmap := fun _ => 3
  pages := fun _ => ⟨⟨2, 0, 4, 8, 10, 32, 32⟩, fun i => if i = pageHeaderSize then 3 else 0⟩

/-- A scan is closed after one of two records and opened again. -/
theorem scan_after_partial_scan : ¬ ∀ t ∈ taken step fresh
    [⟨twoRecords, .none, .readOnly, none, 1⟩, ⟨twoRecords, .none, .readOnly, none, 0⟩],
      Exact t.1 t.2 := by
  intro hall
  have hstep : step fresh ⟨twoRecords, .none, .readOnly, none, 1⟩ =
      some ⟨1, none, some ⟨0, 1, some 1⟩, 1⟩ := rfl
  simp only [taken, hstep, List.forall_mem_cons] at hall
  have hspent := (exact_iff (numbered_fresh.step hstep)).mp hall.2.1
  cases hspent _ rfl

end ScannerObject

end ObHtap
