import ObHtap.Buffer.FileHeader
import ObHtap.Common.RC
import Mathlib.Algebra.GroupWithZero.Nat

/-!
# Text files

A value of a column of type `TEXTS` or `HIGH_VECTORS` lies on a chain of pages of a file of its
own, and the record has the number of the first page (`text_manager.cpp`).  The buffer pool keeps
the pages: requests within the file are served.
-/

namespace ObHtap

/-- The `TextDataHeader` of a page with the bytes behind it that count. -/
structure TextPage where
  valid : Bool
  nextPageNum : Int
  data : List UInt8
  deriving DecidableEq

/-- A text file.  Page 0 has the header. -/
structure TextFile where
  header : BPFileHeader
  pages : Nat → TextPage

namespace TextFile

/-- `MAX_TEXT_DATA_SIZE_EACH_PAGE`. -/
def maxTextDataSizeEachPage : Nat := bpPageDataSize - 12

/-- A new file. -/
def create : TextFile := ⟨⟨1, 1, fun i => i = 0⟩, fun _ => ⟨false, 0, []⟩⟩

def setPage (file : TextFile) (pageNum : Nat) (page : TextPage) : TextFile :=
  { file with pages := fun i => if i = pageNum then page else file.pages i }

theorem setPage_self {file : TextFile} {pageNum : Nat} {page : TextPage} :
    (file.setPage pageNum page).pages pageNum = page := if_pos rfl

theorem setPage_ne {file : TextFile} {pageNum i : Nat} {page : TextPage} (h : i ≠ pageNum) :
    (file.setPage pageNum page).pages i = file.pages i := if_neg h

/-- The header read as a page of a text.  `valid` is where the id of the buffer pool is, which is
not 0, and `next_page_num` and `length` are `page_count` and `allocated_pages`. -/
def headerPage (hdr : BPFileHeader) : TextPage where
  valid := true
  nextPageNum := hdr.pageCount
  data := (List.range hdr.allocatedPages.toNat).map fun byte =>
    UInt8.ofNat ((List.range 8).map fun bit => (hdr.bitmap (8 * byte + bit)).toNat * 2 ^ bit).sum

/-- `DiskBufferPool::get_this_page`: a page within the file, allocated or not. -/
def getThisPage (file : TextFile) (pageNum : Int) : Except RC TextPage :=
  if pageNum < 0 then .error .ioerrSeek
  else if file.header.pageCount ≤ pageNum.toNat then .error .ioerrRead
  else .ok (if pageNum = 0 then headerPage file.header else file.pages pageNum.toNat)

/-- `DiskBufferPool::allocate_page`.  A page that is used again keeps what is on it. -/
def allocatePage (file : TextFile) : Except RC (Nat × TextFile) :=
  if file.header.freePage = none ∧ BPFileHeader.maxPageNum ≤ file.header.pageCount then
    .error .nobuf
  else .ok (file.header.allocate.1, { file with header := file.header.allocate.2 })

/-- The frame of a page is freed with what is in it, and from then on the page has what the disk
has. -/
def dispose (file : TextFile) (stored : Nat → TextPage) (pageNum : Nat) : TextFile :=
  { file.setPage pageNum (stored pageNum) with header := file.header.dispose pageNum }

/-- `DiskBufferPool::dispose_page`. -/
def disposePage (file : TextFile) (stored : Nat → TextPage) (pageNum : Nat) : Except RC TextFile :=
  if pageNum = 0 then .error .internal
  else .ok (file.dispose stored pageNum)

/-- `get_text`, in so many rounds at most. -/
def getText (file : TextFile) : Nat → Int → Option (Except RC (List UInt8))
  | 0, _ => none
  | rounds + 1, pageNum =>
    match file.getThisPage pageNum with
    | .error rc => some (.error rc)
    | .ok page =>
      if page.valid = false then some (.error .error)
      else if page.nextPageNum = -1 then some (.ok page.data)
      else (getText file rounds page.nextPageNum).map (Except.map (page.data ++ ·))

/-- The loop of `write_text` after a first page: each further page is linked to the one before.
It ends without the rest of the text when there is no page for it; the return code of that is
replaced by those of the flushes, which succeed. -/
def writeNext : Nat → TextFile → Nat → List UInt8 → TextFile
  | 0, file, _, _ => file
  | rounds + 1, file, prev, text =>
    if text = [] then file
    else
      match file.allocatePage with
      | .error _ => file
      | .ok (cur, file₁) =>
        let file₂ := file₁.setPage cur ⟨true, -1, text.take maxTextDataSizeEachPage⟩
        let file₃ := file₂.setPage prev { file₂.pages prev with nextPageNum := cur }
        writeNext rounds file₃ cur (text.drop maxTextDataSizeEachPage)

/-- `write_text`, with the number of the first page.  No page is written for no text. -/
def writeText (file : TextFile) (text : List UInt8) : Except RC Unit × TextFile × Int :=
  if text = [] then (.ok (), file, -1)
  else
    match file.allocatePage with
    | .error rc => (.error rc, file, -1)
    | .ok (first, file₁) =>
      (.ok (), writeNext text.length
        (file₁.setPage first ⟨true, -1, text.take maxTextDataSizeEachPage⟩) first
        (text.drop maxTextDataSizeEachPage), first)

/-- The pages that the loop of `delete_text` comes across, in so many rounds at most.  It stops
where a page cannot be read. -/
def collect (file : TextFile) : Nat → Int → Option (Except RC (List Nat))
  | 0, _ => none
  | rounds + 1, pageNum =>
    match file.getThisPage pageNum with
    | .error _ => some (.ok [])
    | .ok page =>
      if page.valid = false then some (.error .error)
      else if page.nextPageNum = -1 then some (.ok [pageNum.toNat])
      else (collect file rounds page.nextPageNum).map (Except.map (pageNum.toNat :: ·))

/-- The end of `delete_text`, which disposes of the pages. -/
def disposePages (stored : Nat → TextPage) : TextFile → List Nat → Except RC Unit × TextFile
  | file, [] => (.ok (), file)
  | file, pageNum :: rest =>
    match file.disposePage stored pageNum with
    | .error rc => (.error rc, file)
    | .ok file' => disposePages stored file' rest

/-- `delete_text` of a text that nobody is reading.  A chain without a cycle has no more pages than
the file; on a cycle the process ends. -/
def deleteText (file : TextFile) (stored : Nat → TextPage) (pageNum : Int) :
    Option (Except RC Unit × TextFile) :=
  match file.getThisPage pageNum with
  | .error rc => some (.error rc, file)
  | .ok _ =>
    match file.collect file.header.pageCount pageNum with
    | none => none
    | some (.error rc) => some (.error rc, file)
    | some (.ok pages) => some (file.disposePages stored pages)

/-- `update_text`: the old text is deleted first.  Without success there is no page number. -/
def updateText (file : TextFile) (stored : Nat → TextPage) (inPage : Int) (text : List UInt8) :
    Option (Except RC Int × TextFile) :=
  match file.deleteText stored inPage with
  | none => none
  | some (.error rc, file') => some (.error rc, file')
  | some (.ok (), file') =>
    match file'.writeText text with
    | (.error rc, file'', _) => some (.error rc, file'')
    | (.ok (), file'', outPage) => some (.ok outPage, file'')

/-! ## Chains -/

/-- The text lies on a chain of allocated pages. -/
inductive Chain (file : TextFile) : Int → List UInt8 → Prop
  | last {p : Nat} {data} : p ≠ 0 → file.header.Allocated p → file.pages p = ⟨true, -1, data⟩ →
      Chain file p data
  | cons {p q : Nat} {data rest} : p ≠ 0 → file.header.Allocated p →
      file.pages p = ⟨true, q, data⟩ → Chain file q rest → Chain file p (data ++ rest)

variable {file file' : TextFile} {p : Nat} {text data : List UInt8}

theorem getThisPage_of_allocated (hne : p ≠ 0) (h : file.header.Allocated p) :
    file.getThisPage p = .ok (file.pages p) := by
  have hint : (p : Int) ≠ 0 := by omega
  rw [getThisPage, if_neg (Int.not_lt.mpr (Int.natCast_nonneg p)), Int.toNat_natCast,
    if_neg (Nat.not_le.mpr h.1), if_neg hint]

theorem Chain.allocated {pageNum : Int} (h : Chain file pageNum text) :
    file.header.Allocated pageNum.toNat := by
  cases h with
  | last _ halloc | cons _ halloc => exact halloc

/-- A text is read from its chain, by induction on the chain. -/
theorem Chain.getText {pageNum : Int} (h : Chain file pageNum text) :
    ∃ rounds, file.getText rounds pageNum = some (.ok text) := by
  induction h with
  | last hne halloc hpage =>
    refine ⟨1, ?_⟩
    simp only [TextFile.getText, getThisPage_of_allocated hne halloc, hpage]
    rfl
  | @cons p q data rest hne halloc hpage _ ih =>
    obtain ⟨rounds, hrest⟩ := ih
    refine ⟨rounds + 1, ?_⟩
    have hq : (q : Int) ≠ -1 := by omega
    simp only [TextFile.getText, getThisPage_of_allocated hne halloc, hpage, hrest, if_neg hq]
    rfl

/-- The pages allocated in a file are allocated in the other, with the same content. -/
def Keeps (file file' : TextFile) (P : Nat → Prop) : Prop :=
  ∀ p, file.header.Allocated p → P p → file'.header.Allocated p ∧ file'.pages p = file.pages p

theorem Chain.keeps {pageNum : Int} (h : Chain file pageNum text)
    (hkeeps : Keeps file file' fun _ => True) : Chain file' pageNum text := by
  induction h with
  | last hne halloc hpage =>
    obtain ⟨halloc', hpage'⟩ := hkeeps _ halloc trivial
    exact .last hne halloc' (hpage'.trans hpage)
  | cons hne halloc hpage _ ih =>
    obtain ⟨halloc', hpage'⟩ := hkeeps _ halloc trivial
    exact .cons hne halloc' (hpage'.trans hpage) ih

/-! ## Writing a text -/

/-- The pages that a text takes. -/
def textPages (text : List UInt8) : Nat :=
  (text.length + maxTextDataSizeEachPage - 1) / maxTextDataSizeEachPage

/-- A text of two pages. -/
def longText : List UInt8 :=
  List.replicate 40000 7

theorem length_longText : longText.length = 40000 :=
  List.length_replicate

theorem textPages_longText : textPages longText = 2 := by
  rw [textPages, length_longText]
  decide

/-- `allocate_page` hands out so many pages. -/
def hasRoom : Nat → TextFile → Bool
  | 0, _ => true
  | n + 1, file =>
    match file.allocatePage with
    | .error _ => false
    | .ok (_, file') => hasRoom n file'

theorem textPages_drop (h : text ≠ []) :
    textPages text = textPages (text.drop maxTextDataSizeEachPage) + 1 := by
  have hpos := List.length_pos_iff.mpr h
  simp only [textPages, List.length_drop, maxTextDataSizeEachPage, bpPageDataSize]
  omega

theorem allocatePage_ok (h : file.allocatePage = .ok (p, file')) :
    ¬file.header.Allocated p ∧ file'.pages = file.pages ∧
      ∀ q, file'.header.Allocated q ↔ file.header.Allocated q ∨ q = p := by
  rw [allocatePage] at h
  split at h
  · cases h
  · cases h
    exact ⟨file.header.not_allocated_allocate, rfl, fun q => BPFileHeader.allocated_allocate⟩

/-- Only the header counts for the pages that are handed out. -/
theorem hasRoom_congr {n : Nat} (h : file'.header = file.header) :
    hasRoom n file' = hasRoom n file := by
  induction n generalizing file file' with
  | zero => rfl
  | succ n ih =>
    rw [hasRoom, hasRoom, allocatePage, allocatePage, h]
    split_ifs
    · rfl
    · exact ih rfl

/-- The text is linked behind a page, and the pages that were allocated before are as they were,
by induction on the rounds. -/
theorem writeNext_spec {rounds : Nat} {prev : Nat} (hzero : file.header.Allocated 0)
    (hne : prev ≠ 0) (halloc : file.header.Allocated prev)
    (hprev : file.pages prev = ⟨true, -1, data⟩) (hrounds : text.length ≤ rounds) :
    Keeps file (writeNext rounds file prev text) (· ≠ prev) ∧
      (hasRoom (textPages text) file = true →
        Chain (writeNext rounds file prev text) prev (data ++ text)) := by
  induction rounds generalizing file prev text data with
  | zero =>
    obtain rfl : text = [] := List.eq_nil_of_length_eq_zero (Nat.le_zero.mp hrounds)
    refine ⟨fun p hp _ => ⟨hp, rfl⟩, fun _ => ?_⟩
    rw [List.append_nil]
    exact .last hne halloc hprev
  | succ rounds ih =>
    rw [writeNext]
    by_cases htext : text = []
    · rw [if_pos htext, htext, List.append_nil]
      exact ⟨fun p hp _ => ⟨hp, rfl⟩, fun _ => .last hne halloc hprev⟩
    · rw [if_neg htext, textPages_drop htext, hasRoom]
      cases halloc₁ : file.allocatePage with
      | error rc => exact ⟨fun p hp _ => ⟨hp, rfl⟩, fun h => by cases h⟩
      | ok r =>
        obtain ⟨cur, file₁⟩ := r
        obtain ⟨hnew, hpages, hallocated⟩ := allocatePage_ok halloc₁
        have hcurPrev : cur ≠ prev := fun heq => hnew (heq ▸ halloc)
        have hcurZero : cur ≠ 0 := fun heq => hnew (heq ▸ hzero)
        -- the new page is linked to, and the rest is linked behind it
        dsimp only
        set chunk := text.take maxTextDataSizeEachPage
        set file₂ := file₁.setPage cur ⟨true, -1, chunk⟩ with hfile₂
        set file₃ := file₂.setPage prev { file₂.pages prev with nextPageNum := cur } with hfile₃
        have hcur : file₃.pages cur = ⟨true, -1, chunk⟩ := by
          rw [hfile₃, setPage_ne hcurPrev, hfile₂, setPage_self]
        have hprev₃ : file₃.pages prev = ⟨true, cur, data⟩ := by
          rw [hfile₃, setPage_self, hfile₂, setPage_ne hcurPrev.symm, hpages, hprev]
        have hother : ∀ q, q ≠ prev → q ≠ cur → file₃.pages q = file.pages q := by
          intro q hq hq'
          rw [hfile₃, setPage_ne hq, hfile₂, setPage_ne hq', hpages]
        have hlength : (text.drop maxTextDataSizeEachPage).length ≤ rounds := by
          have hpos : 0 < maxTextDataSizeEachPage := by decide
          have := List.length_pos_iff.mpr htext
          rw [List.length_drop]
          omega
        have hcurAlloc : file₃.header.Allocated cur := (hallocated cur).mpr (Or.inr rfl)
        have hzero₃ : file₃.header.Allocated 0 := (hallocated 0).mpr (Or.inl hzero)
        have hroom : hasRoom (textPages (text.drop maxTextDataSizeEachPage)) file₃ =
            hasRoom (textPages (text.drop maxTextDataSizeEachPage)) file₁ := hasRoom_congr rfl
        obtain ⟨hkeeps, hchain⟩ := ih hzero₃ hcurZero hcurAlloc hcur hlength
        have hkept : ∀ q, file.header.Allocated q → q ≠ cur := fun q hq heq => hnew (heq ▸ hq)
        obtain ⟨hprev', hpage'⟩ :=
          hkeeps prev ((hallocated prev).mpr (Or.inl halloc)) hcurPrev.symm
        constructor
        · intro q hq hqprev
          obtain ⟨hq', hpage⟩ := hkeeps q ((hallocated q).mpr (Or.inl hq)) (hkept q hq)
          exact ⟨hq', hpage.trans (hother q hqprev (hkept q hq))⟩
        · intro hok
          have htail := hchain (hroom.trans hok)
          rw [List.take_append_drop] at htail
          exact .cons hne hprev' (hpage'.trans hprev₃) htail

/-- `write_text` keeps all pages that were allocated before.  A text that is not empty and has
room, or the first page of which has none, lies on a chain when it has been written. -/
theorem writeText_spec (hzero : file.header.Allocated 0) (text : List UInt8) :
    Keeps file (file.writeText text).2.1 (fun _ => True) ∧
      (text ≠ [] → (hasRoom 1 file = true → hasRoom (textPages text) file = true) →
        (file.writeText text).1 = .ok () →
        Chain (file.writeText text).2.1 (file.writeText text).2.2 text) := by
  rw [writeText]
  by_cases htext : text = []
  · rw [if_pos htext]
    exact ⟨fun p hp _ => ⟨hp, rfl⟩, fun hne => absurd htext hne⟩
  · rw [if_neg htext, textPages_drop htext, hasRoom, hasRoom]
    cases halloc : file.allocatePage with
    | error rc => exact ⟨fun p hp _ => ⟨hp, rfl⟩, fun _ _ h => by cases h⟩
    | ok r =>
      obtain ⟨first, file₁⟩ := r
      obtain ⟨hnew, hpages, hallocated⟩ := allocatePage_ok halloc
      have hlength : (text.drop maxTextDataSizeEachPage).length ≤ text.length := by
        rw [List.length_drop]
        exact Nat.sub_le _ _
      have hfirstZero : first ≠ 0 := fun heq => hnew (heq ▸ hzero)
      set file₂ := file₁.setPage first ⟨true, -1, text.take maxTextDataSizeEachPage⟩
      have hfirst : file₂.header.Allocated first := (hallocated first).mpr (Or.inr rfl)
      have hzero₂ : file₂.header.Allocated 0 := (hallocated 0).mpr (Or.inl hzero)
      have hroom : hasRoom (textPages (text.drop maxTextDataSizeEachPage)) file₂ =
          hasRoom (textPages (text.drop maxTextDataSizeEachPage)) file₁ := hasRoom_congr rfl
      obtain ⟨hkeeps, hchain⟩ := writeNext_spec hzero₂ hfirstZero hfirst setPage_self hlength
      constructor
      · intro q hq _
        have hne : q ≠ first := fun heq => hnew (heq ▸ hq)
        obtain ⟨hq', hpage⟩ := hkeeps q ((hallocated q).mpr (Or.inl hq)) hne
        exact ⟨hq', hpage.trans (by rw [setPage_ne hne, hpages])⟩
      · intro _ hok _
        have htail := hchain (hroom.trans (hok rfl))
        rw [List.take_append_drop] at htail
        exact htail

end TextFile

end ObHtap
