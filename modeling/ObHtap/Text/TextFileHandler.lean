import ObHtap.Library.LinkedList
import ObHtap.Text.TextFile

/-!
# The handler of a text file

`TextFileHandler` (`text_manager.cpp`) with the pins that it takes and with what can fail in the
buffer pool below it.  Where nothing fails, a text is written as in a `TextFile`.
-/

namespace ObHtap

/-- What the buffer pool answers during a call: whether a page of the file can be read, for a
caller and for `allocate_page`; whether there is a frame for the page that a file grows by; the
pins of others; and what the disk has of a page.  The pool has pinned the header. -/
structure PoolOutcomes where
  load : Nat → Except RC Unit
  reload : Nat → Except RC Unit
  frame : Nat → Except RC Unit
  readers : Nat → Nat
  stored : Nat → TextPage
  header_pinned : 0 < readers 0

/-- Nothing fails, nobody has pinned a page of a text, and none has been flushed. -/
def PoolOutcomes.quiet : PoolOutcomes where
  load _ := .ok ()
  reload _ := .ok ()
  frame _ := .ok ()
  readers p := if p = 0 then 1 else 0
  stored _ := ⟨false, 0, []⟩
  header_pinned := by decide

/-- A text file with the pins that the handler has on its pages. -/
structure TextFileHandler where
  file : TextFile
  pins : Nat → Nat

namespace TextFileHandler

/-- A new file. -/
def new : TextFileHandler := ⟨TextFile.create, fun _ => 0⟩

variable (env : PoolOutcomes)

def pin (s : TextFileHandler) (pageNum : Nat) : TextFileHandler :=
  { s with pins := Function.update s.pins pageNum (s.pins pageNum + 1) }

def unpin (s : TextFileHandler) (pageNum : Nat) : TextFileHandler :=
  { s with pins := Function.update s.pins pageNum (s.pins pageNum - 1) }

/-- `Frame::pin_count`. -/
def pinCount (s : TextFileHandler) (pageNum : Nat) : Nat :=
  s.pins pageNum + env.readers pageNum

/-- `DiskBufferPool::get_this_page`, before the page is pinned. -/
def getThisPage (file : TextFile) (pageNum : Int) : Except RC TextPage := do
  let page ← file.getThisPage pageNum
  env.load pageNum.toNat
  return page

/-! ## `write_text` -/

/-- `DiskBufferPool::allocate_page`.  A page that is to be used again stays allocated when it can't
be read.  What is on the page will be overwritten. -/
def allocatePage (file : TextFile) : Except RC Nat × TextFile :=
  match file.header.freePage with
  | some i =>
    match env.reload i with
    | .ok () => (.ok i, { file with header := file.header.reuse i })
    | .error rc => (.error rc, { file with header := file.header.reuse i })
  | none =>
    if BPFileHeader.maxPageNum ≤ file.header.pageCount then (.error .nobuf, file)
    else
      match env.frame file.header.pageCount with
      | .ok () => (.ok file.header.pageCount, { file with header := file.header.extend })
      | .error rc => (.error rc, file)

/-- A page is written, and the one before it is linked to it. -/
def writePage (file : TextFile) (prev : Option Nat) (cur : Nat) (data : List UInt8) : TextFile :=
  let file := file.setPage cur ⟨true, -1, data⟩
  match prev with
  | none => file
  | some prev => file.setPage prev { file.pages prev with nextPageNum := cur }

/-- The loop of `write_text`, in so many rounds at most: its return code and the pages that it has
written. -/
def writePages : Nat → TextFile → Option Nat → List UInt8 →
    Except RC Unit × List Nat × TextFile
  | 0, file, _, _ => (.ok (), [], file)
  | rounds + 1, file, prev, text =>
    if text = [] then (.ok (), [], file)
    else
      match allocatePage env file with
      | (.error rc, file) => (.error rc, [], file)
      | (.ok cur, file) =>
        let file := writePage file prev cur (text.take TextFile.maxTextDataSizeEachPage)
        let (rc, frames, file) :=
          writePages rounds file (some cur) (text.drop TextFile.maxTextDataSizeEachPage)
        (rc, cur :: frames, file)

/-- `write_text`.  The flush of a page succeeds without doing anything, and what it returns
replaces the return code of the loop; then the pages are unpinned. -/
def writeText (s : TextFileHandler) (text : List UInt8) : Except RC Int × TextFileHandler :=
  let (rc, frames, file) := writePages env text.length s.file none text
  let s := frames.foldl pin { s with file }
  match frames, rc with
  | [], .error rc => (.error rc, s)
  | [], .ok () => (.ok (-1), s)
  | first :: rest, _ => (.ok first, (first :: rest).foldl unpin s)

/-! ## `delete_text` -/

/-- The loop of `delete_text` from a page that has been pinned, in so many rounds at most: the
pages that it has pinned, unless it has come across an invalid one.  A page that can't be read ends
the loop; its return code will be replaced.  A page that is pinned by others ends the process. -/
def collect : Nat → Nat → TextPage → TextFileHandler →
    Option (Except RC (List Nat) × TextFileHandler)
  | 0, _, _, _ => none
  | rounds + 1, pageNum, page, s =>
    if page.valid = false then some (.error .error, s)
    else if s.pinCount env pageNum ≠ 1 then none
    else if page.nextPageNum = -1 then some (.ok [pageNum], s)
    else
      match getThisPage env s.file page.nextPageNum with
      | .error _ => some (.ok [pageNum], s)
      | .ok next =>
        match collect rounds page.nextPageNum.toNat next (s.pin page.nextPageNum.toNat) with
        | some (.ok frames, s) => some (.ok (pageNum :: frames), s)
        | other => other

/-- The end of `delete_text`, with `DiskBufferPool::dispose_page`: a frame that is still pinned
can't be freed. -/
def disposePages : List Nat → TextFileHandler → Option (Except RC Unit × TextFileHandler)
  | [], s => some (.ok (), s)
  | pageNum :: rest, s =>
    let s := s.unpin pageNum
    if pageNum = 0 then some (.error .internal, s)
    else if s.pinCount env pageNum ≠ 0 then none
    else disposePages rest { s with file := s.file.dispose env.stored pageNum }

/-- `delete_text`. -/
def deleteText (s : TextFileHandler) (pageNum : Int) : Option (Except RC Unit × TextFileHandler) :=
  match getThisPage env s.file pageNum with
  | .error rc => some (.error rc, s)
  | .ok page =>
    let s := s.pin pageNum.toNat
    if 1 < s.pinCount env pageNum.toNat then some (.error .error, s.unpin pageNum.toNat)
    else
      match collect env s.file.header.pageCount pageNum.toNat page s with
      | none => none
      | some (.error rc, s) => some (.error rc, s)
      | some (.ok frames, s) => disposePages env frames s

/-- `update_text`. -/
def updateText (s : TextFileHandler) (inPage : Int) (text : List UInt8) :
    Option (Except RC Int × TextFileHandler) :=
  match s.deleteText env inPage with
  | none => none
  | some (.error rc, s) => some (.error rc, s)
  | some (.ok (), s) => some (s.writeText env text)

/-! ## The pages of a text -/

/-- The page that a page leads to. -/
def nextPage (file : TextFile) (pageNum : Nat) : Option Nat :=
  if (file.pages pageNum).nextPageNum = -1 then none
  else some (file.pages pageNum).nextPageNum.toNat

/-- A page that a text can be on. -/
structure IsTextPage (file : TextFile) (pageNum : Nat) : Prop where
  ne_zero : pageNum ≠ 0
  allocated : file.header.Allocated pageNum
  valid : (file.pages pageNum).valid = true
  next : -1 ≤ (file.pages pageNum).nextPageNum

/-- The text is on these pages, one linked to the other. -/
structure OnPages (file : TextFile) (pages : List Nat) (text : List UInt8) : Prop where
  links : Links (nextPage file) pages
  areText : ∀ p ∈ pages, IsTextPage file p
  text : (pages.flatMap fun p => (file.pages p).data) = text

/-- So many pages can be allocated one after the other. -/
def hasRoom : Nat → TextFile → Bool
  | 0, _ => true
  | n + 1, file =>
    match allocatePage env file with
    | (.ok _, file) => hasRoom n file
    | (.error _, _) => false

/-- One of so many allocations takes a page and fails. -/
def losesPage : Nat → TextFile → Bool
  | 0, _ => false
  | n + 1, file =>
    match allocatePage env file with
    | (.ok _, file) => losesPage n file
    | (.error _, _) => file.header.freePage.isSome

variable {env} {file file' : TextFile} {p q prev cur : Nat} {text data : List UInt8} {rc : RC}
  {pages frames : List Nat}

theorem OnPages.congr (h : OnPages file pages text)
    (hkept : ∀ p ∈ pages, file'.header.Allocated p ∧ file'.pages p = file.pages p) :
    OnPages file' pages text where
  links := h.links.congr fun p hp => by
    unfold nextPage
    rw [(hkept p hp).2]
  areText p hp := by
    have hpage := h.areText p hp
    obtain ⟨halloc, hsame⟩ := hkept p hp
    exact ⟨hpage.ne_zero, halloc, hsame ▸ hpage.valid, hsame ▸ hpage.next⟩
  text := by
    rw [← h.text]
    exact List.flatMap_congr fun p hp => by rw [(hkept p hp).2]

theorem OnPages.last (h : OnPages file [p] text) : (file.pages p).nextPageNum = -1 := by
  have hlast : nextPage file p = none := h.links
  by_contra hne
  rw [nextPage, if_neg hne] at hlast
  cases hlast

theorem OnPages.next (h : OnPages file (p :: q :: pages) text) :
    (file.pages p).nextPageNum = (q : Int) := by
  have hlink : nextPage file p = some q := h.links.1
  have hge := (h.areText p List.mem_cons_self).next
  rw [nextPage] at hlink
  split at hlink
  · cases hlink
  · have hq := Option.some.inj hlink
    omega

theorem OnPages.tail (h : OnPages file (p :: q :: pages) text) :
    OnPages file (q :: pages) ((q :: pages).flatMap fun r => (file.pages r).data) :=
  ⟨h.links.2, fun r hr => h.areText r (List.mem_cons_of_mem _ hr), rfl⟩

/-- A text on pages is on a chain, and is read from it. -/
theorem OnPages.chain (h : OnPages file (p :: pages) text) : TextFile.Chain file p text := by
  have hpage := h.areText p List.mem_cons_self
  induction pages generalizing p text with
  | nil =>
    have htext := h.text
    rw [List.flatMap_cons, List.flatMap_nil, List.append_nil] at htext
    refine .last hpage.ne_zero hpage.allocated ?_
    rw [← hpage.valid, ← h.last, ← htext]
  | cons q pages ih =>
    rw [← h.text, List.flatMap_cons]
    refine .cons hpage.ne_zero hpage.allocated ?_ (ih h.tail (h.tail.areText q List.mem_cons_self))
    rw [← hpage.valid, ← h.next]

/-! ## What `write_text` does -/

theorem allocatePage_ok (h : allocatePage env file = (.ok p, file')) :
    ¬ file.header.Allocated p ∧ file'.pages = file.pages ∧
      ∀ q, file'.header.Allocated q ↔ file.header.Allocated q ∨ q = p := by
  unfold allocatePage at h
  cases hfree : file.header.freePage with
  | some i =>
    simp only [hfree] at h
    split at h
    · cases h
      refine ⟨?_, rfl, fun q => BPFileHeader.allocated_reuse hfree⟩
      rintro ⟨-, hbit⟩
      rw [(BPFileHeader.freePage_eq_some hfree).2] at hbit
      cases hbit
    · cases h
  | none =>
    simp only [hfree] at h
    split at h
    · cases h
    · split at h
      · cases h
        exact ⟨fun halloc => absurd halloc.1 (Nat.lt_irrefl _), rfl,
          fun q => BPFileHeader.allocated_extend hfree⟩
      · cases h

/-- An allocation that fails leaves the file as it is, or takes a page. -/
theorem allocatePage_error (h : allocatePage env file = (.error rc, file')) :
    file'.pages = file.pages ∧
      if file.header.freePage.isSome then
        ∃ i, ¬ file.header.Allocated i ∧
          ∀ q, file'.header.Allocated q ↔ file.header.Allocated q ∨ q = i
      else file' = file := by
  unfold allocatePage at h
  cases hfree : file.header.freePage with
  | some i =>
    simp only [hfree] at h
    split at h
    · cases h
    · cases h
      refine ⟨rfl, i, ?_, fun q => BPFileHeader.allocated_reuse hfree⟩
      rintro ⟨-, hbit⟩
      rw [(BPFileHeader.freePage_eq_some hfree).2] at hbit
      cases hbit
  | none =>
    simp only [hfree] at h
    split at h
    · cases h
      exact ⟨rfl, rfl⟩
    · split at h
      · cases h
      · cases h
        exact ⟨rfl, rfl⟩

/-- Only the header counts for an allocation. -/
theorem allocatePage_congr (h : file'.header = file.header) :
    (allocatePage env file').1 = (allocatePage env file).1 ∧
      (allocatePage env file').2.header = (allocatePage env file).2.header := by
  unfold allocatePage
  rw [h]
  split
  · split <;> exact ⟨rfl, rfl⟩
  · split
    · exact ⟨rfl, h⟩
    · split
      · exact ⟨rfl, rfl⟩
      · exact ⟨rfl, h⟩

theorem hasRoom_congr {n : Nat} (h : file'.header = file.header) :
    hasRoom env n file' = hasRoom env n file ∧ losesPage env n file' = losesPage env n file := by
  induction n generalizing file file' with
  | zero => exact ⟨rfl, rfl⟩
  | succ n ih =>
    obtain ⟨hresult, hheader⟩ := @allocatePage_congr env _ _ h
    rw [hasRoom, hasRoom, losesPage, losesPage, h]
    generalize allocatePage env file' = after' at hresult hheader
    generalize allocatePage env file = after at hresult hheader
    obtain ⟨result', file₁'⟩ := after'
    obtain ⟨result, file₁⟩ := after
    obtain rfl : result' = result := hresult
    cases result' with
    | ok p => exact ih hheader
    | error rc => exact ⟨rfl, rfl⟩

theorem writePage_header {prev : Option Nat} :
    (writePage file prev cur data).header = file.header := by
  unfold writePage
  cases prev <;> rfl

theorem writePage_of_ne {prev : Option Nat} (hcur : q ≠ cur) (hprev : some q ≠ prev) :
    (writePage file prev cur data).pages q = file.pages q := by
  unfold writePage
  cases prev with
  | none => exact TextFile.setPage_ne hcur
  | some prev =>
    dsimp only
    rw [TextFile.setPage_ne (fun heq => hprev (congrArg some heq)), TextFile.setPage_ne hcur]

theorem writePage_self {prev : Option Nat} (hprev : some cur ≠ prev) :
    (writePage file prev cur data).pages cur = ⟨true, -1, data⟩ := by
  unfold writePage
  cases prev with
  | none => exact TextFile.setPage_self
  | some prev =>
    dsimp only
    rw [TextFile.setPage_ne (fun heq => hprev (congrArg some heq)), TextFile.setPage_self]

theorem writePage_prev (hne : prev ≠ cur) : (writePage file (some prev) cur data).pages prev =
    { file.pages prev with nextPageNum := cur } := by
  unfold writePage
  dsimp only
  rw [TextFile.setPage_self, TextFile.setPage_ne hne]

/-- What the loop of `write_text` has done with a text and a page before it. -/
structure Wrote (env : PoolOutcomes) (file : TextFile) (prev : Option Nat) (text : List UInt8)
    (result : Except RC Unit) (frames : List Nat) (file' : TextFile) : Prop where
  fresh : ∀ q ∈ frames, ¬ file.header.Allocated q
  kept : ∀ q, file.header.Allocated q → some q ≠ prev → file'.pages q = file.pages q
  linked : ∀ p, prev = some p → file'.pages p =
    match frames with
    | [] => file.pages p
    | cur :: _ => { file.pages p with nextPageNum := cur }
  allocated : ∀ q, file.header.Allocated q ∨ q ∈ frames → file'.header.Allocated q
  links : frames ≠ [] → Links (nextPage file') frames
  valid : ∀ q ∈ frames, (file'.pages q).valid = true ∧ -1 ≤ (file'.pages q).nextPageNum
  whole : result = .ok () → (frames.flatMap fun q => (file'.pages q).data) = text
  room : hasRoom env (TextFile.textPages text) file = true ↔ result = .ok ()
  exact : losesPage env (TextFile.textPages text) file = false →
    ∀ q, file'.header.Allocated q → file.header.Allocated q ∨ q ∈ frames
  lost : losesPage env (TextFile.textPages text) file = true →
    ∃ q, file'.header.Allocated q ∧ ¬ file.header.Allocated q ∧ q ∉ frames
  first : frames = [] ↔ text = [] ∨ hasRoom env 1 file = false

theorem textPages_nil : TextFile.textPages [] = 0 := by decide

theorem wrote_nil {prev : Option Nat} : Wrote env file prev [] (.ok ()) [] file where
  fresh q hq := by cases hq
  kept _ _ _ := rfl
  linked _ _ := rfl
  allocated q hq := hq.resolve_right (List.not_mem_nil)
  links hne := absurd rfl hne
  valid q hq := by cases hq
  whole _ := rfl
  room := by
    rw [textPages_nil]
    exact iff_of_true rfl rfl
  exact _ q hq := Or.inl hq
  lost h := by
    rw [textPages_nil] at h
    cases h
  first := iff_of_true rfl (Or.inl rfl)

/-- The loop ends at the first page, which can't be allocated. -/
theorem wrote_error {prev : Option Nat} (htext : text ≠ [])
    (h : allocatePage env file = (.error rc, file')) :
    Wrote env file prev text (.error rc) [] file' := by
  obtain ⟨hpages, hfile⟩ := allocatePage_error h
  have hdrop := TextFile.textPages_drop htext
  refine ⟨fun q hq => (List.not_mem_nil hq).elim, fun q _ _ => by rw [hpages],
    fun p _ => by rw [hpages], ?_, fun hne => absurd rfl hne,
    fun q hq => (List.not_mem_nil hq).elim, (by rintro ⟨⟩), ?_, ?_, ?_, ?_⟩
  · intro q hq
    have hq := hq.resolve_right List.not_mem_nil
    split at hfile
    · obtain ⟨i, -, halloc⟩ := hfile
      exact (halloc q).mpr (Or.inl hq)
    · exact hfile ▸ hq
  · refine iff_of_false ?_ (by rintro ⟨⟩)
    rw [hdrop, hasRoom, h]
    exact Bool.false_ne_true
  · intro hloses q hq
    rw [hdrop, losesPage, h] at hloses
    dsimp only at hloses
    rw [if_neg (by rw [hloses]; exact Bool.false_ne_true)] at hfile
    exact Or.inl (hfile ▸ hq)
  · intro hloses
    rw [hdrop, losesPage, h] at hloses
    rw [if_pos hloses] at hfile
    obtain ⟨i, hfresh, halloc⟩ := hfile
    exact ⟨i, (halloc i).mpr (Or.inr rfl), hfresh, List.not_mem_nil⟩
  · refine iff_of_true rfl (Or.inr ?_)
    rw [hasRoom, h]

/-- The loop goes on behind a page. -/
theorem Wrote.cons {prev : Option Nat} {result : Except RC Unit} {file₁ : TextFile}
    (htext : text ≠ []) (hprev : ∀ p, prev = some p → file.header.Allocated p)
    (halloc : allocatePage env file = (.ok cur, file₁))
    (h : Wrote env (writePage file₁ prev cur (text.take TextFile.maxTextDataSizeEachPage))
      (some cur) (text.drop TextFile.maxTextDataSizeEachPage) result frames file') :
    Wrote env file prev text result (cur :: frames) file' := by
  obtain ⟨hfresh, hpages, hallocated⟩ := allocatePage_ok halloc
  have hheader := @writePage_header file₁ cur (text.take TextFile.maxTextDataSizeEachPage) prev
  have hdrop := TextFile.textPages_drop htext
  have hcurPrev : some cur ≠ prev := fun heq => hfresh (hprev cur heq.symm)
  have hne (q : Nat) (hq : file.header.Allocated q) : q ≠ cur := fun heq => hfresh (heq ▸ hq)
  obtain ⟨hroom, hloses⟩ := @hasRoom_congr env file₁ _
    (TextFile.textPages (text.drop TextFile.maxTextDataSizeEachPage)) hheader
  have hin (q : Nat) (hq : file.header.Allocated q ∨ q = cur) :
      (writePage file₁ prev cur
        (text.take TextFile.maxTextDataSizeEachPage)).header.Allocated q := by
    rw [hheader]
    exact (hallocated q).mpr hq
  have hcur := h.linked cur rfl
  rw [writePage_self hcurPrev] at hcur
  have hrest (q : Nat) (hq : q ∈ frames) : ¬ file.header.Allocated q ∧ q ≠ cur :=
    ⟨fun halloc => h.fresh q hq (hin q (Or.inl halloc)),
      fun heq => h.fresh q hq (hin q (Or.inr heq))⟩
  refine ⟨?_, ?_, ?_, ?_, ?_, ?_, ?_, ?_, ?_, ?_, ?_⟩
  · intro q hq
    rcases List.mem_cons.mp hq with rfl | hmem
    · exact hfresh
    · exact (hrest q hmem).1
  · intro q hq hqprev
    rw [h.kept q (hin q (Or.inl hq)) (fun heq => hne q hq (Option.some.inj heq)),
      writePage_of_ne (hne q hq) hqprev, hpages]
  · rintro p rfl
    have hp := hprev p rfl
    rw [h.kept p (hin p (Or.inl hp)) (fun heq => hne p hp (Option.some.inj heq)),
      writePage_prev (hne p hp), hpages]
  · intro q hq
    rcases hq with hq | hq
    · exact h.allocated q (Or.inl (hin q (Or.inl hq)))
    · rcases List.mem_cons.mp hq with rfl | hmem
      · exact h.allocated q (Or.inl (hin q (Or.inr rfl)))
      · exact h.allocated q (Or.inr hmem)
  · intro _
    cases frames with
    | nil =>
      change nextPage file' cur = none
      rw [nextPage, hcur, if_pos rfl]
    | cons next frames =>
      refine ⟨?_, h.links (List.cons_ne_nil _ _)⟩
      rw [nextPage, hcur]
      dsimp only
      rw [if_neg (by omega), Int.toNat_natCast]
  · intro q hq
    rcases List.mem_cons.mp hq with rfl | hmem
    · rw [hcur]
      cases frames with
      | nil => exact ⟨rfl, Int.le_refl _⟩
      | cons next frames => exact ⟨rfl, by dsimp only; omega⟩
    · exact h.valid q hmem
  · intro hok
    rw [List.flatMap_cons, h.whole hok, hcur]
    cases frames <;> exact List.take_append_drop _ _
  · rw [hdrop, hasRoom, halloc, ← h.room, hroom]
  · intro hkeeps q hq
    rw [hdrop, losesPage, halloc] at hkeeps
    rcases h.exact (hloses.trans hkeeps) q hq with hq' | hmem
    · rw [hheader] at hq'
      rcases (hallocated q).mp hq' with hq' | rfl
      · exact Or.inl hq'
      · exact Or.inr List.mem_cons_self
    · exact Or.inr (List.mem_cons_of_mem _ hmem)
  · intro hlost
    rw [hdrop, losesPage, halloc] at hlost
    obtain ⟨q, hq, hnot, hout⟩ := h.lost (hloses.trans hlost)
    refine ⟨q, hq, fun hq' => hnot (hin q (Or.inl hq')), fun hmem => ?_⟩
    rcases List.mem_cons.mp hmem with heq | hmem
    · exact hnot (hin q (Or.inr heq))
    · exact hout hmem
  · refine iff_of_false (List.cons_ne_nil _ _) ?_
    rw [not_or, hasRoom, halloc]
    exact ⟨htext, by simp [hasRoom]⟩

/-- By induction on the rounds. -/
theorem writePages_spec {rounds : Nat} {prev : Option Nat} {result : Except RC Unit}
    (hprev : ∀ p, prev = some p → file.header.Allocated p) (hrounds : text.length ≤ rounds)
    (h : writePages env rounds file prev text = (result, frames, file')) :
    Wrote env file prev text result frames file' := by
  induction rounds generalizing file prev text frames with
  | zero =>
    obtain rfl : text = [] := List.eq_nil_of_length_eq_zero (Nat.le_zero.mp hrounds)
    unfold writePages at h
    cases h
    exact wrote_nil
  | succ rounds ih =>
    rw [writePages] at h
    by_cases htext : text = []
    · rw [if_pos htext] at h
      cases h
      exact htext ▸ wrote_nil
    · rw [if_neg htext] at h
      cases halloc : allocatePage env file with
      | mk first file₁ =>
        rw [halloc] at h
        cases first with
        | error rc =>
          cases h
          exact wrote_error htext halloc
        | ok cur =>
          dsimp only at h
          have hlength : (text.drop TextFile.maxTextDataSizeEachPage).length ≤ rounds := by
            have hpos : 0 < TextFile.maxTextDataSizeEachPage := by decide
            have hne := List.length_pos_iff.mpr htext
            rw [List.length_drop]
            omega
          cases hrest : writePages env rounds
              (writePage file₁ prev cur (text.take TextFile.maxTextDataSizeEachPage)) (some cur)
              (text.drop TextFile.maxTextDataSizeEachPage) with
          | mk result' after =>
            rw [hrest] at h
            cases h
            refine .cons htext hprev halloc (ih ?_ hlength hrest)
            rintro p ⟨⟩
            rw [writePage_header]
            exact ((allocatePage_ok halloc).2.2 cur).mpr (Or.inr rfl)

/-! ## Pins -/

variable {s s' : TextFileHandler}

@[simp] theorem pin_file (p : Nat) : (s.pin p).file = s.file := rfl

@[simp] theorem unpin_file (p : Nat) : (s.unpin p).file = s.file := rfl

theorem pin_pins (p q : Nat) : (s.pin p).pins q = s.pins q + if p = q then 1 else 0 := by
  unfold pin
  dsimp only
  rcases eq_or_ne p q with rfl | hne
  · rw [Function.update_self, if_pos rfl]
  · rw [Function.update_of_ne hne.symm, if_neg hne, Nat.add_zero]

theorem unpin_pins (p q : Nat) : (s.unpin p).pins q = s.pins q - if p = q then 1 else 0 := by
  unfold unpin
  dsimp only
  rcases eq_or_ne p q with rfl | hne
  · rw [Function.update_self, if_pos rfl]
  · rw [Function.update_of_ne hne.symm, if_neg hne, Nat.sub_zero]

theorem count_cons_eq (p q : Nat) (l : List Nat) :
    (p :: l).count q = l.count q + if p = q then 1 else 0 := by
  rw [List.count_cons]
  simp only [beq_iff_eq]

theorem foldl_pin (frames : List Nat) :
    frames.foldl pin s = ⟨s.file, fun q => s.pins q + frames.count q⟩ := by
  induction frames generalizing s with
  | nil => rfl
  | cons p frames ih =>
    rw [List.foldl_cons, ih, pin_file]
    congr 1
    funext q
    rw [pin_pins, count_cons_eq]
    omega

theorem foldl_unpin (frames : List Nat) :
    frames.foldl unpin s = ⟨s.file, fun q => s.pins q - frames.count q⟩ := by
  induction frames generalizing s with
  | nil => rfl
  | cons p frames ih =>
    rw [List.foldl_cons, ih, unpin_file]
    congr 1
    funext q
    rw [unpin_pins, count_cons_eq]
    omega

theorem unpin_pin (p : Nat) : (s.pin p).unpin p = s := by
  unfold pin unpin
  dsimp only
  rw [Function.update_self, Function.update_idem, Nat.add_sub_cancel, Function.update_eq_self]

/-- The pages of a text are unpinned whatever happens, and the call succeeds once a page has been
written. -/
theorem writeText_spec : ∃ result frames file', s.writeText env text =
      (match frames, result with
        | [], .error rc => .error rc
        | [], .ok () => .ok (-1)
        | first :: _, _ => .ok (first : Int), ⟨file', s.pins⟩) ∧
    Wrote env s.file none text result frames file' := by
  cases hwrite : writePages env text.length s.file none text with
  | mk result after =>
    obtain ⟨frames, file'⟩ := after
    refine ⟨result, frames, file', ?_, writePages_spec (by rintro p ⟨⟩) (Nat.le_refl _) hwrite⟩
    unfold writeText
    rw [hwrite]
    dsimp only
    cases frames with
    | nil => cases result <;> rfl
    | cons first rest =>
      dsimp only
      rw [foldl_pin, foldl_unpin]
      congr 2
      funext q
      exact Nat.add_sub_cancel _ _

theorem writeText_nil : s.writeText env [] = (.ok (-1), s) := rfl

theorem writeText_of_error (htext : text ≠ [])
    (h : allocatePage env s.file = (.error rc, file')) :
    s.writeText env text = (.error rc, ⟨file', s.pins⟩) := by
  unfold writeText
  cases text with
  | nil => exact absurd rfl htext
  | cons b text =>
    rw [List.length_cons, writePages, if_neg htext, h]
    rfl

theorem hasRoom_one :
    hasRoom env 1 file = true ↔ ∃ p file', allocatePage env file = (.ok p, file') := by
  rw [hasRoom]
  split
  · next p file' h => exact iff_of_true rfl ⟨p, file', h⟩
  · next rc file' h =>
    refine iff_of_false Bool.false_ne_true ?_
    rintro ⟨p, file'', hok⟩
    rw [h] at hok
    cases hok

theorem allocatePage_of_hasRoom (h : hasRoom env 1 file = false) :
    ∃ rc file', allocatePage env file = (.error rc, file') := by
  cases halloc : allocatePage env file with
  | mk first file' =>
    cases first with
    | error rc => exact ⟨rc, file', rfl⟩
    | ok p =>
      have htrue := hasRoom_one.mpr ⟨p, file', halloc⟩
      rw [h] at htrue
      cases htrue

theorem writeText_of_room (htext : text ≠ []) (h : hasRoom env 1 s.file = true) :
    ∃ (result : _) (first : Nat) (rest : _) (file' : _),
      s.writeText env text = (.ok (first : Int), ⟨file', s.pins⟩) ∧
      Wrote env s.file none text result (first :: rest) file' := by
  obtain ⟨result, frames, file', heq, hwrote⟩ := @writeText_spec env text s
  cases frames with
  | nil =>
    rcases hwrote.first.mp rfl with hnil | hroom
    · exact absurd hnil htext
    · rw [h] at hroom
      cases hroom
  | cons first rest => exact ⟨result, first, rest, file', heq, hwrote⟩

/-- The text that has been written is on pages of its own. -/
theorem Wrote.onPages {result : Except RC Unit} (hzero : file.header.Allocated 0)
    (h : Wrote env file none text result frames file') (hne : frames ≠ []) :
    OnPages file' frames (frames.flatMap fun q => (file'.pages q).data) where
  links := h.links hne
  areText q hq := ⟨fun heq => h.fresh q hq (heq ▸ hzero), h.allocated q (Or.inr hq),
    (h.valid q hq).1, (h.valid q hq).2⟩
  text := rfl

/-! ## Where nothing fails -/

theorem allocatePage_eq (henv : ∀ p, env.reload p = .ok () ∧ env.frame p = .ok ()) :
    allocatePage env file = match file.allocatePage with
      | .ok (p, file') => (.ok p, file')
      | .error rc => (.error rc, file) := by
  unfold allocatePage TextFile.allocatePage BPFileHeader.allocate
  cases hfree : file.header.freePage with
  | some i =>
    simp only [(henv i).1, reduceCtorEq, false_and, if_false]
  | none =>
    by_cases hfull : BPFileHeader.maxPageNum ≤ file.header.pageCount
    · simp only [if_pos hfull, true_and]
    · simp only [if_neg hfull, true_and, (henv file.header.pageCount).2]

/-- The loop behind a page, by induction on the rounds, of which there are enough. -/
theorem writePages_eq_writeNext (henv : ∀ p, env.reload p = .ok () ∧ env.frame p = .ok ())
    {rounds rounds' : Nat} (h : text.length ≤ rounds) (h' : text.length ≤ rounds') :
    (writePages env rounds file (some prev) text).2.2 = file.writeNext rounds' prev text := by
  induction rounds generalizing file prev text rounds' with
  | zero =>
    obtain rfl : text = [] := List.eq_nil_of_length_eq_zero (Nat.le_zero.mp h)
    cases rounds' <;> rfl
  | succ rounds ih =>
    by_cases htext : text = []
    · subst htext
      cases rounds' <;> rfl
    · have hpos := List.length_pos_iff.mpr htext
      have hmax : 0 < TextFile.maxTextDataSizeEachPage := by decide
      have hdrop : (text.drop TextFile.maxTextDataSizeEachPage).length < text.length := by
        rw [List.length_drop]
        omega
      obtain ⟨rounds', rfl⟩ := Nat.exists_eq_succ_of_ne_zero (by omega : rounds' ≠ 0)
      rw [writePages, TextFile.writeNext, if_neg htext, if_neg htext, allocatePage_eq henv]
      cases file.allocatePage with
      | error rc => rfl
      | ok r => exact ih (by omega) (by omega)

/-- A text is written as in a `TextFile`. -/
theorem writeText_eq (henv : ∀ p, env.reload p = .ok () ∧ env.frame p = .ok ()) :
    s.writeText env text = match s.file.writeText text with
      | (.ok (), file, pageNum) => (.ok pageNum, ⟨file, s.pins⟩)
      | (.error rc, file, _) => (.error rc, ⟨file, s.pins⟩) := by
  unfold TextFile.writeText
  by_cases htext : text = []
  · subst htext
    rfl
  · rw [if_neg htext]
    have halloc := @allocatePage_eq env s.file henv
    cases hfirst : s.file.allocatePage with
    | error rc =>
      rw [hfirst] at halloc
      exact writeText_of_error htext halloc
    | ok r =>
      obtain ⟨first, file₁⟩ := r
      rw [hfirst] at halloc
      obtain ⟨b, text, rfl⟩ := List.exists_cons_of_ne_nil htext
      have hmax : 0 < TextFile.maxTextDataSizeEachPage := by decide
      have hdrop : ((b :: text).drop TextFile.maxTextDataSizeEachPage).length ≤ text.length := by
        rw [List.length_drop, List.length_cons]
        omega
      have hrest := @writePages_eq_writeNext env
        (writePage file₁ none first ((b :: text).take TextFile.maxTextDataSizeEachPage)) first
        _ henv text.length (b :: text).length hdrop (Nat.le_succ_of_le hdrop)
      unfold writeText
      rw [List.length_cons, writePages, if_neg htext, halloc]
      dsimp only at hrest ⊢
      rw [foldl_pin, foldl_unpin, hrest]
      have hpins (frames : List Nat) : (fun q => s.pins q + frames.count q - frames.count q) =
          s.pins := funext fun q => Nat.add_sub_cancel _ _
      rw [hpins]
      rfl

end TextFileHandler

end ObHtap
