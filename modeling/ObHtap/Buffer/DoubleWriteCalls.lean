import ObHtap.Library.PartialRun
import ObHtap.Buffer.DoubleWriteBuffer
import Mathlib.Data.List.Nodup
import Mathlib.Data.List.Induction

/-!
# Loading, writing back and the header

What the calls of the double write buffer have in common: which copies `load_pages` takes, how an
invariant follows the pages that `flush_page` and `clear_pages` write back, and what the header
says in every state of a run.
-/

namespace ObHtap

open DoubleWriteBuffer DoubleWriteState

/-! ## `load_pages` -/

/-- The pages that have been loaded from the first `n` slots: of each key the first copy whose
checksum is right. -/
structure Loaded (disk : Disk) (n : Nat) (pages : List DoubleWritePage) : Prop where
  nodup : (pages.map DoubleWritePage.key).Nodup
  sound : ∀ p ∈ pages, ∃ i < n, disk.slots i = some p ∧ p.page.Checked ∧
    ∀ j < i, ∀ c, disk.slots j = some c → c.page.Checked → c.key ≠ p.key
  complete : ∀ i < n, ∀ c, disk.slots i = some c → c.page.Checked → ∃ p ∈ pages, p.key = c.key

section Load

variable {disk : Disk} {n : Nat} {pages : List DoubleWritePage}

theorem loaded_zero : Loaded disk 0 [] := by
  constructor <;> simp

theorem Loaded.skip (h : Loaded disk n pages) {page : DoubleWritePage}
    (hslot : disk.slots n = some page)
    (hno : ¬ (page.page.Checked ∧ ∀ p ∈ pages, p.key ≠ page.key)) :
    Loaded disk (n + 1) pages where
  nodup := h.nodup
  sound := fun p hp => by
    obtain ⟨i, hi, hrest⟩ := h.sound p hp
    exact ⟨i, Nat.lt_succ_of_lt hi, hrest⟩
  complete := fun i hi c hc hchecked => by
    rcases Nat.lt_succ_iff_lt_or_eq.mp hi with hi | rfl
    · exact h.complete i hi c hc hchecked
    · obtain rfl := Option.some.inj (hslot.symm.trans hc)
      by_contra hnone
      apply hno ⟨hchecked, fun p hp hkey => hnone ⟨p, hp, hkey⟩⟩

theorem Loaded.insert (h : Loaded disk n pages) {page : DoubleWritePage}
    (hslot : disk.slots n = some page) (hchecked : page.page.Checked)
    (hnew : ∀ p ∈ pages, p.key ≠ page.key) : Loaded disk (n + 1) (pages ++ [page]) where
  nodup := nodup_keys_append h.nodup hnew
  sound := fun p hp => by
    rcases List.mem_append.mp hp with hp | hp
    · obtain ⟨i, hi, hrest⟩ := h.sound p hp
      exact ⟨i, Nat.lt_succ_of_lt hi, hrest⟩
    · rw [List.mem_singleton.mp hp]
      refine ⟨n, Nat.lt_succ_self n, hslot, hchecked, ?_⟩
      intro j hj c hc hcc hkey
      obtain ⟨q, hq, hqkey⟩ := h.complete j hj c hc hcc
      exact hnew q hq (hqkey.trans hkey)
  complete := fun i hi c hc hcc => by
    rcases Nat.lt_succ_iff_lt_or_eq.mp hi with hi | rfl
    · obtain ⟨p, hp, hkey⟩ := h.complete i hi c hc hcc
      exact ⟨p, List.mem_append_left _ hp, hkey⟩
    · obtain rfl := Option.some.inj (hslot.symm.trans hc)
      exact ⟨page, List.mem_append_right _ List.mem_cons_self, rfl⟩

theorem loadSlots_loaded {m : Nat} (hpresent : ∀ i < n + m, (disk.slots i).isSome)
    (h : Loaded disk n pages) :
    ∃ pages', loadSlots disk (List.range' n m) pages = .ok pages' ∧
      Loaded disk (n + m) pages' := by
  induction m generalizing n pages with
  | zero => exact ⟨pages, rfl, h⟩
  | succ m ih =>
    obtain ⟨page, hslot⟩ := Option.isSome_iff_exists.mp (hpresent n (by omega))
    rw [List.range'_succ, loadSlots, hslot, show n + (m + 1) = n + 1 + m by omega]
    have hpresent' : ∀ i < n + 1 + m, (disk.slots i).isSome :=
      fun i hi => hpresent i (by omega)
    by_cases hins : page.page.Checked ∧ ∀ p ∈ pages, p.key ≠ page.key
    · simp only [if_pos hins]
      exact ih hpresent' (h.insert hslot hins.1 hins.2)
    · simp only [if_neg hins]
      exact ih hpresent' (h.skip hslot hins)

theorem loadPages_eq {maxPages : Int}
    (h : loadSlots disk (List.range disk.pageCnt) [] = .ok pages) :
    loadPages maxPages disk = .ok ⟨maxPages, disk.pageCnt, pages⟩ := by
  unfold loadPages
  rw [h]

theorem loadPages_loaded (maxPages : Int)
    (hpresent : ∀ i < disk.pageCnt, (disk.slots i).isSome) :
    ∃ pages, loadPages maxPages disk = .ok ⟨maxPages, disk.pageCnt, pages⟩ ∧
      Loaded disk disk.pageCnt pages := by
  obtain ⟨pages, hload, hloaded⟩ := loadSlots_loaded (n := 0) (m := disk.pageCnt)
    (by simpa using hpresent) loaded_zero
  rw [Nat.zero_add] at hloaded
  rw [← List.range_eq_range'] at hload
  exact ⟨pages, loadPages_eq hload, hloaded⟩

end Load

theorem loadSlots_first {disk : Disk} {old new : DoubleWritePage}
    (hfirst : disk.slots 0 = some old) (hsecond : disk.slots 1 = some new)
    (hchecked : old.page.Checked) (hkey : old.key = new.key) :
    loadSlots disk [0, 1] [] = .ok [old] := by
  rw [loadSlots, hfirst]
  simp only
  rw [if_pos ⟨hchecked, fun p hp => by cases hp⟩, loadSlots, hsecond]
  simp only
  rw [if_neg fun hnew => hnew.2 _ List.mem_cons_self hkey]
  rfl

/-! ## Writing back -/

theorem readPage_writeAll {history : DiskHistory} {writes : List DiskWrite}
    {key : DoubleWritePageKey} {page : Page} (hread : history.disk.readPage key = some page)
    (hne : ∀ k p, DiskWrite.page k p ∈ writes → key ≠ k) :
    (history.writeAll writes).disk.readPage key = some page := by
  induction writes generalizing history with
  | nil => exact hread
  | cons w writes ih =>
    rw [DiskHistory.writeAll_cons]
    apply ih _ fun k p hp => hne k p (List.mem_cons_of_mem _ hp)
    rw [DiskHistory.disk_write]
    cases w with
    | slot copy => exact hread
    | header pageCnt => exact hread
    | page k p => exact Disk.readPage_write_of_ne (hne k p List.mem_cons_self) hread

theorem mem_flushWrites_page {pages : List DoubleWritePage} {key : DoubleWritePageKey}
    {page : Page} (h : DiskWrite.page key page ∈ flushWrites pages) :
    ∃ p ∈ pages, p.key = key := by
  obtain ⟨p, hp, hw⟩ := List.mem_flatMap.mp h
  refine ⟨p, hp, ?_⟩
  split_ifs at hw
  · simp only [List.singleton_append, List.mem_cons, DiskWrite.page.injEq, List.not_mem_nil,
      reduceCtorEq, or_false] at hw
    exact hw.1.symm
  · simp at hw

theorem readPage_flushWrites {history : DiskHistory} {pages : List DoubleWritePage}
    (hnodup : (pages.map DoubleWritePage.key).Nodup) {p : DoubleWritePage} (hp : p ∈ pages)
    (hvalid : p.valid = true) :
    (history.writeAll (flushWrites pages)).disk.readPage p.key = some p.page := by
  induction pages generalizing history with
  | nil => cases hp
  | cons q pages ih =>
    rw [List.map_cons, List.nodup_cons] at hnodup
    rw [flushWrites_cons, DiskHistory.writeAll_append]
    rcases List.mem_cons.mp hp with rfl | hp
    · rw [if_pos hvalid]
      apply readPage_writeAll
      · simp
      · intro k page hk hkey
        rcases List.mem_cons.mp hk with hk | hk
        · cases hk
        · obtain ⟨q, hq, hqkey⟩ := mem_flushWrites_page hk
          exact hnodup.1 (hkey ▸ hqkey ▸ List.mem_map_of_mem hq)
    · rw [DiskHistory.writeAll_cons]
      exact ih hnodup.2 hp

/-- An invariant of the pages that are held and the disk, which a page may leave when it has been
written to its file and its slot has been marked. -/
structure WritesBack (I : List DoubleWritePage → DiskHistory → Prop) : Prop where
  perm : ∀ {held rest history}, I held history → held.Perm rest → I rest history
  page : ∀ {p rest history}, I (p :: rest) history →
    I (p :: rest) (history.write (.page p.key p.page))
  slot : ∀ {p rest history}, I (p :: rest) history →
    I rest ((history.write (.page p.key p.page)).write (.slot { p with valid := false }))

namespace WritesBack

variable {I : List DoubleWritePage → DiskHistory → Prop} {history : DiskHistory}
  {buffer : DoubleWriteBuffer}

theorem pages (hI : WritesBack I) {pages rest : List DoubleWritePage}
    (h : I (pages ++ rest) history) (hvalid : ∀ p ∈ pages, p.valid = true) :
    Along DiskHistory.write (fun d => ∃ held, I held d) history (flushWrites pages) ∧
      I rest (history.writeAll (flushWrites pages)) := by
  induction pages generalizing history with
  | nil => exact ⟨Along.nil ⟨_, h⟩, h⟩
  | cons p pages ih =>
    rw [flushWrites_cons, if_pos (hvalid p List.mem_cons_self)]
    obtain ⟨halong, hrest⟩ := ih (hI.slot h) fun q hq => hvalid q (List.mem_cons_of_mem _ hq)
    exact ⟨Along.cons ⟨_, h⟩ (Along.cons ⟨_, hI.page h⟩ halong), hrest⟩

theorem flushPage (hI : WritesBack I) (h : I buffer.pages history)
    (hvalid : ∀ p ∈ buffer.pages, p.valid = true) (order : HashOrder) :
    Along DiskHistory.write (fun d => ∃ held, I held d) history (buffer.flushPage order).1 ∧
      I [] (history.writeAll (buffer.flushPage order).1) := by
  have hperm := order.perm buffer.pages
  apply hI.pages
  · rw [List.append_nil]
    exact hI.perm h hperm.symm
  · exact fun p hp => hvalid p (hperm.mem_iff.mp hp)

theorem clearPages (hI : WritesBack I) (h : I buffer.pages history)
    (hvalid : ∀ p ∈ buffer.pages, p.valid = true) (bufferPoolId : Int) :
    Along DiskHistory.write (fun d => ∃ held, I held d) history
        (buffer.clearPages bufferPoolId).1 ∧
      I (buffer.clearPages bufferPoolId).2.pages
        (history.writeAll (buffer.clearPages bufferPoolId).1) := by
  rw [writes_clearPages buffer bufferPoolId hvalid]
  apply hI.pages
  · exact hI.perm h (specPages_append_perm buffer bufferPoolId)
  · exact fun p hp => hvalid p (mem_specPages.mp hp).1

end WritesBack

/-! ## The header -/

/-- The header of the buffer is that of the file, unless the buffer has been flushed since it was
written. -/
structure HeaderInv (buffer : DoubleWriteBuffer) (disk : Disk) : Prop where
  header : buffer.pageCnt = disk.pageCnt ∨ buffer.pageCnt = 0
  room : buffer.pages.length ≤ buffer.pageCnt
  valid : ∀ p ∈ buffer.pages, p.valid = true

namespace HeaderInv

variable {buffer : DoubleWriteBuffer} {history : DiskHistory}

theorem flushed (maxPages : Int) (disk : Disk) : HeaderInv ⟨maxPages, 0, []⟩ disk :=
  ⟨.inr rfl, Nat.le_refl _, fun p hp => by cases hp⟩

theorem updatePage (h : HeaderInv buffer history.disk) {held : DoubleWritePage}
    (hheld : held ∈ buffer.pages) (page : Page) :
    HeaderInv (buffer.updatePage held page).2
      (history.writeAll (buffer.updatePage held page).1).disk where
  header := h.header
  room := by
    show (buffer.pages.map _).length ≤ buffer.pageCnt
    rw [List.length_map]
    exact h.room
  valid := fun p hp => by
    obtain ⟨q, hq, rfl⟩ := List.mem_map.mp hp
    split_ifs
    · exact h.valid held hheld
    · exact h.valid q hq

theorem insertPage (h : HeaderInv buffer history.disk) (key : DoubleWritePageKey) (page : Page) :
    HeaderInv (buffer.insertPage key page).2
      (history.writeAll (buffer.insertPage key page).1).disk := by
  have hvalid : ∀ p ∈ (buffer.insertPage key page).2.pages, p.valid = true := by
    intro p hp
    rw [pages_insertPage] at hp
    rcases List.mem_append.mp hp with hp | hp
    · exact h.valid p hp
    · rw [List.mem_singleton.mp hp]
  refine ⟨?_, ?_, hvalid⟩ <;> unfold DoubleWriteBuffer.insertPage <;> simp only <;>
    split_ifs with hraise
  · exact .inl rfl
  · exact h.header
  · exact Nat.le_of_eq (List.length_append ..)
  · show (buffer.pages ++ [_]).length ≤ buffer.pageCnt
    rw [List.length_append, List.length_singleton]
    omega

theorem clearPages (h : HeaderInv buffer history.disk) (bufferPoolId : Int) :
    HeaderInv (buffer.clearPages bufferPoolId).2
      (history.writeAll (buffer.clearPages bufferPoolId).1).disk where
  header := by
    rw [writes_clearPages buffer bufferPoolId h.valid,
      DiskHistory.pageCnt_writeAll (header_notMem_flushWrites _)]
    exact h.header
  room := Nat.le_trans (List.length_filter_le _ _) h.room
  valid := fun p hp => h.valid p (List.mem_filter.mp hp).1

theorem addPage (h : HeaderInv buffer history.disk) (key : DoubleWritePageKey) (page : Page)
    (order : HashOrder) :
    HeaderInv (buffer.addPage key page order).2
      (history.writeAll (buffer.addPage key page order).1).disk := by
  rcases addPage_cases buffer key page order with
    ⟨held, hheld, -, heq⟩ | ⟨-, -, heq⟩ | ⟨-, -, heq⟩
  · rw [heq]
    exact h.updatePage hheld page
  · rw [heq]
    exact flushed _ _
  · rw [heq]
    exact h.insertPage key page

theorem step {s : DoubleWriteState} (h : HeaderInv s.buffer s.history.disk)
    (call : DoubleWriteCall) : HeaderInv (s.step call).buffer (s.step call).history.disk := by
  unfold DoubleWriteState.step
  rw [← DiskHistory.disk_hand s.history call] at h
  cases call with
  | addPage key page order => exact h.addPage key page order
  | flushPage order => exact flushed _ _
  | clearPages bufferPoolId => exact h.clearPages bufferPoolId
  | writePage key page => exact ⟨h.header, h.room, h.valid⟩

end HeaderInv

theorem headerInv_runs (maxPages : Int) (files : Int → List Page) (calls : List DoubleWriteCall) :
    HeaderInv (runs (create maxPages files) calls).buffer
      (runs (create maxPages files) calls).history.disk := by
  induction calls using List.reverseRecOn with
  | nil => exact HeaderInv.flushed _ _
  | append_singleton calls call ih =>
    rw [runs_append_singleton]
    exact ih.step call

/-- An image of zeros with its checksum. -/
def zeroImage (lsn : LSN) : Page := ⟨lsn, crc32 Page.zero.data.toList, Page.zero.data⟩

theorem checked_zeroImage (lsn : LSN) : (zeroImage lsn).Checked := rfl

/-- Two pools with a page each; the first one is closed. -/
def shadowedCalls : List DoubleWriteCall :=
  [.addPage ⟨1, 1⟩ (zeroImage 1) HashOrder.unchanged,
    .addPage ⟨2, 1⟩ (zeroImage 2) HashOrder.unchanged, .clearPages 1]

theorem shadowedCalls_prefix {done : List DoubleWriteCall} {call : DoubleWriteCall}
    (h : done ++ [call] <+: shadowedCalls ++ [.clearPages 2]) :
    (done = [] ∧ call = .addPage ⟨1, 1⟩ (zeroImage 1) HashOrder.unchanged) ∨
    (done = [.addPage ⟨1, 1⟩ (zeroImage 1) HashOrder.unchanged] ∧
      call = .addPage ⟨2, 1⟩ (zeroImage 2) HashOrder.unchanged) ∨
    ∃ bufferPoolId, call = .clearPages bufferPoolId := by
  rcases done with _ | ⟨first, _ | ⟨second, _ | ⟨third, _ | ⟨fourth, rest⟩⟩⟩⟩ <;>
    simp only [shadowedCalls, List.nil_append, List.cons_append, List.cons_prefix_cons,
      List.append_eq_nil_iff, List.prefix_nil] at h
  · exact .inl ⟨rfl, h.1⟩
  · exact .inr (.inl ⟨by rw [h.1], h.2.1⟩)
  · exact .inr (.inr ⟨1, h.2.2.1⟩)
  · exact .inr (.inr ⟨2, h.2.2.2.1⟩)
  · simp at h

end ObHtap
