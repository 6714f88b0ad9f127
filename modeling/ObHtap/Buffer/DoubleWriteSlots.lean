import ObHtap.Buffer.DoubleWriteBuffer
import Mathlib.Data.List.Induction
import Mathlib.Data.List.Nodup

/-!
# The slots of the double write buffer

A new page takes the slot whose number is the number of pages in the buffer.  The slot is free as
long as the buffer is emptied as a whole, but `clear_pages` may leave a page with that number.
-/

namespace ObHtap

open DoubleWriteBuffer DoubleWriteState

/-- The image that was handed to the buffer last. -/
def lastAdded (calls : List DoubleWriteCall) (key : DoubleWritePageKey) : Option Page :=
  calls.foldl (fun last call =>
    match call with
    | .addPage k page _ => if k = key then some page else last
    | _ => last) none

/-- The pages of the buffer have slots of their own, which hold what was added last. -/
structure SlotsExclusive (s : DoubleWriteState) (latest : DoubleWritePageKey → Option Page) :
    Prop where
  distinct : ∀ p ∈ s.buffer.pages, ∀ q ∈ s.buffer.pages, p.key ≠ q.key →
    p.pageIndex ≠ q.pageIndex
  stored : ∀ p ∈ s.buffer.pages, ∃ copy, s.history.disk.slots p.pageIndex = some copy ∧
    copy.key = p.key ∧ latest p.key = some copy.page

/-- A page that the buffer does not have finds its slot free, or the buffer is full with it. -/
def TakesFreeSlot (buffer : DoubleWriteBuffer) : DoubleWriteCall → Prop
  | .addPage key _ _ => (∃ p ∈ buffer.pages, p.key = key) ∨
      buffer.maxPages ≤ buffer.pages.length + 1 ∨
      ∀ p ∈ buffer.pages, p.pageIndex ≠ buffer.pages.length
  | _ => True

/-- The invariant: the keys are different as well, and a slot holds the page as the buffer has
it. -/
structure SlotInv (s : DoubleWriteState) (latest : DoubleWritePageKey → Option Page) : Prop where
  nodup : (s.buffer.pages.map DoubleWritePage.key).Nodup
  distinct : ∀ p ∈ s.buffer.pages, ∀ q ∈ s.buffer.pages, p.pageIndex = q.pageIndex → p = q
  stored : ∀ p ∈ s.buffer.pages, s.history.disk.slots p.pageIndex = some p
  latest : ∀ p ∈ s.buffer.pages, latest p.key = some p.page

theorem lastAdded_append (calls : List DoubleWriteCall) (call : DoubleWriteCall) :
    lastAdded (calls ++ [call]) = fun key =>
      match call with
      | .addPage k page _ => if k = key then some page else lastAdded calls key
      | _ => lastAdded calls key := by
  funext key
  exact List.foldl_append

namespace SlotInv

variable {buffer : DoubleWriteBuffer} {history : DiskHistory}
  {latest : DoubleWritePageKey → Option Page} {key : DoubleWritePageKey} {page : Page}

theorem of_nil (h : buffer.pages = []) : SlotInv ⟨buffer, history⟩ latest := by
  constructor <;> simp [h]

theorem exclusive {s : DoubleWriteState} (h : SlotInv s latest) : SlotsExclusive s latest where
  distinct := fun p hp q hq hkey hindex => hkey (congrArg _ (h.distinct p hp q hq hindex))
  stored := fun p hp => ⟨p, h.stored p hp, rfl, h.latest p hp⟩

theorem eq_of_key {s : DoubleWriteState} (h : SlotInv s latest) {p q : DoubleWritePage}
    (hp : p ∈ s.buffer.pages) (hq : q ∈ s.buffer.pages) (hkey : p.key = q.key) : p = q :=
  List.inj_on_of_nodup_map h.nodup hp hq hkey

theorem updatePage (h : SlotInv ⟨buffer, history⟩ latest) {held : DoubleWritePage}
    (hheld : held ∈ buffer.pages) :
    SlotInv ⟨(buffer.updatePage held page).2, history.writeAll (buffer.updatePage held page).1⟩
      (fun k => if held.key = k then some page else latest k) := by
  have hmem : ∀ q ∈ (buffer.updatePage held page).2.pages,
      q = { held with page } ∨ q ∈ buffer.pages ∧ q ≠ held := by
    intro q hq
    obtain ⟨p, hp, rfl⟩ := List.mem_map.mp hq
    split_ifs with heq
    · exact .inl rfl
    · exact .inr ⟨hp, heq⟩
  have hslots : ∀ i, (history.writeAll (buffer.updatePage held page).1).disk.slots i =
      if i = held.pageIndex then some { held with page } else history.disk.slots i := fun _ => rfl
  constructor
  · have hkeys : (buffer.updatePage held page).2.pages.map DoubleWritePage.key =
        buffer.pages.map DoubleWritePage.key := by
      show (buffer.pages.map _).map _ = _
      rw [List.map_map]
      apply List.map_congr_left
      intro p _
      rw [Function.comp_apply]
      split_ifs with heq
      · rw [heq]
      · rfl
    rw [hkeys]
    exact h.nodup
  · intro p hp q hq hindex
    rcases hmem p hp with rfl | ⟨hp, hpne⟩ <;> rcases hmem q hq with rfl | ⟨hq, hqne⟩
    · rfl
    · exact absurd (h.distinct held hheld q hq hindex).symm hqne
    · exact absurd (h.distinct p hp held hheld hindex) hpne
    · exact h.distinct p hp q hq hindex
  · intro p hp
    rw [hslots]
    rcases hmem p hp with rfl | ⟨hp, hpne⟩
    · exact if_pos rfl
    · rw [if_neg fun hindex => hpne (h.distinct p hp held hheld hindex)]
      exact h.stored p hp
  · intro p hp
    rcases hmem p hp with rfl | ⟨hp, hpne⟩
    · exact if_pos rfl
    · rw [if_neg fun hkey => hpne (h.eq_of_key hp hheld hkey.symm)]
      exact h.latest p hp

theorem insertPage (h : SlotInv ⟨buffer, history⟩ latest) (hnew : ∀ p ∈ buffer.pages, p.key ≠ key)
    (hfree : ∀ p ∈ buffer.pages, p.pageIndex ≠ buffer.pages.length) :
    SlotInv ⟨(buffer.insertPage key page).2, history.writeAll (buffer.insertPage key page).1⟩
      (fun k => if key = k then some page else latest k) := by
  have hpages := pages_insertPage buffer key page
  have hslots : ∀ i, (history.writeAll (buffer.insertPage key page).1).disk.slots i =
      if i = buffer.pages.length then some ⟨key, buffer.pages.length, true, page⟩
      else history.disk.slots i := by
    intro i
    rw [writes_insertPage]
    by_cases hcnt : buffer.pageCnt < buffer.pages.length + 1
    · rw [if_pos hcnt]
      rfl
    · rw [if_neg hcnt]
      rfl
  constructor
  · show ((buffer.insertPage key page).2.pages.map _).Nodup
    rw [hpages]
    exact nodup_keys_append h.nodup hnew
  · intro p hp q hq hindex
    rw [hpages] at hp hq
    rcases List.mem_append.mp hp with hp | hp <;> rcases List.mem_append.mp hq with hq | hq
    · exact h.distinct p hp q hq hindex
    · rw [List.mem_singleton.mp hq] at hindex
      exact absurd hindex (hfree p hp)
    · rw [List.mem_singleton.mp hp] at hindex
      exact absurd hindex.symm (hfree q hq)
    · rw [List.mem_singleton.mp hp, List.mem_singleton.mp hq]
  · intro p hp
    rw [hpages] at hp
    rw [hslots]
    rcases List.mem_append.mp hp with hp | hp
    · rw [if_neg (hfree p hp)]
      exact h.stored p hp
    · rw [List.mem_singleton.mp hp]
      exact if_pos rfl
  · intro p hp
    rw [hpages] at hp
    rcases List.mem_append.mp hp with hp | hp
    · rw [if_neg fun hkey => hnew p hp hkey.symm]
      exact h.latest p hp
    · rw [List.mem_singleton.mp hp]
      exact if_pos rfl

/-- The slots of the pages that stay are not those of the pages that go. -/
theorem clearPages (h : SlotInv ⟨buffer, history⟩ latest) (bufferPoolId : Int) :
    SlotInv ⟨(buffer.clearPages bufferPoolId).2,
      history.writeAll (buffer.clearPages bufferPoolId).1⟩ latest := by
  have hmem : ∀ p ∈ (buffer.clearPages bufferPoolId).2.pages,
      p ∈ buffer.pages ∧ p.key.bufferPoolId ≠ bufferPoolId := by
    intro p hp
    simpa using List.mem_filter.mp hp
  constructor
  · exact h.nodup.sublist (List.filter_sublist.map _)
  · exact fun p hp q hq => h.distinct p (hmem p hp).1 q (hmem q hq).1
  · intro p hp
    obtain ⟨hp, hpool⟩ := hmem p hp
    apply (DiskHistory.slots_writeAll ?_).trans (h.stored p hp)
    intro copy hcopy hindex
    obtain ⟨q, hq, hw⟩ := List.mem_flatMap.mp hcopy
    obtain ⟨hq, hqpool⟩ := mem_specPages.mp hq
    have hcopyq : copy = { q with valid := false } := by simpa using hw
    rw [hcopyq] at hindex
    rw [h.distinct q hq p hp hindex] at hqpool
    exact hpool hqpool
  · exact fun p hp => h.latest p (hmem p hp).1

end SlotInv

theorem SlotInv.step {s : DoubleWriteState} {calls : List DoubleWriteCall}
    {call : DoubleWriteCall} (h : SlotInv s (lastAdded calls)) (hfree : TakesFreeSlot s.buffer call) :
    SlotInv (s.step call) (lastAdded (calls ++ [call])) := by
  have hhand : SlotInv ⟨s.buffer, s.history.hand call⟩ (lastAdded calls) :=
    { nodup := h.nodup
      distinct := h.distinct
      stored := by
        rw [DiskHistory.disk_hand]
        exact h.stored
      latest := h.latest }
  rw [lastAdded_append]
  unfold DoubleWriteState.step
  cases call with
  | addPage key page order =>
    rcases addPage_cases s.buffer key page order with
      ⟨held, hheld, rfl, heq⟩ | ⟨hnew, hfull, heq⟩ | ⟨hnew, hroom, heq⟩
    · simp only [DoubleWriteCall.run, heq]
      exact hhand.updatePage hheld
    · simp only [DoubleWriteCall.run, heq]
      exact of_nil rfl
    · simp only [DoubleWriteCall.run, heq]
      rcases hfree with ⟨p, hp, hkey⟩ | hfull | hfree
      · exact absurd hkey (hnew p hp)
      · exact absurd hfull hroom
      · exact hhand.insertPage hnew hfree
  | flushPage order => exact of_nil rfl
  | clearPages bufferPoolId => exact hhand.clearPages bufferPoolId
  | writePage key page => exact ⟨hhand.nodup, hhand.distinct, hhand.stored, hhand.latest⟩

theorem slotInv_of_runs {maxPages : Int} {files : Int → List Page} {calls : List DoubleWriteCall}
    (h : ∀ done call, done ++ [call] <+: calls →
      TakesFreeSlot (runs (create maxPages files) done).buffer call) :
    SlotInv (runs (create maxPages files) calls) (lastAdded calls) := by
  induction calls using List.reverseRecOn with
  | nil => exact SlotInv.of_nil rfl
  | append_singleton calls call ih =>
    rw [runs_append_singleton]
    apply SlotInv.step
    · exact ih fun done c hdone => h done c (hdone.trans (List.prefix_append _ _))
    · exact h calls call (List.prefix_refl _)

/-- **Slots are exclusive** in all states of a run if and only if every page that is added finds its
slot free. -/
theorem slotsExclusive_iff (maxPages : Int) (files : Int → List Page)
    (calls : List DoubleWriteCall) :
    (∀ done, done <+: calls →
      SlotsExclusive (runs (create maxPages files) done) (lastAdded done)) ↔
    ∀ done call, done ++ [call] <+: calls →
      TakesFreeSlot (runs (create maxPages files) done).buffer call := by
  constructor
  · intro h done call hpre
    have hafter := h (done ++ [call]) hpre
    rw [runs_append_singleton] at hafter
    generalize runs (create maxPages files) done = s at hafter ⊢
    cases call with
    | addPage key page order =>
      rcases addPage_cases s.buffer key page order with
        ⟨held, hheld, hkey, -⟩ | ⟨-, hfull, -⟩ | ⟨hnew, -, heq⟩
      · exact .inl ⟨held, hheld, hkey⟩
      · exact .inr (.inl hfull)
      · apply Or.inr (Or.inr _)
        -- The new page and a page with its slot would both be in the buffer.
        intro p hp hindex
        have hpages : (s.step (.addPage key page order)).buffer.pages =
            s.buffer.pages ++ [⟨key, s.buffer.pages.length, true, page⟩] := by
          unfold DoubleWriteState.step
          simp only [DoubleWriteCall.run, heq, pages_insertPage]
        apply hafter.distinct p _ ⟨key, s.buffer.pages.length, true, page⟩ _ (hnew p hp) hindex
        · rw [hpages]
          exact List.mem_append_left _ hp
        · rw [hpages]
          exact List.mem_append_right _ List.mem_cons_self
    | flushPage order => trivial
    | clearPages bufferPoolId => trivial
    | writePage key page => trivial
  · intro h done hdone
    apply (slotInv_of_runs fun d c hd => h d c (hd.trans hdone)).exclusive

/-- Two pools with a page each; the first one is closed and the second one adds a page. -/
def sharedSlotCalls : List DoubleWriteCall :=
  [.addPage ⟨1, 1⟩ Page.zero HashOrder.unchanged, .addPage ⟨2, 1⟩ Page.zero HashOrder.unchanged,
    .clearPages 1, .addPage ⟨2, 2⟩ Page.zero HashOrder.unchanged]

theorem sharedSlot_not_exclusive :
    ¬ ∀ done, done <+: sharedSlotCalls →
      SlotsExclusive (runs (create 16 fun _ => []) done) (lastAdded done) := by
  intro h
  have hpages : (runs (create 16 fun _ => []) sharedSlotCalls).buffer.pages =
      [⟨⟨2, 1⟩, 1, true, Page.zero⟩, ⟨⟨2, 2⟩, 1, true, Page.zero⟩] := rfl
  have hdistinct := (h sharedSlotCalls (List.prefix_refl _)).distinct
  rw [hpages] at hdistinct
  exact hdistinct _ List.mem_cons_self _ (List.mem_cons_of_mem _ List.mem_cons_self) (by decide) rfl

end ObHtap
