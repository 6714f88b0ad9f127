import ObHtap.Library.PartialRun
import ObHtap.Text.TextDeletes

/-!
# Texts are read back

Whoever keeps the page numbers that `write_text` has returned reads the texts back, whatever is
written and deleted in between.  A text that is not on any page can't be read; and when a page is
missing midway, what has been written of the text is passed off as the text, since the return code
of the flushes replaces that of the loop.
-/

namespace ObHtap

/-- The handler of a text file and the texts that are held: those that have been written and not
deleted, with their page numbers. -/
structure TextStore where
  handler : TextFileHandler
  texts : Nat → Option (Int × List UInt8)
  count : Nat

/-- A call, during which the buffer pool answers. -/
inductive TextCall
  | writeText (env : PoolOutcomes) (text : List UInt8)
  | deleteText (env : PoolOutcomes) (number : Nat)

namespace TextStore

open TextFileHandler

/-- A text is held when `write_text` has returned a page number. -/
def write (s : TextStore) (env : PoolOutcomes) (text : List UInt8) : TextStore :=
  match s.handler.writeText env text with
  | (.ok pageNum, handler) =>
    ⟨handler, Function.update s.texts s.count (some (pageNum, text)), s.count + 1⟩
  | (.error _, handler) => { s with handler }

/-- A text that is held is not any more when `delete_text` has succeeded. -/
def delete (s : TextStore) (env : PoolOutcomes) (number : Nat) : Option TextStore :=
  match s.texts number with
  | none => some s
  | some (pageNum, _) =>
    match s.handler.deleteText env pageNum with
    | none => none
    | some (.ok (), handler) =>
      some { s with handler, texts := Function.update s.texts number none }
    | some (.error _, handler) => some { s with handler }

/-- A call on a store; `none` where the process ends. -/
def call (s : TextStore) : TextCall → Option TextStore
  | .writeText env text => some (s.write env text)
  | .deleteText env number => s.delete env number

/-- `get_text` of the page number returns the text, when the pages of the file can be read. -/
def ReadsBack (file : TextFile) (t : Int × List UInt8) : Prop :=
  ∃ rounds, file.getText rounds t.1 = some (.ok t.2)

/-- All texts that are held are read back after the call.  A text for which there are not all the
pages is refused, and no page remains allocated or pinned for it. -/
def KeepsTexts (s : TextStore) (c : TextCall) : Prop :=
  (∀ s', s.call c = some s' → ∀ i t, s'.texts i = some t → ReadsBack s'.handler.file t) ∧
    ∀ env text, c = .writeText env text →
      hasRoom env (TextFile.textPages text) s.handler.file = false →
      ∃ rc after, s.handler.writeText env text = (.error rc, after) ∧
        (∀ q, after.file.header.Allocated q ↔ s.handler.file.header.Allocated q) ∧
        after.pins = s.handler.pins

/-- A text that is written takes a page at least, and there are all its pages, or not even the
first one, which is not there to be used again. -/
def Fits (s : TextStore) : TextCall → Prop
  | .writeText env text => text ≠ [] ∧
      (hasRoom env (TextFile.textPages text) s.handler.file = true ∨
        hasRoom env 1 s.handler.file = false ∧ s.handler.file.header.freePage = none)
  | .deleteText _ _ => True

/-- The text is on the pages, the first of which has its number. -/
structure OnOwn (file : TextFile) (t : Int × List UInt8) (pages : List Nat) : Prop where
  first : IsFirst t.1 pages
  onPages : OnPages file pages t.2

/-- Each text that is held is on pages of its own. -/
structure Held (s : TextStore) : Prop where
  zero : s.handler.file.header.Allocated 0
  numbered : ∀ i t, s.texts i = some t → i < s.count
  onOwn : ∀ i t, s.texts i = some t → ∃ pages, OnOwn s.handler.file t pages
  apart : ∀ i j t u pages pages', s.texts i = some t → s.texts j = some u → i ≠ j →
    OnOwn s.handler.file t pages → OnOwn s.handler.file u pages' → ∀ q ∈ pages, q ∉ pages'

variable {env : PoolOutcomes} {s s' : TextStore} {file file' : TextFile} {t : Int × List UInt8}
  {text : List UInt8} {number : Nat} {c : TextCall} {frames pages pages' : List Nat}

/-! ## Texts on pages -/

theorem OnOwn.readsBack (h : OnOwn file t pages) : ReadsBack file t := by
  obtain ⟨p, rest, rfl, hp⟩ := h.first.natCast
  obtain ⟨rounds, hread⟩ := h.onPages.chain.getText
  exact ⟨rounds, hp ▸ hread⟩

theorem OnOwn.unique (h : OnOwn file t pages) (h' : OnOwn file t pages') : pages' = pages :=
  h'.onPages.links.eq_of_head h.onPages.links (h'.first.2.trans h.first.2.symm)

theorem OnOwn.congr (h : OnOwn file t pages)
    (hkept : ∀ q ∈ pages, file'.header.Allocated q ∧ file'.pages q = file.pages q) :
    OnOwn file' t pages :=
  ⟨h.first, h.onPages.congr hkept⟩

theorem subset_of_visited (hvisited : Visited env file frames) (h : OnPages file pages text)
    (hhead : frames.head? = pages.head?) : frames ⊆ pages := by
  induction frames generalizing pages text with
  | nil => exact List.nil_subset pages
  | cons p frames ih =>
    cases pages with
    | nil => cases hhead
    | cons p' pages =>
      obtain rfl : p = p' := Option.some.inj hhead
      cases frames with
      | nil => exact List.cons_subset_cons p (List.nil_subset pages)
      | cons q frames =>
        obtain ⟨-, hnext, -, hrest⟩ := hvisited
        cases pages with
        | nil =>
          have hlast := h.last
          omega
        | cons q' pages =>
          have hnext' := h.next
          have hq : q = q' := by omega
          exact List.cons_subset_cons p (ih hrest h.tail (congrArg some hq))

theorem Held.congr (h : Held s) (hzero : s'.handler.file.header.Allocated 0)
    (htexts : ∀ i t, s'.texts i = some t → s.texts i = some t) (hcount : s'.count = s.count)
    (hkept : ∀ i t pages, s'.texts i = some t → OnOwn s.handler.file t pages → ∀ q ∈ pages,
      s'.handler.file.header.Allocated q ∧
        s'.handler.file.pages q = s.handler.file.pages q) : Held s' where
  zero := hzero
  numbered i t ht := hcount ▸ h.numbered i t (htexts i t ht)
  onOwn i t ht := by
    obtain ⟨pages, hpages⟩ := h.onOwn i t (htexts i t ht)
    exact ⟨pages, hpages.congr (hkept i t pages ht hpages)⟩
  apart i j t u pages pages' ht hu hne hpages hpages' := by
    obtain ⟨own, hown⟩ := h.onOwn i t (htexts i t ht)
    obtain ⟨own', hown'⟩ := h.onOwn j u (htexts j u hu)
    obtain rfl := (hown.congr (hkept i t own ht hown)).unique hpages
    obtain rfl := (hown'.congr (hkept j u own' hu hown')).unique hpages'
    exact h.apart i j t u _ _ (htexts i t ht) (htexts j u hu) hne hown hown'

theorem Held.readsBack (h : Held s) : ∀ i t, s.texts i = some t → ReadsBack s.handler.file t := by
  intro i t ht
  obtain ⟨pages, hpages⟩ := h.onOwn i t ht
  exact hpages.readsBack

/-! ## One call -/

/-- Where a text is, the texts that are held are not any more once it has been deleted. -/
theorem Held.erase (h : Held s) {pages : List Nat} (hnumber : s.texts number = some t)
    (hown : OnOwn s.handler.file t pages) (hframes : frames ⊆ pages) :
    Held { s with
      handler := ⟨disposed env.stored s.handler.file frames, s.handler.pins⟩
      texts := Function.update s.texts number none } := by
  have hheld (i : Nat) (u : Int × List UInt8)
      (hu : Function.update s.texts number none i = some u) : i ≠ number ∧ s.texts i = some u := by
    rcases eq_or_ne i number with rfl | hne
    · rw [Function.update_self] at hu
      cases hu
    · rw [Function.update_of_ne hne] at hu
      exact ⟨hne, hu⟩
  refine h.congr ?_ (fun i u hu => (hheld i u hu).2) rfl ?_
  · refine allocated_disposed.mpr ⟨h.zero, fun hmem => ?_⟩
    exact (hown.onPages.areText 0 (hframes hmem)).ne_zero rfl
  · intro i u own hu hown' q hq
    obtain ⟨hne, hu⟩ := hheld i u hu
    have hout := h.apart i number u t own pages hu hnumber hne hown' hown q hq
    have halloc := (hown'.onPages.areText q hq).allocated
    exact ⟨allocated_disposed.mpr ⟨halloc, fun hmem => hout (hframes hmem)⟩,
      pages_disposed fun hmem => hout (hframes hmem)⟩

/-- Whatever the deletion of a text comes across, the other texts stay. -/
theorem Held.delete (h : Held s) (hcall : s.delete env number = some s') : Held s' := by
  unfold TextStore.delete at hcall
  cases hnumber : s.texts number with
  | none =>
    rw [hnumber] at hcall
    cases hcall
    exact h
  | some t =>
    obtain ⟨pages, hown⟩ := h.onOwn number t hnumber
    rw [hnumber] at hcall
    dsimp only at hcall
    cases hdelete : s.handler.deleteText env t.1 with
    | none =>
      rw [hdelete] at hcall
      cases hcall
    | some after =>
      obtain ⟨result, handler⟩ := after
      rw [hdelete] at hcall
      rcases deleteText_cases hdelete with ⟨-, rfl, rc, rfl⟩ | ⟨-, hfile, rc, rfl⟩ |
        ⟨frames, hfirst, hvisited, -, rfl, rfl⟩
      · cases hcall
        exact h
      · cases hcall
        refine h.congr (hfile ▸ h.zero) (fun _ _ hu => hu) rfl fun i u own _ hown' q hq => ?_
        dsimp only
        rw [hfile]
        exact ⟨(hown'.onPages.areText q hq).allocated, rfl⟩
      · cases hcall
        refine h.erase hnumber hown (subset_of_visited hvisited hown.onPages ?_)
        rw [hfirst.2, hown.first.2]

/-- A text that has been written as a whole is held with the others. -/
theorem Held.hold (h : Held s) {first : Nat} {rest : List Nat}
    (hwrote : Wrote env s.handler.file none text (.ok ()) (first :: rest) file') :
    Held ⟨⟨file', s.handler.pins⟩,
      Function.update s.texts s.count (some ((first : Int), text)), s.count + 1⟩ := by
  have hheld (i : Nat) (u : Int × List UInt8)
      (hu : Function.update s.texts s.count (some ((first : Int), text)) i = some u) :
      i = s.count ∧ u = ((first : Int), text) ∨ i ≠ s.count ∧ s.texts i = some u := by
    rcases eq_or_ne i s.count with rfl | hne
    · rw [Function.update_self] at hu
      exact Or.inl ⟨rfl, (Option.some.inj hu).symm⟩
    · rw [Function.update_of_ne hne] at hu
      exact Or.inr ⟨hne, hu⟩
  have hnew : OnOwn file' ((first : Int), text) (first :: rest) := by
    have honPages := hwrote.onPages h.zero (List.cons_ne_nil _ _)
    rw [hwrote.whole rfl] at honPages
    exact ⟨⟨Int.natCast_nonneg _, rfl⟩, honPages⟩
  have hold (i : Nat) (u : Int × List UInt8) (hu : s.texts i = some u) (pages : List Nat)
      (hown : OnOwn s.handler.file u pages) : OnOwn file' u pages ∧ ∀ q ∈ pages,
        q ∉ first :: rest := by
    have halloc (q : Nat) (hq : q ∈ pages) := (hown.onPages.areText q hq).allocated
    refine ⟨hown.congr fun q hq => ⟨hwrote.allocated q (Or.inl (halloc q hq)), ?_⟩,
      fun q hq hmem => hwrote.fresh q hmem (halloc q hq)⟩
    exact hwrote.kept q (halloc q hq) (by rintro ⟨⟩)
  constructor
  · exact hwrote.allocated 0 (Or.inl h.zero)
  · intro i u hu
    rcases hheld i u hu with ⟨rfl, -⟩ | ⟨-, hu⟩
    · exact Nat.lt_succ_self _
    · exact Nat.lt_succ_of_lt (h.numbered i u hu)
  · intro i u hu
    rcases hheld i u hu with ⟨-, rfl⟩ | ⟨-, hu⟩
    · exact ⟨_, hnew⟩
    · obtain ⟨pages, hown⟩ := h.onOwn i u hu
      exact ⟨pages, (hold i u hu pages hown).1⟩
  · intro i j u v pages pages' hu hv hne hpages hpages' q hq hq'
    rcases hheld i u hu with ⟨hi, rfl⟩ | ⟨-, hu⟩
    · rcases hheld j v hv with ⟨hj, -⟩ | ⟨-, hv⟩
      · exact hne (hi.trans hj.symm)
      · obtain ⟨own, hown⟩ := h.onOwn j v hv
        obtain ⟨hown', hout⟩ := hold j v hv own hown
        obtain rfl := hown'.unique hpages'
        obtain rfl := hnew.unique hpages
        exact hout q hq' hq
    · obtain ⟨own, hown⟩ := h.onOwn i u hu
      obtain ⟨hown', hout⟩ := hold i u hu own hown
      obtain rfl := hown'.unique hpages
      rcases hheld j v hv with ⟨hj, rfl⟩ | ⟨-, hv⟩
      · obtain rfl := hnew.unique hpages'
        exact hout q hq hq'
      · obtain ⟨own', hown''⟩ := h.onOwn j v hv
        obtain rfl := (hold j v hv own' hown'').1.unique hpages'
        exact h.apart i j u v _ _ hu hv hne hown hown'' q hq hq'

/-- Without a first page, and with none to be used again, nothing happens. -/
theorem writeText_of_no_page {handler : TextFileHandler} (htext : text ≠ [])
    (hroom : hasRoom env 1 handler.file = false) (hfree : handler.file.header.freePage = none) :
    ∃ rc, handler.writeText env text = (.error rc, handler) := by
  obtain ⟨rc, file', halloc⟩ := allocatePage_of_hasRoom hroom
  obtain ⟨-, hfile⟩ := allocatePage_error halloc
  rw [hfree] at hfile
  obtain rfl : file' = handler.file := hfile
  exact ⟨rc, writeText_of_error htext halloc⟩

/-- A text that fits is held with the others, or nothing has happened. -/
theorem Held.write (h : Held s) (hfits : Fits s (.writeText env text)) :
    Held (s.write env text) := by
  obtain ⟨htext, hroom | ⟨hroom, hfree⟩⟩ := hfits
  · obtain ⟨result, frames, file', heq, hwrote⟩ := @writeText_spec env text s.handler
    obtain rfl := hwrote.room.mp hroom
    unfold TextStore.write
    rw [heq]
    cases frames with
    | nil => exact absurd (hwrote.whole rfl).symm htext
    | cons first rest => exact h.hold hwrote
  · obtain ⟨rc, heq⟩ := writeText_of_no_page htext hroom hfree
    unfold TextStore.write
    rw [heq]
    exact h

theorem not_readsBack : ¬ ReadsBack file (-1, text) := by
  rintro ⟨rounds, hread⟩
  cases rounds <;> cases hread

/-- A text can be kept exactly if it fits. -/
theorem fits_of_keepsTexts (hkeeps : KeepsTexts s (.writeText env text)) :
    Fits s (.writeText env text) := by
  obtain ⟨hback, hfails⟩ := hkeeps
  constructor
  · rintro rfl
    have hread := hback (s.write env []) rfl s.count (-1, []) (Function.update_self _ _ _)
    exact not_readsBack hread
  · cases hroom : hasRoom env (TextFile.textPages text) s.handler.file with
    | true => exact Or.inl rfl
    | false =>
      right
      obtain ⟨rc, after, hwrite, halloc, -⟩ := hfails env text rfl hroom
      have htext : text ≠ [] := by
        rintro rfl
        rw [textPages_nil] at hroom
        cases hroom
      cases hfirst : hasRoom env 1 s.handler.file with
      | true =>
        -- the return code of the loop has been replaced
        obtain ⟨_, first, _, _, heq, -⟩ := writeText_of_room htext hfirst
        rw [heq] at hwrite
        cases hwrite
      | false =>
        obtain ⟨rc', file', herror⟩ := allocatePage_of_hasRoom hfirst
        rw [writeText_of_error htext herror] at hwrite
        cases hwrite
        refine ⟨rfl, Option.not_isSome_iff_eq_none.mp fun hfree => ?_⟩
        -- a page has been taken and lost
        obtain ⟨-, hlost⟩ := allocatePage_error herror
        rw [if_pos hfree] at hlost
        obtain ⟨i, hnot, hallocated⟩ := hlost
        exact hnot ((halloc i).mp ((hallocated i).mpr (Or.inr rfl)))

/-- Texts that are held are kept by a call exactly if a text that it writes fits. -/
theorem keepsTexts_iff (h : Held s) : KeepsTexts s c ↔ Fits s c := by
  cases c with
  | writeText env text =>
    refine ⟨fits_of_keepsTexts, fun hfits => ⟨?_, ?_⟩⟩
    · rintro _ ⟨⟩
      exact (h.write hfits).readsBack
    · rintro _ _ ⟨⟩ hroom
      obtain ⟨htext, hroom' | ⟨hfirst, hfree⟩⟩ := hfits
      · rw [hroom] at hroom'
        cases hroom'
      · obtain ⟨rc, heq⟩ := writeText_of_no_page htext hfirst hfree
        exact ⟨rc, s.handler, heq, fun _ => Iff.rfl, rfl⟩
  | deleteText env number =>
    refine iff_of_true ⟨fun s' hcall => (h.delete hcall).readsBack, ?_⟩ trivial
    rintro _ _ ⟨⟩

theorem Held.call (h : Held s) (hfits : Fits s c) (hcall : s.call c = some s') : Held s' := by
  cases c with
  | writeText env text =>
    cases hcall
    exact h.write hfits
  | deleteText env number => exact h.delete hcall

/-- In a run of calls on a text file, of which the texts that are held are on pages of their own,
all of them are read back after each call exactly if each text that is written fits. -/
theorem readBack_iff (h : Held s) (calls : List TextCall) :
    (∀ t ∈ taken TextStore.call s calls, KeepsTexts t.1 t.2) ↔
      ∀ t ∈ taken TextStore.call s calls, Fits t.1 t.2 := by
  apply @forall_taken_iff _ _ TextStore.call KeepsTexts Fits Held
  · intro s c hheld
    exact keepsTexts_iff hheld
  · intro s c s' hheld hkeeps hcall
    exact hheld.call ((keepsTexts_iff hheld).mp hkeeps) hcall
  · exact h

/-- A new file, in which no text is held. -/
def newStore : TextStore := ⟨.new, fun _ => none, 0⟩

theorem held_newStore : Held newStore where
  zero := by decide
  numbered i t ht := by cases ht
  onOwn i t ht := by cases ht
  apart i j t u pages pages' ht := by cases ht

/-- A text is written, another one on two pages, and the second one is deleted. -/
theorem readBack_written :
    Held newStore ∧ ∀ t ∈ taken TextStore.call newStore
      [.writeText .quiet [7], .writeText .quiet TextFile.longText, .deleteText .quiet 1],
      KeepsTexts t.1 t.2 := by
  refine ⟨held_newStore, (readBack_iff held_newStore _).mpr ?_⟩
  refine List.forall_mem_cons.mpr ⟨⟨by decide, Or.inl (by decide)⟩, ?_⟩
  refine List.forall_mem_cons.mpr ⟨⟨?_, Or.inl ?_⟩, ?_⟩
  · apply List.ne_nil_of_length_pos
    rw [TextFile.length_longText]
    decide
  · rw [TextFile.textPages_longText]
    decide
  · rintro ⟨s, c⟩ ht
    obtain rfl : c = .deleteText .quiet 1 := List.mem_singleton.mp (mem_of_mem_taken ht)
    exact trivial

/-- The text without a byte is on no page. -/
theorem not_readBack_empty :
    ¬ ∀ t ∈ taken TextStore.call newStore [.writeText .quiet []], KeepsTexts t.1 t.2 := by
  intro hall
  obtain ⟨hback, -⟩ := hall _ List.mem_cons_self
  exact not_readsBack (hback _ rfl 0 (-1, []) rfl)

end TextStore

end ObHtap
