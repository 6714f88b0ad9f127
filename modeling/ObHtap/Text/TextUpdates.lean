import ObHtap.Text.TextDeletes

/-!
# Updating a text

`update_text` deletes the old text and writes the new one.  It has no way back once the old text is
gone, and no text can take the place of none: the number of no page is -1, which can't be deleted.
-/

namespace ObHtap

namespace TextFileHandler

/-- `update_text` frees the pages of the old text, and has those of the new one allocated, or has
no effect; where there is no old text it succeeds. -/
def UpdatesText (env : PoolOutcomes) (s : TextFileHandler) (inPage : Int) (text : List UInt8) :
    Prop :=
  ∃ result s', updateText env s inPage text = some (result, s') ∧
    (inPage = -1 → ∃ outPage, result = .ok outPage) ∧
    ((∃ rc, result = .error rc) → Unchanged s s') ∧
    ∀ outPage, result = .ok outPage → ∃ old new, IsText s.file inPage old ∧
      (text = [] ∧ outPage = -1 ∧ new = [] ∨ IsText s'.file outPage new) ∧ Replaced s s' old new

/-- There is a page for the new text when the old one is gone, if it has to be on one, and no page
is lost. -/
def Replaceable (env : PoolOutcomes) (file : TextFile) (text : List UInt8) : Prop :=
  (text = [] ∨ hasRoom env 1 file = true) ∧ losesPage env (TextFile.textPages text) file = false

/-- The page alone has been freed, is taken again and can't be read any more; the disk has of it
what the frame had. -/
structure Retaken (env : PoolOutcomes) (s : TextFileHandler) (p : Nat) (text : List UInt8) :
    Prop where
  visited : Visited env s.file [p]
  allocated : s.file.header.Allocated p
  load : env.load p = .ok ()
  unpinned : s.pinCount env p = 0
  nonempty : text ≠ []
  free : (disposed env.stored s.file [p]).header.freePage = some p
  unreadable : ∃ rc, env.reload p = .error rc
  stored : env.stored p = s.file.pages p

variable {env : PoolOutcomes} {s s' : TextFileHandler} {file file' : TextFile} {p : Nat}
  {pageNum : Int} {frames pages : List Nat} {text : List UInt8}

/-- What is allocated after a new text has been written in place of an old one. -/
theorem replaced_of_wrote {result : Except RC Unit} {new : List Nat} {file' : TextFile}
    (h : Wrote env (disposed env.stored s.file pages) none text result new file')
    (hkeeps : losesPage env (TextFile.textPages text) (disposed env.stored s.file pages) = false) :
    Replaced s ⟨file', s.pins⟩ pages new where
  allocated q := by
    rw [← allocated_disposed]
    exact ⟨h.exact hkeeps q, h.allocated q⟩
  content q hq hout :=
    (h.kept q (allocated_disposed.mpr ⟨hq, hout⟩) (by rintro ⟨⟩)).trans (pages_disposed hout)
  pins := rfl

/-- An update that only frees the old text and fails has an effect, unless the page that it has
freed is taken again. -/
theorem retaken_of_unchanged {rc : RC} (hfirst : IsFirst pageNum frames)
    (hvisited : Visited env s.file frames)
    (hframes : ∀ q ∈ frames, env.load q = .ok () ∧ s.pinCount env q = 0) (htext : text ≠ [])
    (halloc : allocatePage env (disposed env.stored s.file frames) = (.error rc, file))
    (h : Unchanged s ⟨file, s.pins⟩) : ∃ p : Nat, pageNum = p ∧ Retaken env s p text := by
  obtain ⟨p, rest, rfl, rfl⟩ := hfirst.natCast
  have hcount := h.allocatedPages
  have hdisposed := @allocatedPages_disposed s.file (p :: rest) env.stored
  rw [List.length_cons] at hdisposed
  unfold allocatePage at halloc
  cases hfree : (disposed env.stored s.file (p :: rest)).header.freePage with
  | none =>
    -- one page less is allocated
    simp only [hfree] at halloc
    have hsame : file = disposed env.stored s.file (p :: rest) := by
      split_ifs at halloc
      · exact (Prod.mk.inj halloc).2.symm
      · split at halloc
        · cases halloc
        · exact (Prod.mk.inj halloc).2.symm
    rw [hsame] at hcount
    dsimp only at hcount
    omega
  | some i =>
    simp only [hfree] at halloc
    split at halloc
    · cases halloc
    · next rc' hreload =>
      obtain ⟨-, rfl⟩ := Prod.mk.inj halloc
      have hlength : rest = [] := by
        change (disposed env.stored s.file (p :: rest)).header.allocatedPages + 1 = _ at hcount
        exact List.eq_nil_of_length_eq_zero (by omega)
      subst hlength
      -- the page that is taken was allocated
      have htaken : s.file.header.Allocated i := by
        have hreused := (h.replaced.allocated i).mp
          ((BPFileHeader.allocated_reuse hfree).mpr (Or.inr rfl))
        exact (hreused.resolve_right List.not_mem_nil).1
      have hnot : ¬ (disposed env.stored s.file [p]).header.Allocated i := by
        rintro ⟨-, hbit⟩
        rw [(BPFileHeader.freePage_eq_some hfree).2] at hbit
        cases hbit
      have hip : i = p := by
        by_contra hne
        exact hnot (allocated_disposed.mpr ⟨htaken, fun hmem => hne (List.mem_singleton.mp hmem)⟩)
      subst hip
      have hkept := h.replaced.content i htaken List.not_mem_nil
      have hstored : (disposed env.stored s.file [i]).pages i = env.stored i :=
        if_pos List.mem_cons_self
      exact ⟨i, rfl, hvisited, htaken, (hframes i List.mem_cons_self).1,
        (hframes i List.mem_cons_self).2, htext, hfree, ⟨rc', hreload⟩,
        hstored.symm.trans hkept⟩

/-- The new text is on the pages that have been written, as their first one is the page number. -/
theorem eq_of_isText {first : Nat} {rest new : List Nat} {result : Except RC Unit}
    (h : Wrote env file none text result (first :: rest) file') (hnew : IsText file' first new) :
    new = first :: rest := by
  obtain ⟨hfirst, text', hpages⟩ := hnew
  refine hpages.links.eq_of_head (h.links (List.cons_ne_nil _ _)) ?_
  rw [hfirst.2, Int.toNat_natCast]
  rfl

/-- What is left of the old text when it has not been deleted as a whole would be on the pages of
the new one, which have been free. -/
theorem deletable_of_replaced {old new : List Nat} {result : Except RC Unit}
    (hframes : ∀ q ∈ frames, env.load q = .ok () ∧ s.pinCount env q = 0)
    (hold : IsText s.file pageNum old)
    (h : Wrote env (disposed env.stored s.file frames) none text result new file')
    (hreplaced : Replaced s ⟨file', s.pins⟩ old new) : Deletable env s pageNum old := by
  obtain ⟨hfirst, text', hpages⟩ := hold
  have hsub : old ⊆ frames := by
    intro q hq
    by_contra hout
    have halloc : (disposed env.stored s.file frames).header.Allocated q :=
      allocated_disposed.mpr ⟨(hpages.areText q hq).allocated, hout⟩
    rcases (hreplaced.allocated q).mp (h.allocated q (Or.inl halloc)) with ⟨-, hnot⟩ | hnew
    · exact hnot hq
    · exact h.fresh q hnew halloc
  exact ⟨hfirst, ⟨text', hpages⟩, fun q hq => (hframes q (hsub hq)).1,
    fun q hq => (hframes q (hsub hq)).2⟩

/-- A page that is neither of the old text nor of the new one is not lost. -/
theorem keeps_of_replaced {new : List Nat} {result : Except RC Unit}
    (h : Wrote env (disposed env.stored s.file pages) none text result new file')
    (hreplaced : Replaced s ⟨file', s.pins⟩ pages new) :
    losesPage env (TextFile.textPages text) (disposed env.stored s.file pages) = false := by
  by_contra hloses
  obtain ⟨q, halloc, hnot, hout⟩ := h.lost (Bool.not_eq_false _ ▸ hloses)
  rcases (hreplaced.allocated q).mp halloc with hkept | hnew
  · exact hnot (allocated_disposed.mpr hkept)
  · exact hout hnew

theorem updateText_of_deleteText (h : deleteText env s pageNum = some (.ok (), s')) :
    updateText env s pageNum text = some (writeText env s' text) := by
  unfold updateText
  rw [h]

/-- The old text is deleted and the new one, which has room, is written. -/
theorem updatesText_of_replaceable (hzero : s.file.header.Allocated 0) (hne : pageNum ≠ -1)
    (hpages : Deletable env s pageNum pages)
    (hreplaceable : Replaceable env (disposed env.stored s.file pages) text) :
    UpdatesText env s pageNum text := by
  obtain ⟨hroom, hkeeps⟩ := hreplaceable
  obtain ⟨text', honPages⟩ := hpages.onPages
  have hcall := @updateText_of_deleteText env _ _ _ text (deleteText_of_deletable hpages)
  have hold : IsText s.file pageNum pages := ⟨hpages.first, hpages.onPages⟩
  by_cases htext : text = []
  · subst htext
    rw [writeText_nil] at hcall
    refine ⟨_, _, hcall, fun h => absurd h hne, (by rintro ⟨rc, ⟨⟩⟩), ?_⟩
    rintro _ ⟨⟩
    exact ⟨pages, [], hold, Or.inl ⟨rfl, rfl, rfl⟩, replaced_of_wrote wrote_nil hkeeps⟩
  · obtain ⟨result, first, rest, file', hwrite, hwrote⟩ :=
      @writeText_of_room env text ⟨disposed env.stored s.file pages, s.pins⟩ htext
        (hroom.resolve_left htext)
    rw [hwrite] at hcall
    refine ⟨_, _, hcall, fun h => absurd h hne, (by rintro ⟨rc, ⟨⟩⟩), ?_⟩
    rintro _ ⟨⟩
    have hzero' : (disposed env.stored s.file pages).header.Allocated 0 :=
      allocated_disposed.mpr ⟨hzero, fun hmem => (honPages.areText 0 hmem).ne_zero rfl⟩
    have hnew : IsFirst first (first :: rest) := ⟨Int.natCast_nonneg _, rfl⟩
    exact ⟨pages, first :: rest, hold,
      Or.inr ⟨hnew, _, hwrote.onPages hzero' (List.cons_ne_nil _ _)⟩,
      replaced_of_wrote hwrote hkeeps⟩

/-- The page that has been freed is allocated again when the error comes. -/
theorem updatesText_of_retaken (h : Retaken env s p text) : UpdatesText env s p text := by
  obtain ⟨hvisited, hallocated, hload, hunpinned, htext, hfree, ⟨rc, hreload⟩, hstored⟩ := h
  have hdelete := deleteText_of_visited hvisited (List.nodup_singleton p)
    (List.forall_mem_singleton.mpr hallocated) (List.forall_mem_singleton.mpr hload)
    (List.forall_mem_singleton.mpr hunpinned)
  have hcall := @updateText_of_deleteText env _ _ _ text hdelete
  have halloc : allocatePage env (disposed env.stored s.file [p]) = (.error rc,
      { disposed env.stored s.file [p] with header := (disposed env.stored s.file [p]).header.reuse p }) := by
    unfold allocatePage
    simp only [hfree, hreload]
  rw [writeText_of_error htext halloc] at hcall
  have hcontent (q : Nat) : (disposed env.stored s.file [p]).pages q = s.file.pages q := by
    by_cases hq : q ∈ [p]
    · obtain rfl := List.mem_singleton.mp hq
      exact (if_pos hq).trans hstored
    · exact pages_disposed hq
  refine ⟨_, _, hcall, (by omega), fun _ => ⟨⟨fun q => ?_, fun q _ _ => hcontent q, rfl⟩, ?_⟩,
    (by rintro _ ⟨⟩)⟩
  · have hreuse := @BPFileHeader.allocated_reuse _ p q hfree
    rw [allocated_disposed, List.mem_singleton] at hreuse
    rw [or_iff_left List.not_mem_nil, and_iff_left List.not_mem_nil]
    refine hreuse.trans ⟨?_, fun hq => ?_⟩
    · rintro (⟨hq, -⟩ | rfl)
      · exact hq
      · exact hallocated
    · by_cases hqp : q = p
      · exact Or.inr hqp
      · exact Or.inl ⟨hq, hqp⟩
  · have hcount := @allocatedPages_disposed s.file [p] env.stored
    change (disposed env.stored s.file [p]).header.allocatedPages + 1 = _
    rw [hcount]
    exact Int.sub_add_cancel _ _

/-- What a proper update has come across when it has deleted pages and written a text. -/
theorem replaceable_of_updated {result : Except RC Int} (hfirst : IsFirst pageNum frames)
    (hvisited : Visited env s.file frames)
    (hframes : ∀ q ∈ frames, env.load q = .ok () ∧ s.pinCount env q = 0)
    (hdelete : deleteText env s pageNum = some (.ok (), ⟨disposed env.stored s.file frames, s.pins⟩))
    (hwrite : writeText env ⟨disposed env.stored s.file frames, s.pins⟩ text = (result, s'))
    (herror : (∃ rc, result = .error rc) → Unchanged s s')
    (hok : ∀ outPage, result = .ok outPage → ∃ old new, IsText s.file pageNum old ∧
      (text = [] ∧ outPage = -1 ∧ new = [] ∨ IsText s'.file outPage new) ∧
      Replaced s s' old new) :
    (∃ pages, Deletable env s pageNum pages ∧ Replaceable env (disposed env.stored s.file pages) text) ∨
      ∃ p : Nat, pageNum = p ∧ Retaken env s p text := by
  by_cases htext : text = []
  · -- nothing is written
    subst htext
    rw [writeText_nil] at hwrite
    obtain ⟨rfl, rfl⟩ := Prod.mk.inj hwrite
    obtain ⟨old, new, hold, hnew, hreplaced⟩ := hok _ rfl
    have hnil : new = [] := by
      rcases hnew with ⟨-, -, rfl⟩ | hnew
      · rfl
      · exact absurd hnew.1.1 (by decide)
    subst hnil
    have hdeletable := deletable_of_replaced hframes hold wrote_nil hreplaced
    exact Or.inl ⟨old, hdeletable, Or.inl rfl, by rw [textPages_nil]; rfl⟩
  · cases hroom : hasRoom env 1 (disposed env.stored s.file frames) with
    | false =>
      obtain ⟨rc, file', halloc⟩ := allocatePage_of_hasRoom hroom
      have heq := @writeText_of_error env file' text rc ⟨disposed env.stored s.file frames, s.pins⟩
        htext halloc
      rw [heq] at hwrite
      obtain ⟨rfl, rfl⟩ := Prod.mk.inj hwrite
      exact Or.inr (retaken_of_unchanged hfirst hvisited hframes htext halloc
        (herror ⟨rc, rfl⟩))
    | true =>
      obtain ⟨result', first, rest, file', heq, hwrote⟩ :=
        @writeText_of_room env text ⟨disposed env.stored s.file frames, s.pins⟩ htext hroom
      rw [heq] at hwrite
      obtain ⟨rfl, rfl⟩ := Prod.mk.inj hwrite
      obtain ⟨old, new, hold, hnew, hreplaced⟩ := hok _ rfl
      have hnew' : IsText file' first new := hnew.resolve_left fun hnil => htext hnil.1
      obtain rfl := eq_of_isText hwrote hnew'
      have hdeletable := deletable_of_replaced hframes hold hwrote hreplaced
      -- the pages that have been freed are those of the old text
      have hsame := (deleteText_of_deletable hdeletable).symm.trans hdelete
      have hfile : disposed env.stored s.file old = disposed env.stored s.file frames :=
        congrArg (fun after => after.2.file) (Option.some.inj hsame)
      rw [← hfile] at hwrote hroom
      exact Or.inl ⟨old, hdeletable, Or.inr hroom, keeps_of_replaced hwrote hreplaced⟩

/-- Nothing is updated that is not on pages; otherwise the update is proper where the deletion is
refused or proper, and the new text has a first page and loses none. -/
theorem updatesText_iff (hzero : s.file.header.Allocated 0) : UpdatesText env s pageNum text ↔
    pageNum ≠ -1 ∧ (Refuses env s pageNum ∨
      (∃ pages, Deletable env s pageNum pages ∧ Replaceable env (disposed env.stored s.file pages) text) ∨
      ∃ p : Nat, pageNum = p ∧ Retaken env s p text) := by
  constructor
  · rintro ⟨result, s', hcall, hempty, herror, hok⟩
    unfold updateText at hcall
    refine ⟨?_, ?_⟩
    · rintro rfl
      obtain ⟨outPage, rfl⟩ := hempty rfl
      have hrefused : deleteText env s (-1) = some (.error .ioerrSeek, s) := rfl
      rw [hrefused] at hcall
      cases hcall
    · cases hdelete : deleteText env s pageNum with
      | none =>
        rw [hdelete] at hcall
        cases hcall
      | some after =>
        obtain ⟨deleted, s₁⟩ := after
        rw [hdelete] at hcall
        rcases deleteText_cases hdelete with ⟨hrefused, -, -⟩ | ⟨hpins, -, rc, rfl⟩ |
          ⟨frames, hfirst, hvisited, hframes, rfl, rfl⟩
        · exact Or.inl hrefused
        · cases hcall
          exact absurd (herror ⟨rc, rfl⟩).replaced.pins hpins
        · exact Or.inr (replaceable_of_updated hfirst hvisited hframes hdelete
            (Option.some.inj hcall) herror hok)
  · rintro ⟨hne, hrefused | ⟨pages, hpages, hreplaceable⟩ | ⟨p, rfl, hretaken⟩⟩
    · obtain ⟨rc, hdelete⟩ := deleteText_of_refuses hrefused
      refine ⟨.error rc, s, ?_, fun h => absurd h hne, fun _ => Unchanged.rfl, (by rintro _ ⟨⟩)⟩
      unfold updateText
      rw [hdelete]
    · exact updatesText_of_replaceable hzero hne hpages hreplaceable
    · exact updatesText_of_retaken hretaken

end TextFileHandler

/-! ## Where every request is served -/

namespace TextFile

open TextFileHandler

variable {file : TextFile} {stored : Nat → TextPage} {pageNum : Int} {pages : List Nat}
  {text old : List UInt8} {p : Nat}

/-- `delete_text` comes across the pages of a text, by induction on them. -/
theorem collect_of_onPages {rounds : Nat} (h : OnPages file (p :: pages) text)
    (hrounds : pages.length < rounds) : file.collect rounds p = some (.ok (p :: pages)) := by
  induction pages generalizing p text rounds with
  | nil =>
    obtain ⟨rounds, rfl⟩ := Nat.exists_eq_succ_of_ne_zero (Nat.ne_of_gt hrounds)
    have hpage := h.areText p List.mem_cons_self
    rw [collect, getThisPage_of_allocated hpage.ne_zero hpage.allocated]
    dsimp only
    rw [if_neg (by rw [hpage.valid]; decide), if_pos h.last, Int.toNat_natCast]
  | cons q pages ih =>
    obtain ⟨rounds, rfl⟩ := Nat.exists_eq_succ_of_ne_zero (Nat.ne_of_gt (Nat.zero_lt_of_lt hrounds))
    have hpage := h.areText p List.mem_cons_self
    have hrest := ih h.tail (Nat.lt_of_succ_lt_succ hrounds)
    rw [collect, getThisPage_of_allocated hpage.ne_zero hpage.allocated]
    dsimp only
    rw [if_neg (by rw [hpage.valid]; decide), h.next, if_neg (by omega), hrest, Int.toNat_natCast]
    rfl

theorem disposePages_of_ne_zero (h : ∀ q ∈ pages, q ≠ 0) :
    file.disposePages stored pages = (.ok (), disposed stored file pages) := by
  induction pages generalizing file with
  | nil => rfl
  | cons q pages ih =>
    obtain ⟨hq, hpages⟩ := List.forall_mem_cons.mp h
    rw [disposePages, disposePage, if_neg hq]
    dsimp only
    rw [ih hpages, disposed_dispose]

/-- The pages of a text are disposed of. -/
theorem deleteText_of_onPages (h : OnPages file pages old) (hfirst : IsFirst pageNum pages) :
    file.deleteText stored pageNum = some (.ok (), disposed stored file pages) := by
  obtain ⟨p, rest, rfl, rfl⟩ := hfirst.natCast
  have hpage := h.areText p List.mem_cons_self
  have hrounds : rest.length < file.header.pageCount := by
    have hsub : p :: rest ⊆ List.range file.header.pageCount := fun q hq =>
      List.mem_range.mpr (h.areText q hq).allocated.1
    have hle := (List.subperm_of_subset h.links.nodup hsub).length_le
    rw [List.length_range, List.length_cons] at hle
    exact hle
  rw [deleteText, getThisPage_of_allocated hpage.ne_zero hpage.allocated]
  dsimp only
  rw [collect_of_onPages h hrounds]
  dsimp only
  rw [disposePages_of_ne_zero fun q hq => (h.areText q hq).ne_zero]

/-- The old text is on pages, and there are pages for the new one when those are free. -/
structure CanReplace (file : TextFile) (stored : Nat → TextPage) (pageNum : Int)
    (text : List UInt8) (pages : List Nat) : Prop where
  zero : file.header.Allocated 0
  first : IsFirst pageNum pages
  onPages : ∃ old, OnPages file pages old
  nonempty : text ≠ []
  room : hasRoom (textPages text) (disposed stored file pages) = true

/-- The new text is on a chain, and the pages that are not of the old one are as they were. -/
def Replaces (file file' : TextFile) (oldPage newPage : Int) (text : List UInt8) : Prop :=
  file'.Chain newPage text ∧ ∃ pages, IsFirst oldPage pages ∧ (∃ old, OnPages file pages old) ∧
    Keeps file file' (· ∉ pages)

theorem updateText_of_canReplace (h : CanReplace file stored pageNum text pages) :
    ∃ newPage file', file.updateText stored pageNum text = some (.ok newPage, file') ∧
      Replaces file file' pageNum newPage text := by
  obtain ⟨hzero, hfirst, ⟨old, honPages⟩, htext, hroom⟩ := h
  have hzero' : (disposed stored file pages).header.Allocated 0 :=
    allocated_disposed.mpr ⟨hzero, fun hmem => (honPages.areText 0 hmem).ne_zero rfl⟩
  obtain ⟨hkeeps, hchain⟩ := writeText_spec hzero' text
  have hok : ((disposed stored file pages).writeText text).1 = .ok () := by
    rw [textPages_drop htext, hasRoom] at hroom
    rw [writeText, if_neg htext]
    split at hroom
    · cases hroom
    · rfl
  refine ⟨_, _, ?_, hchain htext (fun _ => hroom) hok, pages, hfirst, ⟨old, honPages⟩, ?_⟩
  · have hwrite : (disposed stored file pages).writeText text =
        (.ok (), ((disposed stored file pages).writeText text).2) := Prod.ext hok rfl
    rw [updateText, deleteText_of_onPages honPages hfirst]
    dsimp only
    rw [hwrite]
  · intro q hq hout
    obtain ⟨halloc, hpage⟩ := hkeeps q (allocated_disposed.mpr ⟨hq, hout⟩) trivial
    exact ⟨halloc, hpage.trans (pages_disposed hout)⟩

end TextFile

/-! ## The calls -/

/-- A call that frees a text. -/
inductive FreeingCall
  | deleteText (pageNum : Int)
  | updateText (inPage : Int) (text : List UInt8)

namespace FreeingCall

open TextFileHandler

/-- The call frees exactly one text, or has no effect. -/
def FreesOne (env : PoolOutcomes) (s : TextFileHandler) : FreeingCall → Prop
  | .deleteText pageNum => DeletesText env s pageNum
  | .updateText inPage text => UpdatesText env s inPage text

/-- The text can be read up to its end and is pinned by nobody, or nothing is done; for an update
there is a text, and there is room for the new one, which loses no page. -/
def Safe (env : PoolOutcomes) (s : TextFileHandler) : FreeingCall → Prop
  | .deleteText pageNum => Refuses env s pageNum ∨ ∃ pages, Deletable env s pageNum pages
  | .updateText inPage text => inPage ≠ -1 ∧ (Refuses env s inPage ∨
      (∃ pages, Deletable env s inPage pages ∧ Replaceable env (disposed env.stored s.file pages) text) ∨
      ∃ p : Nat, inPage = p ∧ Retaken env s p text)

end FreeingCall

end ObHtap
