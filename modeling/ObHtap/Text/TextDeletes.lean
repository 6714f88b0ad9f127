import Mathlib.Data.List.Perm.Subperm
import ObHtap.Text.TextFileHandler

/-!
# Deleting a text

`delete_text` pins the pages of a text one after the other and then disposes of them.  It frees
exactly one text if it can follow it to its end; a page that can't be read in between cuts the text
in two, and an invalid page leaves the pages before it pinned.
-/

namespace ObHtap

namespace TextFileHandler

/-- The pages that `delete_text` comes across from a page on: it goes on to a page that it can
read. -/
def Visited (env : PoolOutcomes) (file : TextFile) : List Nat → Prop
  | [] => False
  | [p] => (file.pages p).valid = true ∧ ((file.pages p).nextPageNum = -1 ∨
      ∃ rc, getThisPage env file (file.pages p).nextPageNum = .error rc)
  | p :: q :: frames => (file.pages p).valid = true ∧ (file.pages p).nextPageNum = q ∧
      (∃ page, getThisPage env file q = .ok page) ∧ Visited env file (q :: frames)

/-- The file after pages have been disposed of. -/
def disposed (stored : Nat → TextPage) (file : TextFile) (pages : List Nat) : TextFile where
  header := pages.foldl BPFileHeader.dispose file.header
  pages q := if q ∈ pages then stored q else file.pages q

variable {env : PoolOutcomes} {s s' : TextFileHandler} {file : TextFile} {p q : Nat}
  {pageNum : Int} {page : TextPage} {frames pages : List Nat} {text : List UInt8}

/-! ## One call -/

theorem getThisPage_ok (h : getThisPage env file pageNum = .ok page) :
    0 ≤ pageNum ∧ env.load pageNum.toNat = .ok () ∧
      (pageNum ≠ 0 → page = file.pages pageNum.toNat) := by
  unfold getThisPage at h
  obtain ⟨found, hfound, h⟩ := bind_eq_ok h
  obtain ⟨_, hload, h⟩ := bind_eq_ok h
  cases h
  unfold TextFile.getThisPage at hfound
  split_ifs at hfound with hneg hend hzero
  · exact ⟨Int.not_lt.mp hneg, hload, fun hne => absurd hzero hne⟩
  · exact ⟨Int.not_lt.mp hneg, hload, fun _ => (Except.ok.inj hfound).symm⟩

theorem getThisPage_of_allocated (hne : p ≠ 0) (halloc : file.header.Allocated p)
    (hload : env.load p = .ok ()) : getThisPage env file p = .ok (file.pages p) := by
  unfold getThisPage
  rw [TextFile.getThisPage_of_allocated hne halloc, Int.toNat_natCast, hload]
  rfl

/-- By induction on the rounds: each page is pinned once, and by nobody else. -/
theorem collect_spec {rounds : Nat} {result : Except RC (List Nat)}
    (hpage : getThisPage env s.file p = .ok page) (hpin : 0 < s.pins p)
    (h : collect env rounds p page s = some (result, s')) :
    s'.file = s.file ∧ (∀ q, s.pins q ≤ s'.pins q) ∧ ∀ frames, result = .ok frames →
      frames.head? = some p ∧ Visited env s.file frames ∧
        (∀ q, s'.pins q + (if p = q then 1 else 0) = s.pins q + frames.count q) ∧
        ∀ q ∈ frames, q ≠ 0 ∧ s'.pinCount env q = 1 := by
  induction rounds generalizing p page s s' result with
  | zero => cases h
  | succ rounds ih =>
    obtain ⟨-, -, hcontent⟩ := getThisPage_ok hpage
    rw [collect] at h
    split_ifs at h with hvalid hcount hlast
    · obtain ⟨rfl, rfl⟩ := Prod.mk.inj (Option.some.inj h)
      exact ⟨rfl, fun _ => Nat.le_refl _, fun frames hok => by cases hok⟩
    · -- the text ends here
      obtain ⟨rfl, rfl⟩ := Prod.mk.inj (Option.some.inj h)
      have hone : s.pinCount env p = 1 := not_not.mp hcount
      have hne : p ≠ 0 := by
        rintro rfl
        have hheader := env.header_pinned
        unfold pinCount at hone
        omega
      have hsame : page = s.file.pages p := by
        rw [hcontent (by omega), Int.toNat_natCast]
      refine ⟨rfl, fun _ => Nat.le_refl _, ?_⟩
      rintro _ ⟨⟩
      refine ⟨rfl, ⟨by rw [← hsame]; simpa using hvalid, Or.inl (hsame ▸ hlast)⟩, ?_, ?_⟩
      · intro q
        rw [count_cons_eq, List.count_nil, Nat.zero_add]
      · intro q hq
        obtain rfl := List.mem_singleton.mp hq
        exact ⟨hne, hone⟩
    · have hone : s.pinCount env p = 1 := not_not.mp hcount
      have hne : p ≠ 0 := by
        rintro rfl
        have hheader := env.header_pinned
        unfold pinCount at hone
        omega
      have hsame : page = s.file.pages p := by
        rw [hcontent (by omega), Int.toNat_natCast]
      have hvalid' : (s.file.pages p).valid = true := by
        rw [← hsame]
        simpa using hvalid
      split at h
      case h_1 rc hnext =>
        -- the next page can't be read
        obtain ⟨rfl, rfl⟩ := Prod.mk.inj (Option.some.inj h)
        refine ⟨rfl, fun _ => Nat.le_refl _, ?_⟩
        rintro _ ⟨⟩
        refine ⟨rfl, ⟨hvalid', Or.inr ⟨rc, hsame ▸ hnext⟩⟩, ?_, ?_⟩
        · intro q
          rw [count_cons_eq, List.count_nil, Nat.zero_add]
        · intro q hq
          obtain rfl := List.mem_singleton.mp hq
          exact ⟨hne, hone⟩
      case h_2 next hnext =>
        obtain ⟨hnonneg, -, -⟩ := getThisPage_ok hnext
        have hcast : ((page.nextPageNum.toNat : Nat) : Int) = page.nextPageNum :=
          Int.toNat_of_nonneg hnonneg
        rw [← hcast] at hnext
        have hpinned : 0 < (s.pin page.nextPageNum.toNat).pins page.nextPageNum.toNat := by
          rw [pin_pins, if_pos rfl]
          omega
        cases hrest : collect env rounds page.nextPageNum.toNat next
            (s.pin page.nextPageNum.toNat) with
        | none =>
          rw [hrest] at h
          cases h
        | some after =>
          obtain ⟨result', s₁⟩ := after
          rw [hrest] at h
          obtain ⟨hfile, hmono, hok⟩ :=
            @ih (s.pin page.nextPageNum.toNat) s₁ page.nextPageNum.toNat next result' hnext hpinned
              hrest
          have hmono' (q : Nat) : s.pins q ≤ s₁.pins q := by
            have hle := hmono q
            rw [pin_pins] at hle
            omega
          cases result' with
          | error rc =>
            cases h
            exact ⟨hfile, hmono', fun frames hframes => by cases hframes⟩
          | ok frames =>
            cases h
            obtain ⟨hhead, hvisited, hpins, honce⟩ := hok frames rfl
            simp only [pin_pins] at hpins
            have hout : p ∉ frames := by
              intro hmem
              have htwice := (honce p hmem).2
              have hpos := List.count_pos_iff.mpr hmem
              have heq := hpins p
              unfold pinCount at htwice
              omega
            refine ⟨hfile, hmono', ?_⟩
            rintro _ ⟨⟩
            refine ⟨rfl, ?_, ?_, ?_⟩
            · cases frames with
              | nil => cases hhead
              | cons first frames =>
                obtain rfl := Option.some.inj hhead
                exact ⟨hvalid', hsame ▸ hcast.symm, ⟨next, hnext⟩, hvisited⟩
            · intro q
              have heq := hpins q
              rw [count_cons_eq]
              omega
            · intro q hq
              rcases List.mem_cons.mp hq with rfl | hmem
              · refine ⟨hne, ?_⟩
                have heq := hpins q
                rw [List.count_eq_zero_of_not_mem hout] at heq
                unfold pinCount at hone ⊢
                omega
              · exact honce q hmem

theorem Visited.forall_load (h : Visited env file frames)
    (hfirst : ∀ p, frames.head? = some p → env.load p = .ok ()) :
    ∀ q ∈ frames, env.load q = .ok () := by
  induction frames with
  | nil => exact List.forall_mem_nil _
  | cons p frames ih =>
    refine List.forall_mem_cons.mpr ⟨hfirst p rfl, ?_⟩
    cases frames with
    | nil => exact List.forall_mem_nil _
    | cons q frames =>
      refine ih h.2.2.2 ?_
      rintro _ ⟨⟩
      obtain ⟨page, hpage⟩ := h.2.2.1
      exact Int.toNat_natCast q ▸ (getThisPage_ok hpage).2.1

theorem allocated_disposed {stored : Nat → TextPage} {q : Nat} :
    (disposed stored file pages).header.Allocated q ↔ file.header.Allocated q ∧ q ∉ pages := by
  unfold disposed
  dsimp only
  generalize file.header = hdr
  induction pages generalizing hdr with
  | nil => exact (and_iff_left List.not_mem_nil).symm
  | cons p pages ih =>
    rw [List.foldl_cons, ih, BPFileHeader.allocated_dispose, List.mem_cons, not_or, and_assoc]

theorem allocatedPages_disposed {stored : Nat → TextPage} :
    (disposed stored file pages).header.allocatedPages =
      file.header.allocatedPages - pages.length := by
  unfold disposed
  dsimp only
  generalize file.header = hdr
  induction pages generalizing hdr with
  | nil => exact (Int.sub_zero _).symm
  | cons p pages ih =>
    rw [List.foldl_cons, ih, List.length_cons]
    change hdr.allocatedPages - 1 - _ = _
    omega

theorem disposed_dispose {stored : Nat → TextPage} :
    disposed stored (file.dispose stored p) pages = disposed stored file (p :: pages) := by
  refine congrArg (TextFile.mk (pages.foldl BPFileHeader.dispose (file.header.dispose p))) ?_
  funext q
  change (if q ∈ pages then _ else if q = p then _ else file.pages q) =
    if q ∈ p :: pages then stored q else file.pages q
  by_cases hq : q ∈ pages
  · rw [if_pos hq, if_pos (List.mem_cons_of_mem p hq)]
  · rw [if_neg hq]
    by_cases hqp : q = p
    · rw [if_pos hqp, hqp, if_pos List.mem_cons_self]
    · rw [if_neg hqp, if_neg fun hmem => (List.mem_cons.mp hmem).elim hqp hq]

theorem pages_disposed {stored : Nat → TextPage} {q : Nat} (h : q ∉ pages) :
    (disposed stored file pages).pages q = file.pages q :=
  if_neg h

/-- By induction on the pages: each is pinned once, which is undone before it is freed. -/
theorem disposePages_spec (hnodup : frames.Nodup)
    (hpinned : ∀ q ∈ frames, q ≠ 0 ∧ s.pinCount env q = 1 ∧ 0 < s.pins q) :
    disposePages env frames s =
      some (.ok (), ⟨disposed env.stored s.file frames, fun q => s.pins q - frames.count q⟩) := by
  induction frames generalizing s with
  | nil => rfl
  | cons p frames ih =>
    obtain ⟨hout, hnodup⟩ := List.nodup_cons.mp hnodup
    obtain ⟨hne, hcount, hpos⟩ := hpinned p List.mem_cons_self
    have hunpinned : ¬ (s.unpin p).pinCount env p ≠ 0 := by
      unfold pinCount at hcount ⊢
      rw [unpin_pins, if_pos rfl]
      omega
    rw [disposePages, if_neg hne, if_neg hunpinned, ih hnodup ?_]
    · have hpins (q : Nat) : (s.unpin p).pins q - frames.count q =
          s.pins q - (p :: frames).count q := by
        rw [unpin_pins, count_cons_eq]
        omega
      have heq := congrArg₂ TextFileHandler.mk
        (@disposed_dispose s.file p frames env.stored) (funext hpins)
      exact congrArg (fun after => some (Except.ok (), after)) heq
    · intro q hq
      obtain ⟨hzero, hone, hpos⟩ := hpinned q (List.mem_cons_of_mem _ hq)
      have hpq : p ≠ q := fun heq => hout (heq ▸ hq)
      refine ⟨hzero, ?_⟩
      unfold pinCount at hone ⊢
      dsimp only
      rw [unpin_pins, if_neg hpq]
      exact ⟨hone, hpos⟩

/-! ## What `delete_text` does -/

/-- The first page can't be read, or somebody else has pinned it. -/
def Refuses (env : PoolOutcomes) (s : TextFileHandler) (pageNum : Int) : Prop :=
  (∃ rc, getThisPage env s.file pageNum = .error rc) ∨ 0 < s.pinCount env pageNum.toNat

/-- The page number is that of the first of the pages. -/
def IsFirst (pageNum : Int) (pages : List Nat) : Prop :=
  0 ≤ pageNum ∧ pages.head? = some pageNum.toNat

/-- There is a text on the pages, which can all be read and are pinned by nobody. -/
structure Deletable (env : PoolOutcomes) (s : TextFileHandler) (pageNum : Int)
    (pages : List Nat) : Prop where
  first : IsFirst pageNum pages
  onPages : ∃ text, OnPages s.file pages text
  load : ∀ q ∈ pages, env.load q = .ok ()
  unpinned : ∀ q ∈ pages, s.pinCount env q = 0

/-- The call is refused, has left pins behind at an invalid page, or has disposed of the pages that
it has come across. -/
theorem deleteText_cases {result : Except RC Unit}
    (h : deleteText env s pageNum = some (result, s')) :
    (Refuses env s pageNum ∧ s' = s ∧ ∃ rc, result = .error rc) ∨
      (s'.pins ≠ s.pins ∧ s'.file = s.file ∧ ∃ rc, result = .error rc) ∨
      ∃ frames, IsFirst pageNum frames ∧ Visited env s.file frames ∧
        (∀ q ∈ frames, env.load q = .ok () ∧ s.pinCount env q = 0) ∧
        result = .ok () ∧ s' = ⟨disposed env.stored s.file frames, s.pins⟩ := by
  unfold deleteText at h
  cases hpage : getThisPage env s.file pageNum with
  | error rc =>
    rw [hpage] at h
    obtain ⟨rfl, rfl⟩ := Prod.mk.inj (Option.some.inj h)
    exact Or.inl ⟨Or.inl ⟨rc, hpage⟩, rfl, rc, rfl⟩
  | ok page =>
    obtain ⟨hnonneg, hload, -⟩ := getThisPage_ok hpage
    have hfirst : getThisPage env (s.pin pageNum.toNat).file pageNum.toNat = .ok page := by
      rw [Int.toNat_of_nonneg hnonneg]
      exact hpage
    have hpinned : (s.pin pageNum.toNat).pins pageNum.toNat = s.pins pageNum.toNat + 1 := by
      rw [pin_pins, if_pos rfl]
    rw [hpage] at h
    dsimp only at h
    rw [pin_file] at h
    split_ifs at h with hcount
    · rw [unpin_pin] at h
      obtain ⟨rfl, rfl⟩ := Prod.mk.inj (Option.some.inj h)
      refine Or.inl ⟨Or.inr ?_, rfl, _, rfl⟩
      unfold pinCount at hcount ⊢
      omega
    · cases hcollect : collect env s.file.header.pageCount pageNum.toNat page
          (s.pin pageNum.toNat) with
      | none =>
        rw [hcollect] at h
        cases h
      | some after =>
        obtain ⟨collected, s₁⟩ := after
        rw [hcollect] at h
        obtain ⟨hfile, hmono, hok⟩ := collect_spec hfirst (by omega) hcollect
        cases collected with
        | error rc =>
          obtain ⟨rfl, rfl⟩ := Prod.mk.inj (Option.some.inj h)
          refine Or.inr (Or.inl ⟨fun hpins => ?_, hfile, rc, rfl⟩)
          have hle := hmono pageNum.toNat
          rw [hpins] at hle
          omega
        | ok frames =>
          obtain ⟨hhead, hvisited, hpins, honce⟩ := hok frames rfl
          have hpins' (q : Nat) : s₁.pins q = s.pins q + frames.count q := by
            have heq := hpins q
            rw [pin_pins] at heq
            omega
          have hframe (q : Nat) (hq : q ∈ frames) :
              s.pinCount env q = 0 ∧ frames.count q = 1 ∧ 0 < s₁.pins q := by
            have hone := (honce q hq).2
            have heq := hpins' q
            have hpos := List.count_pos_iff.mpr hq
            unfold pinCount at hone ⊢
            omega
          have hnodup : frames.Nodup :=
            List.nodup_iff_count_eq_one.mpr fun q hq => (hframe q hq).2.1
          have hdispose := disposePages_spec hnodup fun q hq =>
            ⟨(honce q hq).1, (honce q hq).2, (hframe q hq).2.2⟩
          dsimp only at h
          rw [hdispose] at h
          obtain ⟨rfl, rfl⟩ := Prod.mk.inj (Option.some.inj h)
          refine Or.inr (Or.inr ⟨frames, ⟨hnonneg, hhead⟩, hvisited, ?_, rfl, ?_⟩)
          · intro q hq
            refine ⟨hvisited.forall_load ?_ q hq, (hframe q hq).1⟩
            intro p hp
            rw [hhead] at hp
            exact Option.some.inj hp ▸ hload
          · rw [hfile, pin_file]
            congr 1
            funext q
            rw [hpins', Nat.add_sub_cancel]

/-- By induction on the pages. -/
theorem collect_of_visited {rounds : Nat} (hvisited : Visited env s.file (p :: pages))
    (hrounds : pages.length < rounds) (hnodup : (p :: pages).Nodup)
    (hread : ∀ q ∈ pages, getThisPage env s.file q = .ok (s.file.pages q))
    (hpin : s.pinCount env p = 1) (hunpinned : ∀ q ∈ pages, s.pinCount env q = 0) :
    collect env rounds p (s.file.pages p) s =
      some (.ok (p :: pages), ⟨s.file, fun q => s.pins q + pages.count q⟩) := by
  induction pages generalizing p s rounds with
  | nil =>
    obtain ⟨rounds, rfl⟩ := Nat.exists_eq_add_of_lt hrounds
    obtain ⟨hvalid, hend⟩ := hvisited
    rw [collect, if_neg (by rw [hvalid]; decide), if_neg (not_not.mpr hpin)]
    split_ifs with hlast
    · rfl
    · obtain ⟨rc, hnext⟩ := hend.resolve_left hlast
      rw [hnext]
      rfl
  | cons q pages ih =>
    cases rounds with
    | zero => cases hrounds
    | succ rounds =>
      obtain ⟨hvalid, hnext, -, hrest⟩ := hvisited
      obtain ⟨-, hnodup⟩ := List.nodup_cons.mp hnodup
      have hne : (s.file.pages p).nextPageNum ≠ -1 := by omega
      have hout : q ∉ pages := (List.nodup_cons.mp hnodup).1
      rw [collect, if_neg (by rw [hvalid]; decide), if_neg (not_not.mpr hpin), if_neg hne,
        hnext, hread q List.mem_cons_self]
      dsimp only
      rw [Int.toNat_natCast]
      have hcollect := @ih (s.pin q) q rounds hrest (by simpa using hrounds) hnodup
        (fun r hr => hread r (List.mem_cons_of_mem _ hr)) ?_ ?_
      · rw [pin_file] at hcollect
        rw [hcollect]
        have hpins (r : Nat) : (s.pin q).pins r + pages.count r =
            s.pins r + (q :: pages).count r := by
          rw [pin_pins, count_cons_eq]
          omega
        have hafter := congrArg (TextFileHandler.mk s.file) (funext hpins)
        exact congrArg (fun after => some (Except.ok (p :: q :: pages), after)) hafter
      · have hzero := hunpinned q List.mem_cons_self
        unfold pinCount at hzero ⊢
        rw [pin_pins, if_pos rfl]
        omega
      · intro r hr
        have hzero := hunpinned r (List.mem_cons_of_mem _ hr)
        have hqr : q ≠ r := fun heq => hout (heq ▸ hr)
        unfold pinCount at hzero ⊢
        rw [pin_pins, if_neg hqr]
        exact hzero

/-- Allocated pages that `delete_text` comes across, and that nobody has pinned, are freed. -/
theorem deleteText_of_visited (hvisited : Visited env s.file (p :: pages))
    (hnodup : (p :: pages).Nodup) (hallocated : ∀ q ∈ p :: pages, s.file.header.Allocated q)
    (hload : ∀ q ∈ p :: pages, env.load q = .ok ())
    (hunpinned : ∀ q ∈ p :: pages, s.pinCount env q = 0) :
    deleteText env s p = some (.ok (), ⟨disposed env.stored s.file (p :: pages), s.pins⟩) := by
  have hcounts (q : Nat) (hq : q ∈ p :: pages) : (p :: pages).count q = 1 :=
    List.nodup_iff_count_eq_one.mp hnodup q hq
  have hout : p ∉ pages := (List.nodup_cons.mp hnodup).1
  -- they are pages of the file
  have hrounds : pages.length < s.file.header.pageCount := by
    have hsub : p :: pages ⊆ List.range s.file.header.pageCount := fun q hq =>
      List.mem_range.mpr (hallocated q hq).1
    have hle := (List.subperm_of_subset hnodup hsub).length_le
    rw [List.length_range, List.length_cons] at hle
    exact hle
  have hzero (q : Nat) (hq : q ∈ p :: pages) : q ≠ 0 ∧ s.pins q = 0 ∧ env.readers q = 0 := by
    have hcount := hunpinned q hq
    unfold pinCount at hcount
    refine ⟨?_, by omega, by omega⟩
    rintro rfl
    have hheader := env.header_pinned
    omega
  have hread (q : Nat) (hq : q ∈ p :: pages) :
      getThisPage env s.file q = .ok (s.file.pages q) :=
    getThisPage_of_allocated (hzero q hq).1 (hallocated q hq) (hload q hq)
  have hone : (s.pin p).pinCount env p = 1 := by
    obtain ⟨-, hpin, hreaders⟩ := hzero p List.mem_cons_self
    unfold pinCount
    rw [pin_pins, if_pos rfl, hpin, hreaders]
  have hcollect := @collect_of_visited env (s.pin p) p pages _ hvisited hrounds hnodup
    (fun q hq => hread q (List.mem_cons_of_mem _ hq)) hone ?_
  · unfold deleteText
    rw [hread p List.mem_cons_self]
    dsimp only
    rw [pin_file] at hcollect
    rw [Int.toNat_natCast, if_neg (by omega), pin_file, hcollect]
    have hpins (q : Nat) : (s.pin p).pins q + pages.count q =
        s.pins q + (p :: pages).count q := by
      rw [pin_pins, count_cons_eq]
      omega
    dsimp only
    rw [disposePages_spec hnodup]
    · have heq (q : Nat) : (s.pin p).pins q + pages.count q - (p :: pages).count q = s.pins q := by
        rw [hpins, Nat.add_sub_cancel]
      have hafter := congrArg (TextFileHandler.mk (disposed env.stored s.file (p :: pages)))
        (funext heq)
      exact congrArg (fun after => some (Except.ok (), after)) hafter
    · intro q hq
      obtain ⟨hne, hpin, hreaders⟩ := hzero q hq
      refine ⟨hne, ?_, ?_⟩
      · unfold pinCount
        dsimp only
        rw [hpins, hcounts q hq, hpin, hreaders]
      · dsimp only
        rw [hpins, hcounts q hq]
        exact Nat.succ_pos _
  · intro q hq
    have hne : p ≠ q := fun heq => hout (heq ▸ hq)
    obtain ⟨-, hpin, hreaders⟩ := hzero q (List.mem_cons_of_mem _ hq)
    unfold pinCount
    rw [pin_pins, if_neg hne, hpin, hreaders]

theorem IsFirst.natCast (h : IsFirst pageNum pages) :
    ∃ p rest, pages = p :: rest ∧ pageNum = p := by
  cases pages with
  | nil => cases h.2
  | cons p rest =>
    refine ⟨p, rest, rfl, ?_⟩
    rw [Option.some.inj h.2, Int.toNat_of_nonneg h.1]

theorem OnPages.visited (h : OnPages file (p :: pages) text)
    (hload : ∀ q ∈ p :: pages, env.load q = .ok ()) : Visited env file (p :: pages) := by
  have hpage := h.areText p List.mem_cons_self
  induction pages generalizing p text with
  | nil => exact ⟨hpage.valid, Or.inl h.last⟩
  | cons q pages ih =>
    have hmem : q ∈ p :: q :: pages := List.mem_cons_of_mem _ List.mem_cons_self
    have hnext := h.areText q hmem
    exact ⟨hpage.valid, h.next,
      ⟨_, getThisPage_of_allocated hnext.ne_zero hnext.allocated (hload q hmem)⟩,
      ih h.tail (fun r hr => hload r (List.mem_cons_of_mem _ hr)) hnext⟩

/-- A text that can be read and that nobody has pinned is deleted. -/
theorem deleteText_of_deletable (h : Deletable env s pageNum pages) :
    deleteText env s pageNum = some (.ok (), ⟨disposed env.stored s.file pages, s.pins⟩) := by
  obtain ⟨p, rest, rfl, rfl⟩ := h.first.natCast
  obtain ⟨text, hpages⟩ := h.onPages
  exact deleteText_of_visited (hpages.visited h.load) hpages.links.nodup
    (fun q hq => (hpages.areText q hq).allocated) h.load h.unpinned

/-- A call with nothing to do but to say no. -/
theorem deleteText_of_refuses (h : Refuses env s pageNum) :
    ∃ rc, deleteText env s pageNum = some (.error rc, s) := by
  unfold deleteText
  cases hpage : getThisPage env s.file pageNum with
  | error rc => exact ⟨rc, rfl⟩
  | ok page =>
    have hpin : 0 < s.pinCount env pageNum.toNat := by
      refine h.resolve_left ?_
      rintro ⟨rc, herror⟩
      rw [hpage] at herror
      cases herror
    have hcount : 1 < (s.pin pageNum.toNat).pinCount env pageNum.toNat := by
      unfold pinCount at hpin ⊢
      rw [pin_pins, if_pos rfl]
      omega
    refine ⟨.error, ?_⟩
    dsimp only
    rw [if_pos hcount, unpin_pin]

/-! ## Exactly one text -/

/-- The pages of one text are free and those of another are allocated; all else is as it was. -/
structure Replaced (s s' : TextFileHandler) (old new : List Nat) : Prop where
  allocated : ∀ q, s'.file.header.Allocated q ↔ s.file.header.Allocated q ∧ q ∉ old ∨ q ∈ new
  content : ∀ q, s.file.header.Allocated q → q ∉ old → s'.file.pages q = s.file.pages q
  pins : s'.pins = s.pins

/-- The allocated pages, their count, their contents and the pins are as they were. -/
structure Unchanged (s s' : TextFileHandler) : Prop where
  replaced : Replaced s s' [] []
  allocatedPages : s'.file.header.allocatedPages = s.file.header.allocatedPages

/-- There is a text on the pages, the first of which has the number. -/
def IsText (file : TextFile) (pageNum : Int) (pages : List Nat) : Prop :=
  IsFirst pageNum pages ∧ ∃ text, OnPages file pages text

/-- `delete_text` frees the pages of the text or has no effect. -/
def DeletesText (env : PoolOutcomes) (s : TextFileHandler) (pageNum : Int) : Prop :=
  ∃ result s', deleteText env s pageNum = some (result, s') ∧
    ((∃ rc, result = .error rc) → Unchanged s s') ∧
    (result = .ok () → ∃ old, IsText s.file pageNum old ∧ Replaced s s' old [])

theorem Unchanged.rfl : Unchanged s s :=
  ⟨⟨fun q => by simp, fun _ _ _ => Eq.refl _, Eq.refl _⟩, Eq.refl _⟩

/-- Of a text file with any texts, exactly those texts are deleted properly that can be read up to
their ends and are pinned by nobody. -/
theorem deletesText_iff : DeletesText env s pageNum ↔
    Refuses env s pageNum ∨ ∃ pages, Deletable env s pageNum pages := by
  constructor
  · rintro ⟨result, s', hcall, herror, hok⟩
    rcases deleteText_cases hcall with ⟨hrefused, -, -⟩ | ⟨hpins, -, rc, rfl⟩ |
      ⟨frames, -, -, hframes, rfl, rfl⟩
    · exact Or.inl hrefused
    · exact absurd (herror ⟨rc, rfl⟩).replaced.pins hpins
    · obtain ⟨old, hold, hreplaced⟩ := hok rfl
      obtain ⟨text, honPages⟩ := hold.2
      have hsub : old ⊆ frames := by
        intro q hq
        by_contra hout
        have halloc : (disposed env.stored s.file frames).header.Allocated q :=
          allocated_disposed.mpr ⟨(honPages.areText q hq).allocated, hout⟩
        exact (((hreplaced.allocated q).mp halloc).resolve_right List.not_mem_nil).2 hq
      exact Or.inr ⟨old, hold.1, hold.2, fun q hq => (hframes q (hsub hq)).1,
        fun q hq => (hframes q (hsub hq)).2⟩
  · rintro (hrefused | ⟨pages, hpages⟩)
    · obtain ⟨rc, hcall⟩ := deleteText_of_refuses hrefused
      exact ⟨_, _, hcall, fun _ => Unchanged.rfl, (by rintro ⟨⟩)⟩
    · refine ⟨_, _, deleteText_of_deletable hpages, (by rintro ⟨rc, ⟨⟩⟩), fun _ => ?_⟩
      refine ⟨pages, ⟨hpages.first, hpages.onPages⟩, fun q => ?_,
        fun _ _ hout => pages_disposed hout, rfl⟩
      rw [allocated_disposed, or_iff_left List.not_mem_nil]

end TextFileHandler

end ObHtap
