import ObHtap.Bplus.DeleteEntry
import ObHtap.Bplus.Log

/-!
# The operations of the index

`insert_entry` and `delete_entry` as a caller sees them, between two well-formed trees.  The
pages that a deletion gives up are disposed of when its mini-transaction ends.
-/

namespace ObHtap

open ObHtap.Bound BplusTreeHandler BplusTreeMiniTransaction

variable {κ ρ : Type} [LinearOrder ρ] {rank : κ → ρ} {v v' : Pages κ} {g : Layout ρ}
  {header : IndexFileHeader}

/-! ## The end of a mini-transaction -/

namespace Pages

/-- The pages after the pages given up have been disposed of. -/
def release (v : Pages κ) : Pages κ :=
  { v with
    fileHeader := v.disposedPages.foldl (fun hdr p => hdr.dispose p.toNat) v.fileHeader
    disposedPages := [] }

theorem release_eq_self (h : v.disposedPages = []) : v.release = v := by
  cases v
  simp only at h
  subst h
  rfl

theorem pageCount_release (v : Pages κ) :
    v.release.fileHeader.pageCount = v.fileHeader.pageCount := by
  change (v.disposedPages.foldl (fun hdr p => hdr.dispose p.toNat) v.fileHeader).pageCount = _
  generalize v.fileHeader = hdr
  induction v.disposedPages generalizing hdr with
  | nil => rfl
  | cons p rest ih => exact ih (hdr.dispose p.toNat)

theorem allocated_foldl_dispose {l : List PageNum} {hdr : BPFileHeader} {n : Nat} :
    (l.foldl (fun hdr p => hdr.dispose p.toNat) hdr).Allocated n ↔
      hdr.Allocated n ∧ ∀ p ∈ l, n ≠ p.toNat := by
  induction l generalizing hdr with
  | nil => simp
  | cons p l ih =>
    rw [List.foldl_cons, ih, BPFileHeader.allocated_dispose]
    simp [and_assoc]

theorem allocated_release (hd : ∀ p ∈ v.disposedPages, 0 ≤ p) {x : PageNum} :
    v.release.Allocated x ↔ v.Allocated x ∧ x ∉ v.disposedPages := by
  simp only [Allocated, release, allocated_foldl_dispose, and_assoc, and_congr_right_iff]
  intro h0 h1
  constructor
  · exact fun h hx => h x hx rfl
  · intro h p hp heq
    refine h ?_
    rwa [← Int.toNat_of_nonneg h0, heq, Int.toNat_of_nonneg (hd p hp)]

end Pages

theorem release_pages (s : TreeState κ) : (release s).pages = s.pages.release := rfl

/-- Disposing of the pages given up does not touch the tree. -/
theorem TreeInv.release (h : TreeInv rank v g none) : TreeInv rank v.release g none := by
  have hd : ∀ p ∈ v.disposedPages, 0 ≤ p := fun p hp =>
    Int.le_trans (by decide) (h.disposed p hp)
  have hlow : ∀ p : PageNum, p < 2 → p ∉ v.disposedPages := fun p hp hmem =>
    absurd (h.disposed p hmem) (not_le.mpr hp)
  exact
    { headers :=
        ⟨(Pages.allocated_release hd).mpr ⟨h.headers.1, hlow _ (by decide)⟩,
          (Pages.allocated_release hd).mpr ⟨h.headers.2, hlow _ (by decide)⟩⟩
      alloc := fun p hp => by
        obtain ⟨h2, ha, hn⟩ := h.alloc p hp
        exact ⟨h2, (Pages.allocated_release hd).mpr ⟨ha, hn⟩, List.not_mem_nil⟩
      disposed := fun p hp => absurd hp List.not_mem_nil
      lt := h.lt
      apart := h.apart
      leaf := h.leaf
      internal := fun p hp hl =>
        let hn := h.internal p hp hl
        ⟨hn.isLeaf, hn.ne_nil, hn.cover.mono fun _ _ _ _ hc =>
          ⟨hc.dom, hc.parent, hc.lvl, hc.lo, hc.cov, hc.key⟩⟩
      next := h.next
      up := h.up
      lvl_le := h.lvl_le
      root := h.root
      split := h.split }

theorem WellFormed.release (h : TreeInv rank v g none) (hb : Balanced header v g none) :
    WellFormed header rank v.release g where
  tree := h.release
  balanced := ⟨hb.filled, hb.root⟩
  disposed := rfl

theorem commit_pages (s : Mtr κ) : (BplusTreeLogger.commit s).pages = s.pages := by
  unfold BplusTreeLogger.commit
  split <;> rfl

section Run

variable {body : MtrM κ Unit} {t : TreeState κ} {outcomes : List (Option RC)}

theorem run_ok {s : Mtr κ} (h : body (start t true outcomes) = .ok () s) :
    ∃ t', run body t outcomes = some (.ok (), t') ∧ t'.pages = s.pages.release := by
  refine ⟨_, by unfold run; rw [h], ?_⟩
  rw [release_pages, commit_pages]

theorem run_abort {s : Mtr κ} (h : body (start t true outcomes) = .error .abort s) :
    run body t outcomes = none := by
  unfold run
  rw [h]

/-- An operation that is refused before it has logged anything takes nothing back. -/
theorem run_refused {rc : RC} {s : Mtr κ} (hd : s.pages.disposedPages = [])
    (hentries : s.entries = []) (h : body (start t true outcomes) = .error (.rc rc) s) :
    ∃ t', run body t outcomes = some (.error rc, t') ∧ t'.pages = s.pages := by
  have hroll : ∃ s', BplusTreeLogger.rollback s = .ok () s' ∧ s'.pages = s.pages := by
    obtain ⟨base, entries, needLog, outcomes'⟩ := s
    obtain rfl : entries = [] := hentries
    exact ⟨_, rfl, rfl⟩
  obtain ⟨s', hs', hp⟩ := hroll
  refine ⟨release s'.toTreeState, by unfold run; rw [h]; simp only [hs'], ?_⟩
  rw [release_pages, hp]
  exact Pages.release_eq_self hd

theorem at_start (t : TreeState κ) : At t.pages (start t true []) := ⟨rfl, rfl⟩

end Run

/-! ## A new index -/

namespace BPFileHeader

/-- The header that `BufferPoolManager::create_file` writes. -/
def create : BPFileHeader where
  pageCount := 1
  allocatedPages := 1
  bitmap i := i == 0

end BPFileHeader

/-- `BplusTreeHandler::create`: the page of the index file header is allocated and has no root
page yet. -/
def TreeState.create : TreeState κ where
  pages :=
    { fileHeader := BPFileHeader.create.allocate.2
      rootPage := bpInvalidPageNum
      node := fun _ => ⟨false, 0, 0, []⟩
      disposedPages := [] }
  dirty _ := false
  lsn _ := 0
  currentLsn := 1
  log := []

theorem wellFormed_create (rank : κ → ρ) (header : IndexFileHeader) :
    WellFormed header rank (TreeState.create : TreeState κ).pages Layout.empty where
  tree :=
    { headers := by
        have h0 : BPFileHeader.create.allocate.2.Allocated 0 := by decide
        have h1 : BPFileHeader.create.allocate.2.Allocated 1 := by decide
        exact ⟨⟨le_rfl, h0⟩, ⟨by decide, h1⟩⟩
      alloc := fun _ hp => hp.elim
      disposed := fun _ hp => absurd hp List.not_mem_nil
      lt := fun _ hp => hp.elim
      apart := fun _ _ hp => hp.elim
      leaf := fun _ hp => hp.elim
      internal := fun _ hp => hp.elim
      next := fun _ hp => hp.elim
      up := fun _ hp => hp.elim
      lvl_le := fun _ hp => hp.elim
      root := Or.inl ⟨rfl, fun _ hp => hp⟩
      split := by simp }
  balanced := ⟨fun _ hp => hp.elim, fun hp => hp.elim⟩
  disposed := rfl

/-! ## `insert_entry` and `delete_entry` -/

section Operations

variable {υ : Type} [Inhabited υ] [DecidableEq υ] {index : BplusTreeHandler (Key υ)}
  {rankKey : Key υ → ρ} {t : TreeState (Key υ)} {userKey : υ} {rid : RID} {isNull : Bool}
  {s₀ : Mtr (Key υ)} {w : Pages (Key υ)}

/-- The index has an entry with the key, as far as its comparator can tell. -/
def HasKey (rank : κ → ρ) (v : Pages κ) (g : Layout ρ) (key : κ) : Prop :=
  ∃ item, Entry v g item ∧ rank item.key = rank key

omit [Inhabited υ] [DecidableEq υ] in
/-- The search ends in the leaf whose range has the key. -/
theorem findLeaf_eq (hcmp : RankedBy index.keyComparator rankKey) {p : PageNum}
    (h : TreeInv rankKey w g none) (hs₀ : At w s₀) (hp : g.dom p) (hl : g.lvl p = 0)
    (hlo : g.lo p ≤ at_ (rankKey ⟨userKey, rid⟩)) (hhi : at_ (rankKey ⟨userKey, rid⟩) < g.hi p) :
    ∃ s, findLeaf index ⟨userKey, rid⟩ s₀ = .ok p s := by
  have hfind := findLeaf_spec (E := fun _ _ => False) hcmp h hs₀ (h.dom_root hp) ⟨userKey, rid⟩
  cases hrun : findLeaf index ⟨userKey, rid⟩ s₀ with
  | error e s => exact (hfind.error rfl hrun).elim
  | ok leaf s =>
    obtain ⟨⟨hp', hl', hlo', hhi'⟩, -⟩ := hfind.ok rfl hrun
    obtain rfl := h.eq_of_common hp' hp (hl'.trans hl.symm) ⟨hlo', hhi'⟩ ⟨hlo, hhi⟩
    exact ⟨s, rfl⟩

variable (index userKey rid isNull s₀) in
/-- The splits that the insertion is going to make, if it is not refused, leave both halves full
enough. -/
def SplitsEvenly : Prop :=
  s₀.pages.rootPage ≠ bpInvalidPageNum → ∀ s leaf s' position,
    checkUnique index userKey isNull s₀ = .ok () s →
    findLeaf index ⟨userKey, rid⟩ s₀ = .ok leaf s' →
    LeafIndexNodeHandler.lookup index.keyComparator (s₀.pages.node leaf) ⟨userKey, rid⟩ =
      (position, false) →
    EvenFrom index.fileHeader s₀.pages leaf position

omit [Inhabited υ] in
theorem splitsEvenly_iff (hcmp : RankedBy index.keyComparator rankKey) {p : PageNum}
    (h : TreeInv rankKey w g none) (hs₀ : At w s₀)
    (hcheck : ∃ s, checkUnique index userKey isNull s₀ = .ok () s) (hp : g.dom p)
    (hl : g.lvl p = 0) (hlo : g.lo p ≤ at_ (rankKey ⟨userKey, rid⟩))
    (hhi : at_ (rankKey ⟨userKey, rid⟩) < g.hi p)
    (hnone : ¬ HasKey rankKey w g ⟨userKey, rid⟩) :
    EvenFrom index.fileHeader w p
        (LeafIndexNodeHandler.lookup index.keyComparator (w.node p) ⟨userKey, rid⟩).1 ↔
      SplitsEvenly index userKey rid isNull s₀ := by
  obtain ⟨s₁, hfind⟩ := findLeaf_eq hcmp h hs₀ hp hl hlo hhi
  have hpos := LeafIndexNodeHandler.lookup_spec ⟨userKey, rid⟩ hcmp (h.leaf p hp hl).sorted
  rw [HasKey, h.key_in_leaf hp hl hlo hhi, ← hpos.found_iff, Bool.not_eq_true] at hnone
  rw [SplitsEvenly, hs₀.1]
  constructor
  · rintro heven - s leaf s' position - hrun hlookup
    cases hfind.symm.trans hrun
    rwa [hlookup] at heven
  · intro heven
    obtain ⟨s, hs⟩ := hcheck
    exact heven (h.ne_invalid (h.dom_root hp)) s p s₁ _ hs hfind (Prod.ext rfl hnone)

omit [Inhabited υ] in
theorem splitsEvenly_of_hasKey (hcmp : RankedBy index.keyComparator rankKey)
    (h : TreeInv rankKey w g none) (hs₀ : At w s₀) (hkey : HasKey rankKey w g ⟨userKey, rid⟩) :
    SplitsEvenly index userKey rid isNull s₀ := by
  intro hne s leaf s' position _ hrun hlookup
  rw [hs₀.1] at hne hlookup
  have hdom := h.root.elim (fun hc => absurd hc.1 hne) fun hc => hc.1
  have hfind := findLeaf_spec (E := fun _ _ => False) hcmp h hs₀ hdom ⟨userKey, rid⟩
  obtain ⟨⟨hp, hl, hlo, hhi⟩, -⟩ := hfind.ok rfl hrun
  have hpos := LeafIndexNodeHandler.lookup_spec ⟨userKey, rid⟩ hcmp (h.leaf leaf hp hl).sorted
  rw [HasKey, h.key_in_leaf hp hl hlo hhi, ← hpos.found_iff, hlookup] at hkey
  cases hkey

omit [Inhabited υ] in
theorem splitsEvenly_of_empty (hs₀ : At w s₀) (hroot : w.rootPage = bpInvalidPageNum) :
    SplitsEvenly index userKey rid isNull s₀ :=
  fun hne => absurd (by rw [hs₀.1]; exact hroot) hne

variable (userKey rid isNull) in
theorem insertEntryMtr_spec (hcmp : RankedBy index.keyComparator rankKey)
    (hL : 2 ≤ index.fileHeader.leafMaxSize) (hm : 2 ≤ index.fileHeader.internalMaxSize)
    (hu : index.fileHeader.unique = false) (hw : WellFormed index.fileHeader rankKey w g)
    (hs₀ : At w s₀) :
    Triple (· = s₀) (insertEntryMtr index userKey rid isNull)
      (fun _ s => ¬ HasKey rankKey w g ⟨userKey, rid⟩ ∧ ∃ v' g', At v' s ∧
        Inserted index.fileHeader rankKey w g ⟨⟨userKey, rid⟩, .rid rid⟩ v' g' ∧
        OccupiedWhen index.fileHeader w g v' g' (SplitsEvenly index userKey rid isNull s₀))
      (fun e s => e = .rc .recordDuplicateKey ∧ HasKey rankKey w g ⟨userKey, rid⟩ ∧ s = s₀) := by
  refine readRootPage_of (v := w) (fun s hs => hs ▸ hs₀.1) <| Triple.ite (fun hroot => ?_)
    fun hroot => ?_
  · have hnone : ¬ HasKey rankKey w g ⟨userKey, rid⟩ := fun ⟨item, ⟨x, hx, _⟩, _⟩ =>
      hw.tree.ne_invalid (hw.tree.dom_root hx) hroot
    refine (createNewTree_spec hL hw hroot).conseq (fun s hs => hs ▸ hs₀) ?_
      fun _ _ => False.elim
    rintro _ s ⟨v', g', hs, hins, hocc⟩
    exact ⟨hnone, v', g', hs, hins, fun _ => iff_of_true hocc (splitsEvenly_of_empty hs₀ hroot)⟩
  · have hdom := hw.tree.root.elim (fun hc => absurd hc.1 hroot) fun hc => hc.1
    have hcheck : checkUnique index userKey isNull = pure () := if_neg (by simp [hu])
    rw [hcheck]
    refine (findLeaf_spec hcmp hw.tree hs₀ hdom _).bind fun p => Triple.of_and ?_
    rintro ⟨hp, hl, hlo, hhi⟩
    refine (insertEntryIntoLeafNode_spec hcmp hL hm hw hs₀ hp hl hlo hhi).post ?_
    rintro _ s ⟨hnone, v', g', hs, hins, hocc⟩
    rw [splitsEvenly_iff hcmp hw.tree hs₀ ⟨s₀, by rw [hcheck]; rfl⟩ hp hl hlo hhi hnone] at hocc
    exact ⟨hnone, v', g', hs, hins, hocc⟩

variable (index userKey rid s₀) in
/-- All pages that become too small in the deletion, if it is not refused, keep their place. -/
def DeletionLocates : Prop :=
  s₀.pages.rootPage ≠ bpInvalidPageNum → ∀ leaf s position,
    findLeaf index ⟨userKey, rid⟩ s₀ = .ok leaf s →
    LeafIndexNodeHandler.lookup index.keyComparator (s₀.pages.node leaf) ⟨userKey, rid⟩ =
      (position, true) →
    Locatable index.fileHeader index.keyComparator s₀.pages leaf

omit [Inhabited υ] [DecidableEq υ] in
theorem deletionLocates_iff (hcmp : RankedBy index.keyComparator rankKey) {p : PageNum}
    (h : TreeInv rankKey w g none) (hs₀ : At w s₀) (hp : g.dom p) (hl : g.lvl p = 0)
    (hlo : g.lo p ≤ at_ (rankKey ⟨userKey, rid⟩)) (hhi : at_ (rankKey ⟨userKey, rid⟩) < g.hi p) :
    DeletionLocates index userKey rid s₀ ↔ (HasKey rankKey w g ⟨userKey, rid⟩ →
      Locatable index.fileHeader index.keyComparator w p) := by
  obtain ⟨s₁, hfind⟩ := findLeaf_eq hcmp h hs₀ hp hl hlo hhi
  have hpos := LeafIndexNodeHandler.lookup_spec ⟨userKey, rid⟩ hcmp (h.leaf p hp hl).sorted
  rw [HasKey, h.key_in_leaf hp hl hlo hhi, ← hpos.found_iff, DeletionLocates, hs₀.1]
  constructor
  · intro hloc hfound
    exact hloc (h.ne_invalid (h.dom_root hp)) p s₁ _ hfind (Prod.ext rfl hfound)
  · rintro hloc - leaf s' position hrun hlookup
    cases hfind.symm.trans hrun
    exact hloc (by rw [hlookup])

variable (userKey rid) in
omit [Inhabited υ] [DecidableEq υ] in
theorem deleteEntryMtr_spec (hcmp : RankedBy index.keyComparator rankKey)
    (hm : 3 ≤ index.fileHeader.internalMaxSize) (hw : WellFormed index.fileHeader rankKey w g)
    (hs₀ : At w s₀) :
    Triple (· = s₀) (deleteEntryMtr index userKey rid)
      (fun _ s => HasKey rankKey w g ⟨userKey, rid⟩ ∧ DeletionLocates index userKey rid s₀ ∧
        ∃ v' g', At v' s ∧ Removed index.fileHeader rankKey w g ⟨userKey, rid⟩ v' g' ∧
          (Occupied index.fileHeader w g none → Occupied index.fileHeader v' g' none))
      (fun e s => (e = .rc .recordNotExist ∧ ¬ HasKey rankKey w g ⟨userKey, rid⟩ ∧
          DeletionLocates index userKey rid s₀ ∧ s = s₀) ∨
        (HasKey rankKey w g ⟨userKey, rid⟩ ∧
          Aborts (¬ DeletionLocates index userKey rid s₀) e s)) := by
  refine readRootPage_of (v := w) (fun s hs => hs ▸ hs₀.1) <| Triple.ite (fun hroot => ?_)
    fun hroot => ?_
  · refine Triple.throw fun s hs => Or.inl ⟨rfl, ?_, fun hne => ?_, hs⟩
    · exact fun ⟨item, ⟨x, hx, _⟩, _⟩ => hw.tree.ne_invalid (hw.tree.dom_root hx) hroot
    · exact absurd (by rw [hs₀.1]; exact hroot) hne
  · have hdom := hw.tree.root.elim (fun hc => absurd hc.1 hroot) fun hc => hc.1
    refine (findLeaf_spec hcmp hw.tree hs₀ hdom _).bind fun p => Triple.of_and ?_
    rintro ⟨hp, hl, hlo, hhi⟩
    rw [deletionLocates_iff hcmp hw.tree hs₀ hp hl hlo hhi]
    refine (deleteEntryInternal_spec hcmp hm hw hs₀ hp hl hlo hhi).conseq (fun _ => id) ?_ ?_
    · rintro _ s ⟨hkey, hloc, hs⟩
      exact ⟨hkey, fun _ => hloc, hs⟩
    · rintro e s (⟨he, hno, hs⟩ | ⟨hkey, he, hloc⟩)
      · exact Or.inl ⟨he, hno, fun hkey => absurd hkey hno, hs⟩
      · exact Or.inr ⟨hkey, he, fun hc => hloc (hc hkey)⟩

variable (userKey rid isNull) in
/-- `insert_entry` of a non-unique index ends: it refuses a key that is there, and adds the
entry otherwise. -/
theorem insertEntry_spec (hcmp : RankedBy index.keyComparator rankKey)
    (hL : 2 ≤ index.fileHeader.leafMaxSize) (hm : 2 ≤ index.fileHeader.internalMaxSize)
    (hu : index.fileHeader.unique = false)
    (hw : WellFormed index.fileHeader rankKey t.pages g) :
    (HasKey rankKey t.pages g ⟨userKey, rid⟩ ∧ ∃ t',
        insertEntry index userKey rid isNull t [] = some (.error .recordDuplicateKey, t') ∧
        t'.pages = t.pages) ∨
      (¬ HasKey rankKey t.pages g ⟨userKey, rid⟩ ∧ ∃ t' g',
        insertEntry index userKey rid isNull t [] = some (.ok (), t') ∧
        Inserted index.fileHeader rankKey t.pages g ⟨⟨userKey, rid⟩, .rid rid⟩ t'.pages g' ∧
        OccupiedWhen index.fileHeader t.pages g t'.pages g'
          (SplitsEvenly index userKey rid isNull (start t true []))) := by
  have hspec := insertEntryMtr_spec userKey rid isNull hcmp hL hm hu hw (at_start t)
  cases hrun : insertEntryMtr index userKey rid isNull (start t true []) with
  | ok a s =>
    obtain ⟨hnone, v', g', hs, hins, hocc⟩ := hspec.ok rfl hrun
    obtain ⟨t', ht', hp⟩ := run_ok hrun
    refine Or.inr ⟨hnone, t', g', ht', ?_⟩
    rw [hp, hs.1, Pages.release_eq_self hins.disposed]
    exact ⟨hins, hocc⟩
  | error e s =>
    obtain ⟨rfl, hkey, rfl⟩ := hspec.error rfl hrun
    exact Or.inl ⟨hkey, run_refused hw.disposed rfl hrun⟩

variable (userKey rid) in
omit [Inhabited υ] [DecidableEq υ] in
/-- `delete_entry` refuses a key that is missing, and otherwise takes the entry away or ends the
process. -/
theorem deleteEntry_cases (hcmp : RankedBy index.keyComparator rankKey)
    (hm : 3 ≤ index.fileHeader.internalMaxSize)
    (hw : WellFormed index.fileHeader rankKey t.pages g) :
    (¬ HasKey rankKey t.pages g ⟨userKey, rid⟩ ∧
        DeletionLocates index userKey rid (start t true []) ∧ ∃ t',
          deleteEntry index userKey rid t [] = some (.error .recordNotExist, t') ∧
          t'.pages = t.pages) ∨
      (HasKey rankKey t.pages g ⟨userKey, rid⟩ ∧
        DeletionLocates index userKey rid (start t true []) ∧ ∃ t' g',
          deleteEntry index userKey rid t [] = some (.ok (), t') ∧
          WellFormed index.fileHeader rankKey t'.pages g' ∧
          (∀ item, Entry t'.pages g' item ↔
            Entry t.pages g item ∧ rankKey item.key ≠ rankKey ⟨userKey, rid⟩) ∧
          (Occupied index.fileHeader t.pages g none →
            Occupied index.fileHeader t'.pages g' none)) ∨
      (HasKey rankKey t.pages g ⟨userKey, rid⟩ ∧
        ¬ DeletionLocates index userKey rid (start t true []) ∧
        deleteEntry index userKey rid t [] = none) := by
  have hspec := deleteEntryMtr_spec userKey rid hcmp hm hw (at_start t)
  cases hrun : deleteEntryMtr index userKey rid (start t true []) with
  | ok a s =>
    obtain ⟨hkey, hloc, v', g', hs, hrem, hocc⟩ := hspec.ok rfl hrun
    obtain ⟨t', ht', hp⟩ := run_ok hrun
    refine Or.inr (Or.inl ⟨hkey, hloc, t', g', ht', ?_⟩)
    rw [hp, hs.1]
    exact ⟨WellFormed.release hrem.tree hrem.balanced, hrem.entries,
      fun h₀ => ⟨(hocc h₀).least, (hocc h₀).most⟩⟩
  | error e s =>
    rcases hspec.error rfl hrun with ⟨rfl, hkey, hloc, rfl⟩ | ⟨hkey, rfl, hloc⟩
    · exact Or.inl ⟨hkey, hloc, run_refused hw.disposed rfl hrun⟩
    · exact Or.inr (Or.inr ⟨hkey, hloc, run_abort hrun⟩)

omit [Inhabited υ] [DecidableEq υ] in
theorem deletionLocates_of_big (hcmp : RankedBy index.keyComparator rankKey)
    (hbig : 4 ≤ index.fileHeader.leafMaxSize ∧ 6 ≤ index.fileHeader.internalMaxSize)
    (hw : WellFormed index.fileHeader rankKey w g) (hs₀ : At w s₀) :
    DeletionLocates index userKey rid s₀ := by
  intro hne leaf s position hrun _
  rw [hs₀.1] at hne ⊢
  have hdom := hw.tree.root.elim (fun hc => absurd hc.1 hne) fun hc => hc.1
  have hfind := findLeaf_spec (E := fun _ _ => False) hcmp hw.tree hs₀ hdom ⟨userKey, rid⟩
  exact locatable_of_big hw.tree hw.balanced hbig (hfind.ok rfl hrun).1.1

variable (userKey rid) in
omit [Inhabited υ] [DecidableEq υ] in
/-- `delete_entry` ends, or the process does if the capacities allow it: it refuses a key that
is missing, and takes the entry away otherwise. -/
theorem deleteEntry_spec (hcmp : RankedBy index.keyComparator rankKey) {A : Prop}
    (hA : A ∨ 4 ≤ index.fileHeader.leafMaxSize ∧ 6 ≤ index.fileHeader.internalMaxSize)
    (hm : 3 ≤ index.fileHeader.internalMaxSize)
    (hw : WellFormed index.fileHeader rankKey t.pages g) :
    (¬ HasKey rankKey t.pages g ⟨userKey, rid⟩ ∧ ∃ t',
        deleteEntry index userKey rid t [] = some (.error .recordNotExist, t') ∧
        t'.pages = t.pages) ∨
      (HasKey rankKey t.pages g ⟨userKey, rid⟩ ∧ ∃ t' g',
        deleteEntry index userKey rid t [] = some (.ok (), t') ∧
        WellFormed index.fileHeader rankKey t'.pages g' ∧
        ∀ item, Entry t'.pages g' item ↔
          Entry t.pages g item ∧ rankKey item.key ≠ rankKey ⟨userKey, rid⟩) ∨
      (A ∧ deleteEntry index userKey rid t [] = none) := by
  rcases deleteEntry_cases userKey rid hcmp hm hw with
    ⟨hkey, -, ht'⟩ | ⟨hkey, -, t', g', ht', hw', he', -⟩ | ⟨-, hloc, hnone⟩
  · exact Or.inl ⟨hkey, ht'⟩
  · exact Or.inr (Or.inl ⟨hkey, t', g', ht', hw', he'⟩)
  · refine Or.inr (Or.inr ⟨hA.resolve_right fun hbig => hloc ?_, hnone⟩)
    exact deletionLocates_of_big hcmp hbig hw (at_start t)

end Operations

end ObHtap
