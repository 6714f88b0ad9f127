import ObHtap.Bplus.CrabbingSafe
import ObHtap.Bplus.RangeScan

/-!
# Runs with latches

`insert_entry`, `delete_entry` and whole scans with their latches, one after another.  An operation
that no other disturbs leaves the tree that the one without latches leaves.  So the index is the
sorted set of its entries, and no change on the way there is in the reach of others.
-/

namespace ObHtap

open BplusTreeHandler BplusTreeMiniTransaction LatchedScanner

namespace Operation

variable {υ : Type}

def key : Operation υ → Key υ
  | insert userKey rid _ => ⟨userKey, rid⟩
  | delete userKey rid => ⟨userKey, rid⟩

def type : Operation υ → BplusTreeOperationType
  | insert _ _ _ => .insert
  | delete _ _ => .delete

end Operation

/-- What is asked of an index: a change, or the entries between two keys. -/
inductive Request (υ : Type) where
  | change (operation : Operation υ)
  | scan (range : ScanRange (Key υ))

/-- The return code of a change, or what a scan gives. -/
inductive Answer where
  | code (result : Except RC Unit)
  | rids (rids : List RID)

namespace Crabbing

variable {υ ρ : Type} [Inhabited υ] [DecidableEq υ] (index : BplusTreeHandler (Key υ))
  (operation : Operation υ)

/-- `find_leaf`, in pages that nobody else changes. -/
def findLeaf (v : Pages (Key υ)) : EStateM.Result Fault (Latching PageNum) PageNum :=
  index.latchLeaf (fun _ => .still v) operation.type operation.key (v.fileHeader.pageCount + 1)
    ⟨0, [], []⟩

/-- What comes behind `find_leaf`. -/
def changeLeaf (leaf : PageNum) : CrabM (Key υ) Unit :=
  change index operation.type operation.key operation.key.rid leaf

/-- `insert_entry` and `delete_entry` of an index that is not unique.  Without a root there is no
page to be latched. -/
def call (t : TreeState (Key υ)) : Option (Except RC Unit × TreeState (Key υ)) :=
  if t.pages.rootPage = bpInvalidPageNum then index.call ⟨operation, []⟩ t
  else
    match findLeaf index operation t.pages with
    | .ok leaf descent =>
      BplusTreeMiniTransaction.run
        (fun s => forget (changeLeaf index operation leaf (start s descent.memo))) t []
    | .error _ _ => none

/-- The changes of the call are out of the reach of others, and its recursion comes only to what
`find_leaf` has kept. -/
def SafeCall (t : TreeState (Key υ)) : Prop :=
  ∀ leaf descent, findLeaf index operation t.pages = .ok leaf descent →
    (∀ c ∈ (run (changeLeaf index operation leaf)
        (start (BplusTreeMiniTransaction.start t true []) descent.memo)).changes,
      c.Safe t.pages descent.memo) ∧
    ∀ target ∈ (run (changeLeaf index operation leaf)
        (start (BplusTreeMiniTransaction.start t true []) descent.memo)).climbed,
      Granted descent.memo target

/-- A whole scan of the pages, as long as nobody changes them. -/
def ScansTo (t : TreeState (Key υ)) (range : ScanRange (Key υ)) (rids : List RID) : Prop :=
  ∀ calls, rids.length < calls → ∃ s, scanAll index (fun _ => .still t.pages)
    (t.pages.fileHeader.pageCount + 1) calls range fresh = .ok rids s

/-- Requests one after another with their answers; all changes are safe. -/
inductive SafeRun : List (Request υ) → TreeState (Key υ) → List Answer → TreeState (Key υ) → Prop
  | nil (t : TreeState (Key υ)) : SafeRun [] t [] t
  | change {operation requests t t₁ t' result answers} (hsafe : SafeCall index operation t)
      (hcall : call index operation t = some (result, t₁))
      (hrest : SafeRun requests t₁ answers t') :
      SafeRun (.change operation :: requests) t (.code result :: answers) t'
  | scan {range requests t t' rids answers} (hscan : ScansTo index t range rids)
      (hrest : SafeRun requests t answers t') :
      SafeRun (.scan range :: requests) t (.rids rids :: answers) t'

variable {index operation} [LinearOrder ρ] {rank : Key υ → ρ} {t : TreeState (Key υ)}
  {v : Pages (Key υ)} {g : Layout ρ} {S : Finset (Key υ)}

theorem run_congr {κ : Type} {x y : MtrM κ Unit} {t : TreeState κ}
    (h : x (BplusTreeMiniTransaction.start t true []) =
      y (BplusTreeMiniTransaction.start t true [])) :
    BplusTreeMiniTransaction.run x t [] = BplusTreeMiniTransaction.run y t [] := by
  unfold BplusTreeMiniTransaction.run
  rw [h]

omit [Inhabited υ] [DecidableEq υ] in
/-- Both descents end in the leaf whose interval contains the key. -/
theorem findLeaf_eq (operation : Operation υ) (hcmp : RankedBy index.keyComparator rank)
    (hinv : TreeInv rank t.pages g none) (hroot : g.dom t.pages.rootPage) :
    ∃ leaf descent, findLeaf index operation t.pages = .ok leaf descent ∧
      BplusTreeHandler.findLeaf index operation.key (BplusTreeMiniTransaction.start t true []) =
        .ok leaf (BplusTreeMiniTransaction.start t true []) := by
  have hlatched : Triple (fun s => s.memo = []) (index.latchLeaf (fun _ => .still t.pages)
      operation.type operation.key (t.pages.fileHeader.pageCount + 1)) _ fun _ _ => False :=
    latchLeaf_still hcmp hinv hroot _ (Or.inl (Nat.lt_succ_of_lt (hinv.lvl_root_lt hroot)))
  have hplain : Triple (· = BplusTreeMiniTransaction.start t true [])
      (BplusTreeHandler.findLeaf index operation.key) _ fun _ _ => False :=
    findLeaf_spec hcmp hinv (at_start t) hroot _
  obtain ⟨leaf, descent, hleaf, ⟨hdom, hlvl, hlo, hhi⟩, -⟩ :=
    hlatched.exists_ok (s := ⟨0, [], []⟩) rfl
  obtain ⟨leaf', s, hleaf', ⟨hdom', hlvl', hlo', hhi'⟩, rfl⟩ := hplain.exists_ok rfl
  obtain rfl := hinv.eq_of_common hdom hdom' (hlvl.trans hlvl'.symm) ⟨hlo, hhi⟩ ⟨hlo', hhi'⟩
  exact ⟨leaf, descent, hleaf, hleaf'⟩

/-- The latches leave the call as it is. -/
theorem call_eq (hcmp : RankedBy index.keyComparator rank)
    (hu : index.fileHeader.unique = false) (hinv : TreeInv rank t.pages g none) :
    call index operation t = index.call ⟨operation, []⟩ t := by
  unfold call
  by_cases hroot : t.pages.rootPage = bpInvalidPageNum
  · rw [if_pos hroot]
  · obtain ⟨leaf, descent, hlatched, hplain⟩ := findLeaf_eq operation hcmp hinv
      (hinv.root.elim (fun h => absurd h.1 hroot) fun h => h.1)
    rw [if_neg hroot, hlatched]
    have herases := change_erases index operation.type operation.key operation.key.rid leaf
      (start (BplusTreeMiniTransaction.start t true []) descent.memo)
    have hread : Returns readRootPage (BplusTreeMiniTransaction.start t true []) t.pages.rootPage
      (BplusTreeMiniTransaction.start t true []) := rfl
    cases operation with
    | insert userKey rid isNull =>
      apply run_congr
      have hcheck : checkUnique index userKey isNull = pure () := by
        rw [checkUnique, if_neg (by rw [hu]; simp)]
      change Returns (BplusTreeHandler.findLeaf index ⟨userKey, rid⟩) _ leaf _ at hplain
      rw [insertEntryMtr, bind_of_returns hread, if_neg hroot, hcheck, pure_bind]
      refine Eq.trans ?_ (bind_of_returns hplain).symm
      exact herases
    | delete userKey rid =>
      apply run_congr
      change Returns (BplusTreeHandler.findLeaf index ⟨userKey, rid⟩) _ leaf _ at hplain
      rw [deleteEntryMtr, bind_of_returns hread, if_neg hroot]
      refine Eq.trans ?_ (bind_of_returns hplain).symm
      exact herases

omit [DecidableEq υ] in
theorem safeCall (hcmp : RankedBy index.keyComparator rank) (hinv : TreeInv rank t.pages g none) :
    SafeCall index operation t := by
  intro leaf descent hleaf
  exact changes_safe (t := BplusTreeMiniTransaction.start t true []) hcmp hinv _ _ _ hleaf

/-! ## The set of entries -/

/-- The entries of a set between the keys of a range, in the order of the index. -/
def ShowsRange (rank : Key υ → ρ) (range : ScanRange (Key υ)) (S : Finset (Key υ))
    (keys : List (Key υ)) : Prop :=
  keys.Pairwise (fun a b => rank a < rank b) ∧
    ∀ key, key ∈ keys ↔ key ∈ S ∧ (∀ left ∈ range.leftKey, rank left ≤ rank key) ∧
      ∀ right ∈ range.rightKey, rank key ≤ rank right

/-- The answers of a set to the requests. -/
inductive AnswersOnSet (rank : Key υ → ρ) :
    List (Request υ) → Finset (Key υ) → List Answer → Finset (Key υ) → Prop
  | nil (S : Finset (Key υ)) : AnswersOnSet rank [] S [] S
  | change {operation requests S S' answers}
      (hrest : AnswersOnSet rank requests (operation.onSet S).2 answers S') :
      AnswersOnSet rank (.change operation :: requests) S (.code (operation.onSet S).1 :: answers)
        S'
  | scan {range requests S S' answers keys} (hkeys : ShowsRange rank range S keys)
      (hrest : AnswersOnSet rank requests S answers S') :
      AnswersOnSet rank (.scan range :: requests) S (.rids (keys.map Key.rid) :: answers) S'

omit [Inhabited υ] [DecidableEq υ] in
/-- A tree of one entry loses its root with it. -/
theorem deleteEntryMtr_last (hcmp : RankedBy index.keyComparator rank)
    (hL : 2 ≤ index.fileHeader.leafMaxSize) (hinv : TreeInv rank v g none) {s₀ : Mtr (Key υ)}
    (hs₀ : At v s₀) (hroot : g.dom v.rootPage) (hl : g.lvl v.rootPage = 0)
    (hone : (v.node v.rootPage).size = 1) (userKey : υ) (rid : RID) :
    Triple (· = s₀) (deleteEntryMtr index userKey rid)
      (fun _ s => s.pages.rootPage = bpInvalidPageNum) (fun _ _ => True) := by
  have hleaf := hinv.leaf _ hroot hl
  have hpar : (v.node v.rootPage).parent = bpInvalidPageNum := (hinv.root_bounds hroot).2.2
  refine readRootPage_of (v := v) (fun s hs => hs ▸ hs₀.1) ?_
  rw [if_neg (hinv.ne_invalid hroot)]
  refine (findLeaf_spec hcmp hinv hs₀ hroot _).bind fun p => Triple.of_and ?_
  rintro ⟨hp, hlp, -⟩
  obtain rfl : p = v.rootPage := (hinv.eq_root_of_lvl hp (hlp.trans hl.symm)).elim id (by simp)
  unfold BplusTreeHandler.deleteEntryInternal LeafIndexNodeHandler.removeKey
  rw [bind_assoc]
  refine readNode_of (v := v) (fun s hs => hs ▸ hs₀.1) ?_
  have hpos := LeafIndexNodeHandler.lookup_spec ⟨userKey, rid⟩ hcmp hleaf.sorted
  generalize LeafIndexNodeHandler.lookup index.keyComparator (v.node v.rootPage) _ = result
    at hpos ⊢
  obtain ⟨pos, found⟩ := result
  cases found with
  | false => exact Triple.throw fun _ _ => trivial
  | true =>
    obtain ⟨old, hold, -⟩ := hpos.hit rfl
    have hlt : pos < (v.node v.rootPage).size := (List.getElem?_eq_some_iff.mp hold).1
    simp only [if_true, bind_assoc, pure_bind, Nat.one_ne_zero, if_false]
    refine Triple.pre (H := At v) ?_ fun s hs => hs ▸ hs₀
    refine (LeafIndexNodeHandler.remove_at hlt).bind fun _ => markDirty_at.bind fun _ => ?_
    have hlen : (v.node v.rootPage).items.length = 1 := hone
    rw [List.take_eq_nil_iff.mpr (Or.inl (by omega)), List.drop_eq_nil_of_le (by omega),
      List.append_nil]
    set node : IndexNode (Key υ) := { v.node v.rootPage with items := [] } with hnode
    have hsize : node.size = 0 := rfl
    have hleaf' : node.isLeaf = true := hleaf.isLeaf
    have hsmall : ¬ IndexNodeHandler.minSize index.fileHeader node ≤ node.size := by
      rw [IndexNodeHandler.minSize, IndexNodeHandler.maxSize, if_pos hleaf']
      omega
    refine readNode_bind ?_
    rw [Pages.setNode_self, if_neg hsmall]
    refine rounds_bind (readNode_bind ?_)
    rw [Pages.setNode_self, if_neg hsmall, if_pos hpar, if_neg (by omega)]
    refine ignoreRC_at (readNode_bind ?_)
    rw [Pages.setNode_self, if_neg (by omega), if_pos hleaf']
    exact updateRootPageNumLocked_at.bind fun _ => disposePage_at.post fun _ s hs => by rw [hs.1]

/-- The tree holds the entries of the set; without entries it has no root. -/
structure Stores (header : IndexFileHeader) (rank : Key υ → ρ) (t : TreeState (Key υ))
    (S : Finset (Key υ)) : Prop where
  holds : Holds header rank t S
  noRoot : S = ∅ → t.pages.rootPage = bpInvalidPageNum

omit [Inhabited υ] [DecidableEq υ] in
/-- One entry is alone on the root. -/
theorem size_root_of_singleton {header : IndexFileHeader} (hL : 4 ≤ header.leafMaxSize)
    (hw : WellFormed header rank v g) {entry : Item (Key υ)} (he : Entry v g entry)
    (hkeys : ∀ item, Entry v g item → item.key = entry.key) :
    g.dom v.rootPage ∧ g.lvl v.rootPage = 0 ∧ (v.node v.rootPage).size = 1 := by
  obtain ⟨p, hp, hl, hmem⟩ := he
  have hall : ∀ item ∈ (v.node p).items, item.key = entry.key := fun item hitem =>
    hkeys item ⟨p, hp, hl, hitem⟩
  have hone : (v.node p).items.length = 1 := by
    have hsorted := (hw.tree.leaf p hp hl).sorted
    generalize (v.node p).items = items at hmem hall hsorted
    rcases items with - | ⟨first, - | ⟨second, rest⟩⟩
    · cases hmem
    · rfl
    · have hlt := (List.pairwise_cons.mp hsorted).1 second List.mem_cons_self
      rw [hall first (by simp), hall second (by simp)] at hlt
      exact absurd hlt (lt_irrefl _)
  obtain rfl : p = v.rootPage := by
    by_contra hne
    have := two_le_of_ne_root hL hw hp hl hne
    omega
  exact ⟨hp, hl, hone⟩

theorem Stores.call (hcmp : RankedBy index.keyComparator rank)
    (hrank : Function.Injective rank) (hL : 4 ≤ index.fileHeader.leafMaxSize)
    (hm : 6 ≤ index.fileHeader.internalMaxSize) (hu : index.fileHeader.unique = false)
    (h : Stores index.fileHeader rank t S) (operation : Operation υ) :
    ∃ t', index.call ⟨operation, []⟩ t = some ((operation.onSet S).1, t') ∧
      Stores index.fileHeader rank t' (operation.onSet S).2 := by
  obtain ⟨t', hcall, h'⟩ := h.holds.call (c := ⟨operation, []⟩) hcmp hrank hL hm hu rfl
  refine ⟨t', hcall, h', ?_⟩
  obtain ⟨g, hw, he⟩ := h.holds
  cases operation with
  | insert userKey rid isNull =>
    simp only [Operation.onSet]
    split_ifs with hmem
    · exact fun hempty => absurd hmem (by simp [show S = ∅ from hempty])
    · exact fun hempty => absurd hempty (Finset.insert_ne_empty _ _)
  | delete userKey rid =>
    have hspec := deleteEntryMtr_spec userKey rid hcmp (by omega) hw (at_start t)
    rw [hasKey_iff hrank he] at hspec
    change BplusTreeMiniTransaction.run (deleteEntryMtr index userKey rid) t [] = some _ at hcall
    cases hrun : deleteEntryMtr index userKey rid (BplusTreeMiniTransaction.start t true []) with
    | ok a s =>
      obtain ⟨hmem, -⟩ := hspec.ok rfl hrun
      obtain ⟨t'', ht'', hpages⟩ := run_ok hrun
      obtain ⟨-, rfl⟩ := Prod.mk.inj (Option.some.inj (hcall.symm.trans ht''))
      rw [Operation.onSet, if_pos hmem, hpages]
      intro hempty
      have hS : S = {⟨userKey, rid⟩} := (Finset.erase_eq_empty_iff _ _).mp hempty |>.resolve_left
        (Finset.ne_empty_of_mem hmem)
      obtain ⟨hroot, hl, hone⟩ := size_root_of_singleton hL hw
        ((he ⟨⟨userKey, rid⟩, .rid rid⟩).mpr ⟨hmem, rfl⟩) fun item hitem =>
          Finset.mem_singleton.mp (hS ▸ ((he item).mp hitem).1)
      exact (deleteEntryMtr_last hcmp (by omega) hw.tree (at_start t) hroot hl hone userKey
        rid).ok rfl hrun
    | error e s =>
      rcases hspec.error rfl hrun with ⟨rfl, hmem, -, rfl⟩ | ⟨-, ⟨rfl, -⟩⟩
      · obtain ⟨t'', ht'', hpages⟩ := run_refused hw.disposed rfl hrun
        obtain ⟨-, rfl⟩ := Prod.mk.inj (Option.some.inj (hcall.symm.trans ht''))
        rw [Operation.onSet, if_neg hmem, hpages]
        exact h.noRoot
      · rw [run_abort hrun] at hcall
        cases hcall

omit [DecidableEq υ] in
theorem Stores.scan (hcmp : RankedBy index.keyComparator rank) {header : IndexFileHeader}
    (hL : 4 ≤ header.leafMaxSize) (h : Stores header rank t S) {range : ScanRange (Key υ)}
    (hvalid : range.valid = true) :
    ∃ keys, ShowsRange rank range S keys ∧ ScansTo index t range (keys.map Key.rid) := by
  obtain ⟨g, hw, he⟩ := h.holds
  have hleaves : ∀ p, g.dom p → g.lvl p = 0 → (t.pages.node p).items ≠ [] := by
    intro p hp hl hnil
    have hroot := hw.tree.dom_root hp
    obtain rfl : p = t.pages.rootPage := by
      by_contra hne
      have := two_le_of_ne_root hL hw hp hl hne
      simp [hnil] at this
    have hne : S.Nonempty := Finset.nonempty_iff_ne_empty.mpr fun hempty =>
      hw.tree.ne_invalid hroot (h.noRoot hempty)
    obtain ⟨key, hkey⟩ := hne
    obtain ⟨q, hq, hlq, hmem⟩ := (he ⟨key, .rid key.rid⟩).mpr ⟨hkey, rfl⟩
    obtain rfl : q = t.pages.rootPage :=
      (hw.tree.eq_root_of_lvl hq (hlq.trans hl.symm)).elim id (by simp)
    rw [hnil] at hmem
    cases hmem
  obtain ⟨items, hsorted, hmem, hscan⟩ := scanAll_spec hcmp hw.tree hleaves range hvalid
    (Nat.lt_succ_self _)
  have hrids : (items.map Item.key).map Key.rid = items.map fun item => item.value.toRid := by
    rw [List.map_map]
    refine List.map_congr_left fun item hitem => ?_
    rw [((he item).mp ((hmem item).mp hitem).1).2]
    rfl
  refine ⟨items.map Item.key, ⟨List.pairwise_map.mpr hsorted, fun key => ?_⟩, ?_⟩
  · simp only [List.mem_map, hmem, he]
    constructor
    · rintro ⟨item, ⟨⟨hkey, -⟩, hrange⟩, rfl⟩
      exact ⟨hkey, hrange⟩
    · rintro ⟨hkey, hrange⟩
      exact ⟨⟨key, .rid key.rid⟩, ⟨⟨hkey, rfl⟩, hrange⟩, rfl⟩
  · intro calls hcalls
    rw [hrids]
    exact hscan calls (by simpa using hcalls)

/-- With latches the index answers as the sorted set of its entries does, and changes as it does;
all changes are safe. -/
theorem latched_refines_set (hcmp : RankedBy index.keyComparator rank)
    (hrank : Function.Injective rank) (hL : 4 ≤ index.fileHeader.leafMaxSize)
    (hm : 6 ≤ index.fileHeader.internalMaxSize) (hu : index.fileHeader.unique = false)
    (h : Stores index.fileHeader rank t S) (requests : List (Request υ))
    (hvalid : ∀ range, .scan range ∈ requests → range.valid = true) :
    ∃ answers t' S', SafeRun index requests t answers t' ∧
      AnswersOnSet rank requests S answers S' ∧ Stores index.fileHeader rank t' S' := by
  induction requests generalizing t S with
  | nil => exact ⟨[], t, S, .nil t, .nil S, h⟩
  | cons request requests ih =>
    have hrest := fun range hmem => hvalid range (List.mem_cons_of_mem _ hmem)
    cases request with
    | change operation =>
      obtain ⟨g, hw, -⟩ := h.holds
      obtain ⟨t₁, hcall, h₁⟩ := h.call hcmp hrank hL hm hu operation
      rw [← call_eq hcmp hu hw.tree] at hcall
      obtain ⟨answers, t', S', hrun, hanswers, h'⟩ := ih h₁ hrest
      exact ⟨_, t', S', .change (safeCall hcmp hw.tree) hcall hrun, .change hanswers, h'⟩
    | scan range =>
      obtain ⟨keys, hkeys, hscan⟩ := h.scan hcmp hL (hvalid range List.mem_cons_self)
      obtain ⟨answers, t', S', hrun, hanswers, h'⟩ := ih h hrest
      exact ⟨_, t', S', .scan hscan hrun, .scan hkeys hanswers, h'⟩

/-- The whole index is scanned with an entry in it and after the entry has been taken out. -/
def insertScanDelete : List (Request (UserKey [.ints])) :=
  [.change (.insert (intKey 1) ⟨0, 0⟩ false), .scan ⟨true, none, none⟩,
    .change (.delete (intKey 1) ⟨0, 0⟩), .scan ⟨true, none, none⟩]

theorem latched_refines_set_twice :
    ∃ answers t' S', SafeRun intIndex insertScanDelete TreeState.create answers t' ∧
      AnswersOnSet (Key.rank (UserKey.rank [.ints])) insertScanDelete ∅ answers S' ∧
      Stores intIndex.fileHeader (Key.rank (UserKey.rank [.ints])) t' S' :=
  latched_refines_set (ranked_ofAttrs [.ints] intIndex.fileHeader)
    (Key.rank_injective UserKey.rank_ints_injective) (by decide) (by decide) rfl
    ⟨holds_create _ intIndex.fileHeader, fun _ => rfl⟩ insertScanDelete
    (by simp [insertScanDelete])

end Crabbing

end ObHtap
