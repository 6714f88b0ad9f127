import ObHtap.Bplus.FairSplits
import ObHtap.Bplus.ScanBound
import ObHtap.Bplus.LatchedDescent
import Mathlib.Data.List.TakeWhile

/-!
# Scanning a range

In a tree that nobody changes, a scan gives the entries whose user keys lie within its bounds, in
the order of the index and each of them once.
-/

namespace ObHtap

open ObHtap.Bound BplusTreeScanner LatchMemo

namespace LatchedScanner

variable {κ φ : Type}

/-- Calls `next_entry` until it has nothing more to give. -/
def drain (tree : BplusTreeHandler κ) (world : Nat → Surroundings κ φ) (rounds : Nat) :
    Nat → ScanM κ φ (List RID)
  | 0 => throw .outOfFuel
  | calls + 1 => fun s =>
    match nextEntry tree world rounds s with
    | .ok rid s' =>
      match drain tree world rounds calls s' with
      | .ok rids s'' => .ok (rid :: rids) s''
      | .error e s'' => .error e s''
    | .error e s' => if e = .rc .recordEof then .ok [] s' else .error e s'

/-- A whole scan: `open`, and `next_entry` up to the end. -/
def scanAll (tree : BplusTreeHandler κ) (world : Nat → Surroundings κ φ) (rounds calls : Nat)
    (range : ScanRange κ) : ScanM κ φ (List RID) := do
  openScan tree world rounds range
  drain tree world rounds calls

variable {ρ : Type} [LinearOrder ρ] {rank : κ → ρ} {v : Pages κ} {g : Layout ρ}
  {tree : BplusTreeHandler κ} {p q : PageNum} {index : Int} {emitted : Bool} {right : Option κ}
  {E : Fault → LatchedScanner κ PageNum → Prop} {s : LatchedScanner κ PageNum}
  {items : List (Item κ)} {item : Item κ} {i rounds : Nat}

/-- Where a scanner is. -/
def Scans (frame : Option PageNum) (index : Int) (emitted : Bool) (right : Option κ)
    (s : LatchedScanner κ PageNum) : Prop :=
  s.currentFrame = frame ∧ s.iterIndex = index ∧ s.firstEmitted = emitted ∧ s.rightKey = right

theorem latching_still {α : Type} {x : LatchM PageNum α} {C : α → Prop}
    (h : Triple (fun _ => True) x (fun a _ => C a) fun _ _ => False)
    {R : LatchedScanner κ PageNum → Prop} (hR : ∀ s l, R s → R { s with toLatching := l }) :
    Triple R (latching x) (fun a s => C a ∧ R s) E := by
  intro s hs
  have hx := h s.toLatching trivial
  rw [latching]
  cases hrun : x s.toLatching with
  | ok a l => rw [hrun] at hx; exact ⟨hx, hR s l hs⟩
  | error e l => rw [hrun] at hx; exact hx.elim

theorem readFrame_scans (p : PageNum) :
    Triple (Scans (some q) index emitted right) (latching (readFrame (fun _ => .still v) p))
      (fun node s => node = v.node p ∧ Scans (some q) index emitted right s) E :=
  latching_still (fun _ _ => rfl) fun _ _ hs => hs

theorem itemAt_scans (hitem : (v.node p).items[i]? = some item) :
    Triple (Scans (some q) index emitted right) (latching (itemAt (fun _ => .still v) p i))
      (fun found s => found = item ∧ Scans (some q) index emitted right s) E := by
  refine latching_still (fun l _ => ?_) fun _ _ hs => hs
  have h := itemAt_still (E := fun _ _ => False) hitem l rfl
  cases hrun : itemAt (fun _ => .still v) p i l with
  | ok found l' => rw [hrun] at h; exact h.1
  | error e l' => rw [hrun] at h; exact h.elim

theorem fetchItem_scans (hitem : (v.node p).items[i]? = some item) :
    Triple (Scans (some q) i emitted right) (LatchedScanner.fetchItem (fun _ => .still v) p)
      (fun rid s => rid = item.value.toRid ∧ Scans (some q) i emitted right s) E := by
  rw [LatchedScanner.fetchItem]
  refine Triple.bind (Q := fun s s' => s.iterIndex = (i : Int) ∧ Scans (some q) i emitted right s')
    (Triple.get fun s hs => ⟨hs.2.1, hs⟩) fun s => Triple.of_and fun hindex => ?_
  rw [hindex]
  refine (itemAt_scans hitem).bind fun found => Triple.of_and ?_
  rintro rfl
  exact Triple.pure fun s hs => ⟨rfl, hs⟩

theorem fetchFrame_scans (hin : v.InFile p) {frame : Option PageNum} :
    Triple (Scans frame index emitted right)
      (fetchFrame (LatchMemo.getPage (fun _ => .still v) p))
      (fun found s => found = p ∧ Scans (some p) index emitted right s) E := by
  rintro s ⟨-, hs⟩
  have h := getPage_still (E := fun _ _ => False) hin s.toLatching rfl
  rw [fetchFrame]
  cases hrun : LatchMemo.getPage (fun _ => .still v) p s.toLatching with
  | ok found l => rw [hrun] at h; exact ⟨h.1, congrArg some h.1, hs⟩
  | error e l => rw [hrun] at h; exact h.elim

theorem latching_scans {α : Type} {x : LatchM PageNum α} (hx : ∀ l, ∃ a l', x l = .ok a l')
    {frame : Option PageNum} :
    Triple (Scans frame index emitted right) (latching x)
      (fun _ => Scans frame index emitted right) E := by
  intro s hs
  obtain ⟨a, l', hrun⟩ := hx s.toLatching
  rw [latching, hrun]
  exact hs

theorem setIterIndex_scans (j : Int) {frame : Option PageNum} :
    Triple (Scans frame index emitted right) (setIterIndex j : ScanM κ PageNum Unit)
      (fun _ => Scans frame j emitted right) E :=
  Triple.modify fun _ hs => ⟨hs.1, rfl, hs.2.2⟩

theorem enterNextLeaf_still (hin : (v.node p).nextBrother = bpInvalidPageNum ∨
    v.InFile (v.node p).nextBrother) :
    Triple (Scans (some p) index emitted right) (enterNextLeaf (fun _ => .still v) p)
      (fun _ s => (v.node p).nextBrother ≠ bpInvalidPageNum ∧
        Scans (some (v.node p).nextBrother) (-1) emitted right s)
      (fun e _ => e = .rc .recordEof ∧ (v.node p).nextBrother = bpInvalidPageNum) := by
  refine (readFrame_scans p).bind fun node => Triple.of_and ?_
  rintro rfl
  refine Triple.ite (fun hnext => Triple.throw fun _ _ => ⟨rfl, hnext⟩) fun hnext => ?_
  refine (latching_scans fun l => ⟨_, _, rfl⟩).bind fun point => ?_
  refine (fetchFrame_scans (hin.resolve_left hnext)).bind fun frame => Triple.of_and ?_
  rintro rfl
  refine (latching_still (C := fun locked => locked = true) (fun _ _ => rfl)
    fun _ _ hs => hs).bind fun locked => Triple.of_and ?_
  rintro rfl
  rw [if_pos rfl]
  refine (latching_scans fun l => ⟨_, _, rfl⟩).bind fun _ => ?_
  exact (setIterIndex_scans (-1)).post fun _ s hs => ⟨hnext, hs⟩

theorem nextEntry_first (hitem : (v.node p).items[i]? = some item) :
    Triple (Scans (some p) i false right)
      (LatchedScanner.nextEntry tree (fun _ => .still v) (rounds + 1))
      (fun rid s => rid = item.value.toRid ∧ Scans (some p) i true right s) E := by
  rw [LatchedScanner.nextEntry]
  refine Triple.bind (Q := fun s s' => s.currentFrame = some p ∧ Scans (some p) i false right s')
    (Triple.get fun s hs => ⟨hs.1, hs⟩) fun s => Triple.of_and fun hframe => ?_
  simp only [hframe]
  refine Triple.bind (Q := fun s s' => s.firstEmitted = false ∧ Scans (some p) i false right s')
    (Triple.get fun s hs => ⟨hs.2.2.1, hs⟩) fun s => Triple.of_and fun hemitted => ?_
  rw [if_neg (by rw [hemitted]; exact Bool.false_ne_true)]
  refine (fetchItem_scans hitem).bind fun rid => Triple.of_and ?_
  rintro rfl
  exact Triple.bind (Q := fun _ => Scans (some p) i true right)
    (Triple.modify fun s hs => ⟨hs.1, hs.2.1, rfl, hs.2.2.2⟩) fun _ =>
    Triple.pure fun s hs => ⟨rfl, hs⟩

/-! ## Opening a scan -/

/-- A leaf that `open` may start in. -/
def StartLeaf (rank : κ → ρ) (g : Layout ρ) (p : PageNum) : Option κ → Prop
  | none => g.lo p = ⊥
  | some key => g.lo p ≤ at_ (rank key) ∧ at_ (rank key) < g.hi p

theorem startLeaf_still (hcmp : RankedBy tree.keyComparator rank) (h : TreeInv rank v g none)
    (hroot : g.dom v.rootPage) (hrounds : v.fileHeader.pageCount < rounds) (left : Option κ) :
    Triple (fun s => s.memo = []) (startLeaf tree (fun _ => .still v) rounds left)
      (fun p _ => g.dom p ∧ g.lvl p = 0 ∧ StartLeaf rank g p left) fun _ _ => False := by
  have hlvl := (h.lvl_root_lt hroot).trans hrounds
  cases left with
  | none => exact (BplusTreeHandler.latchLeftMost_still h hroot (Or.inl hlvl)).post fun _ _ hs => hs.1
  | some key =>
    exact (BplusTreeHandler.latchLeaf_still hcmp h hroot key (Or.inl hlvl)).post fun _ _ hs => hs.1

/-- The place of the left key in its leaf. -/
def startPos (tree : BplusTreeHandler κ) (node : IndexNode κ) : Option κ → Nat
  | none => 0
  | some key => (LeafIndexNodeHandler.lookup tree.keyComparator node key).1

/-- The items that a scan starts with are the entries that are not below its left key. -/
theorem mem_start (hcmp : RankedBy tree.keyComparator rank) (h : TreeInv rank v g none)
    (hp : g.dom p) (hl : g.lvl p = 0) {left : Option κ} (hleft : StartLeaf rank g p left)
    {ps : List PageNum} (hpw : (p :: ps).Pairwise fun a b => g.hi a ≤ g.lo b)
    (hmem : ∀ q, q ∈ p :: ps ↔ g.dom q ∧ g.lvl q = 0 ∧ g.lo p ≤ g.lo q) :
    item ∈ (v.node p).items.drop (startPos tree (v.node p) left) ++ v.itemsOf ps ↔
      Entry v g item ∧ ∀ key ∈ left, rank key ≤ rank item.key := by
  cases left with
  | some key =>
    rw [startPos, mem_append_itemsOf hcmp h hp hl hleft.1 hleft.2 hpw hmem]
    simp
  | none =>
    change item ∈ v.itemsOf (p :: ps) ↔ _
    rw [Pages.itemsOf, List.mem_flatMap]
    simp only [hmem, show g.lo p = ⊥ from hleft, bot_le, and_true, Option.mem_def, reduceCtorEq,
      false_implies, implies_true, Entry, and_assoc]

/-- The items that `open` starts with are those from its place in a leaf on. -/
def StartsWith (v : Pages κ) (g : Layout ρ) (start : Option PageNum) (items : List (Item κ))
    (s : LatchedScanner κ PageNum) : Prop :=
  match start with
  | none => items = [] ∧ s.currentFrame = none
  | some p => ∃ i ps, i < (v.node p).items.length ∧ Chain v p (p :: ps) ∧
      ps.length ≤ v.fileHeader.pageCount ∧ (g.dom p ∧ g.lvl p = 0) ∧
      items = (v.node p).items.drop i ++ v.itemsOf ps ∧
      s.currentFrame = some p ∧ s.iterIndex = i ∧ s.firstEmitted = false

theorem readFrame_starts (p : PageNum) :
    Triple (fun s => s.currentFrame = some q ∧ s.firstEmitted = false)
      (latching (readFrame (fun _ => .still v) p))
      (fun node s => node = v.node p ∧ s.currentFrame = some q ∧ s.firstEmitted = false) E :=
  latching_still (R := fun s => s.currentFrame = some q ∧ s.firstEmitted = false)
    (fun _ _ => rfl) fun _ _ hs => hs

theorem startInNextLeaf_still (h : TreeInv rank v g none)
    (hleaves : ∀ p, g.dom p → g.lvl p = 0 → (v.node p).items ≠ []) (hp : g.dom p)
    (hl : g.lvl p = 0) {ps : List PageNum} (hchain : Chain v p (p :: ps))
    (hpages : ps.length ≤ v.fileHeader.pageCount) :
    Triple (fun s => s.currentFrame = some p ∧ s.firstEmitted = false)
      (startInNextLeaf (fun _ => .still v) p)
      (fun start s => StartsWith v g start (v.itemsOf ps) s) E := by
  refine (readFrame_starts p).bind fun node => Triple.of_and ?_
  rintro rfl
  cases hchain with
  | cons _ htail =>
    refine Triple.ite (fun hnext => ?_) fun hnext => ?_
    · obtain rfl := htail.eq_nil hnext
      refine Triple.bind (Q := fun _ _ => True) (fun _ _ => trivial) fun _ => ?_
      exact Triple.bind (Q := fun _ s => s.currentFrame = none) (Triple.modify fun _ _ => rfl)
        fun _ => Triple.pure fun _ hs => ⟨rfl, hs⟩
    · obtain ⟨hd, hlq, -⟩ := (h.next p hp hl).resolve_left fun hc => hnext hc.2
      obtain ⟨qs, rfl⟩ := htail.exists_cons hnext
      refine Triple.bind (Q := fun frame s => frame = (v.node p).nextBrother ∧
        s.currentFrame = some (v.node p).nextBrother ∧ s.firstEmitted = false) ?_ fun frame =>
        Triple.of_and ?_
      · intro s hs
        obtain ⟨found, s', hrun, rfl, hs'⟩ := (fetchFrame_scans (h.inFile hd)).exists_ok
          (show Scans s.currentFrame s.iterIndex false s.rightKey s from ⟨rfl, rfl, hs.2, rfl⟩)
        rw [releaseOnError, hrun]
        exact ⟨rfl, hs'.1, hs'.2.2.1⟩
      · rintro rfl
        refine Triple.bind (Q := fun _ (s : LatchedScanner κ PageNum) =>
          s.currentFrame = some (v.node p).nextBrother ∧ s.firstEmitted = false) (fun _ hs => hs) fun _ => ?_
        refine Triple.bind (Q := fun _ s => s.iterIndex = 0 ∧
          s.currentFrame = some (v.node p).nextBrother ∧ s.firstEmitted = false)
          (Triple.modify fun s hs => ⟨rfl, hs⟩) fun _ => Triple.pure fun s hs => ?_
        rw [List.length_cons] at hpages
        exact ⟨0, qs, List.length_pos_iff.mpr (hleaves _ hd hlq), htail, by omega, ⟨hd, hlq⟩, rfl,
          hs.2.1, hs.1, hs.2.2⟩

theorem startIndex_still (h : TreeInv rank v g none)
    (hleaves : ∀ p, g.dom p → g.lvl p = 0 → (v.node p).items ≠ []) (left : Option κ)
    (hp : g.dom p) (hl : g.lvl p = 0) {ps : List PageNum} (hchain : Chain v p (p :: ps))
    (hpages : ps.length ≤ v.fileHeader.pageCount) :
    Triple (fun s => s.currentFrame = some p ∧ s.firstEmitted = false)
      (startIndex tree (fun _ => .still v) left p)
      (fun start s => StartsWith v g start
        ((v.node p).items.drop (startPos tree (v.node p) left) ++ v.itemsOf ps) s) E := by
  have hset (i : Nat) (hi : i < (v.node p).items.length) :
      Triple (fun s => s.currentFrame = some p ∧ s.firstEmitted = false)
        (do setIterIndex (i : Int); pure (some p) : ScanM κ PageNum (Option PageNum))
        (fun start s => StartsWith v g start ((v.node p).items.drop i ++ v.itemsOf ps) s) E :=
    Triple.bind (Q := fun _ s => s.iterIndex = (i : Int) ∧ s.currentFrame = some p ∧
      s.firstEmitted = false) (Triple.modify fun s hs => ⟨rfl, hs⟩) fun _ =>
      Triple.pure fun s hs => ⟨i, ps, hi, hchain, hpages, ⟨hp, hl⟩, rfl, hs.2.1, hs.1, hs.2.2⟩
  cases left with
  | none => exact hset 0 (List.length_pos_iff.mpr (hleaves p hp hl))
  | some key =>
    refine (readFrame_starts p).bind fun leftNode => Triple.of_and ?_
    rintro rfl
    refine (readFrame_starts p).bind fun node => Triple.of_and ?_
    rintro rfl
    refine Triple.ite (fun hlt => hset _ hlt) fun hge => ?_
    -- the left key is behind the last item of its leaf
    have hdrop : (v.node p).items.drop (startPos tree (v.node p) (some key)) = [] :=
      List.drop_eq_nil_of_le (Nat.le_of_not_lt hge)
    rw [hdrop, List.nil_append]
    exact startInNextLeaf_still h hleaves hp hl hchain hpages

/-! ## Up to the right key -/

variable [Inhabited κ]

/-- The comparator and the key by which a scan ends.  Without a right key nothing is behind it. -/
def stopAt (tree : BplusTreeHandler κ) : Option κ → BplusTreeHandler κ × κ
  | some key => (tree, key)
  | none => (⟨tree.fileHeader, fun _ _ => 0⟩, default)

theorem touchEnd_scans (hitem : (v.node p).items[i]? = some item) :
    Triple (Scans (some q) i emitted right) (touchEnd tree (fun _ => .still v) p)
      (fun atEnd s => atEnd = BplusTreeScanner.touchEnd (stopAt tree right).1 v
        (stopAt tree right).2 p i ∧ Scans (some q) i emitted right s) E := by
  rw [touchEnd]
  refine Triple.bind (Q := fun s s' => s.rightKey = right ∧ Scans (some q) i emitted right s')
    (Triple.get fun s hs => ⟨hs.2.2.2, hs⟩) fun s => Triple.of_and fun hright => ?_
  rw [hright]
  cases right with
  | none =>
    refine Triple.pure fun s hs => ⟨?_, hs⟩
    rw [BplusTreeScanner.touchEnd, compareAt, hitem]
    rfl
  | some key =>
    refine Triple.bind (Q := fun s s' => s.iterIndex = (i : Int) ∧ Scans (some q) i emitted (some key) s')
      (Triple.get fun s hs => ⟨hs.2.1, hs⟩) fun s => Triple.of_and fun hindex => ?_
    rw [hindex]
    refine (itemAt_scans hitem).bind fun found => Triple.of_and ?_
    rintro rfl
    refine Triple.pure fun s hs => ⟨?_, hs⟩
    rw [BplusTreeScanner.touchEnd, compareAt, hitem]
    rfl

variable (tree right) in
/-- `next_entry` finds what it would find without latches, by induction on the rounds. -/
theorem nextEntry_still (h : TreeInv rank v g none) (rounds : Nat) {p : PageNum} (hp : g.dom p)
    (hl : g.lvl p = 0) (i : Nat) :
    Triple (Scans (some p) (i - 1) true right)
      (LatchedScanner.nextEntry tree (fun _ => .still v) rounds)
      (fun rid s => ∃ q j, nextEntryFrom (stopAt tree right).1 v (stopAt tree right).2 rounds p i =
          some (some (rid, q, j)) ∧ (g.dom q ∧ g.lvl q = 0) ∧ Scans (some q) j true right s)
      (fun e _ => nextEntryFrom (stopAt tree right).1 v (stopAt tree right).2 rounds p i = none ∨
        e = .rc .recordEof ∧
          nextEntryFrom (stopAt tree right).1 v (stopAt tree right).2 rounds p i = some none) := by
  induction rounds generalizing p i with
  | zero => exact Triple.throw fun _ _ => Or.inl rfl
  | succ rounds ih =>
    rw [LatchedScanner.nextEntry, nextEntryFrom]
    refine Triple.bind (Q := fun s s' => s.currentFrame = some p ∧
      Scans (some p) (i - 1) true right s') (Triple.get fun s hs => ⟨hs.1, hs⟩) fun s =>
      Triple.of_and fun hframe => ?_
    simp only [hframe]
    refine Triple.bind (Q := fun s s' => s.firstEmitted = true ∧
      Scans (some p) (i - 1) true right s') (Triple.get fun s hs => ⟨hs.2.2.1, hs⟩) fun s =>
      Triple.of_and fun hemitted => ?_
    rw [if_pos hemitted]
    refine Triple.bind (Q := fun s s' => s.iterIndex + 1 = (i : Int) ∧
      Scans (some p) (i - 1) true right s')
      (Triple.get fun s hs => ⟨by rw [hs.2.1, Int.sub_add_cancel], hs⟩) fun s =>
      Triple.of_and fun hindex => ?_
    simp only [hindex]
    refine (setIterIndex_scans i).bind fun _ => (readFrame_scans p).bind fun node =>
      Triple.of_and ?_
    rintro rfl
    by_cases hi : i < (v.node p).size
    · have hi' : (i : Int) < (v.node p).size := Int.ofNat_lt.mpr hi
      rw [if_pos hi', if_pos hi]
      have hitem : (v.node p).items[i]? = some (v.node p).items[i] := List.getElem?_eq_getElem hi
      refine (touchEnd_scans hitem).bind fun atEnd => Triple.of_and ?_
      rintro rfl
      refine Triple.ite (fun hend => ?_) fun hend => ?_
      · rw [if_pos hend]
        exact Triple.throw fun _ _ => Or.inr ⟨rfl, rfl⟩
      · rw [if_neg hend]
        refine (fetchItem_scans hitem).post ?_
        rintro rid s ⟨rfl, hs⟩
        refine ⟨p, i, ?_, ⟨hp, hl⟩, hs⟩
        rw [BplusTreeScanner.fetchItem, hitem]
        rfl
    · have hi' : ¬ (i : Int) < (v.node p).size := fun h => hi (Int.ofNat_lt.mp h)
      rw [if_neg hi', if_neg hi]
      refine Triple.bind ((enterNextLeaf_still ?_).conseq (fun _ hs => hs) (fun _ _ hs => hs) ?_)
        fun _ => Triple.of_and fun hnext => ?_
      · exact (h.next p hp hl).imp (fun hc => hc.2) fun hc => h.inFile hc.1
      · rintro e s ⟨rfl, hnext⟩
        exact Or.inr ⟨rfl, if_pos hnext⟩
      · rw [if_neg hnext]
        obtain ⟨hd, hlq, -⟩ := (h.next p hp hl).resolve_left fun hc => hnext hc.2
        exact ih hd hlq 0

/-- The scanner has yet to give the items. -/
def Shows (tree : BplusTreeHandler κ) (v : Pages κ) (g : Layout ρ) (right : Option κ)
    (s : LatchedScanner κ PageNum) (items : List (Item κ)) : Prop :=
  ∃ a : BplusTreeScanner, Left (stopAt tree right).1 v (stopAt tree right).2 a items ∧
    s.currentFrame = a.currentFrame ∧ ∀ p, a.currentFrame = some p →
      (g.dom p ∧ g.lvl p = 0) ∧ Scans (some p) a.iterIndex a.firstEmitted right s

theorem nextEntry_shows (h : TreeInv rank v g none) (hrounds : v.fileHeader.pageCount < rounds)
    (hs : Shows tree v g right s items) :
    (items = [] ∧ ∃ s', LatchedScanner.nextEntry tree (fun _ => .still v) rounds s =
        .error (.rc .recordEof) s') ∨
      ∃ item rest s', items = item :: rest ∧ LatchedScanner.nextEntry tree (fun _ => .still v)
        rounds s = .ok item.value.toRid s' ∧ Shows tree v g right s' rest := by
  obtain ⟨rounds, rfl⟩ := Nat.exists_eq_add_of_lt hrounds
  obtain ⟨a, hleft, hframe, hscans⟩ := hs
  cases hleft with
  | eof i e =>
    exact Or.inl ⟨rfl, s, nextEntry_of_null _ _ _ hframe⟩
  | @first page ps i hchain hpages hi hend =>
    obtain ⟨hpage, hat⟩ := hscans page rfl
    have hitem : (v.node page).items[i]? = some (v.node page).items[i] :=
      List.getElem?_eq_getElem hi
    obtain ⟨rid, s', hrun, rfl, hs'⟩ := (nextEntry_first hitem).exists_ok hat
    refine Or.inr ⟨_, _, s', itemsFrom_of_lt hi hend, hrun, ⟨some page, i, true⟩,
      .next hchain hpages, hs'.1, ?_⟩
    rintro p ⟨⟩
    exact ⟨hpage, hs'⟩
  | @next page ps i hchain hpages =>
    obtain ⟨hpage, hat⟩ := hscans page rfl
    have hat' : Scans (some page) ((i + 1 : ℕ) - 1) true right s := by
      rw [Int.natCast_succ, Int.add_sub_cancel]
      exact hat
    have hnext := nextEntry_still tree right h (v.fileHeader.pageCount + rounds + 1) hpage.1
      hpage.2 (i + 1)
    rcases nextEntryFrom_spec (stopAt tree right).1 (stopAt tree right).2 (i + 1) hchain
      (show ps.length < v.fileHeader.pageCount + rounds + 1 by omega) with
      ⟨hnone, hitems⟩ | ⟨q, qs, j, item, hsome, hc, hle, hitems⟩
    · refine Or.inl ⟨hitems, ?_⟩
      cases hrun : LatchedScanner.nextEntry tree (fun _ => .still v)
        (v.fileHeader.pageCount + rounds + 1) s with
      | ok rid s' =>
        obtain ⟨q, j, hq, -⟩ := hnext.ok hat' hrun
        rw [hnone] at hq
        cases hq
      | error e s' =>
        rcases hnext.error hat' hrun with hq | ⟨rfl, -⟩
        · rw [hnone] at hq
          cases hq
        · exact ⟨s', rfl⟩
    · cases hrun : LatchedScanner.nextEntry tree (fun _ => .still v)
        (v.fileHeader.pageCount + rounds + 1) s with
      | ok rid s' =>
        obtain ⟨q', j', hq, hpage', hs'⟩ := hnext.ok hat' hrun
        rw [hsome] at hq
        obtain ⟨rfl, rfl, rfl⟩ : item.value.toRid = rid ∧ q = q' ∧ j = j' := by simpa using hq
        refine Or.inr ⟨item, _, s', hitems, rfl, ⟨some q, j, true⟩,
          .next hc (hle.trans hpages), hs'.1, ?_⟩
        rintro p ⟨⟩
        exact ⟨hpage', hs'⟩
      | error e s' =>
        rcases hnext.error hat' hrun with hq | ⟨-, hq⟩ <;> rw [hsome] at hq <;> cases hq

theorem drain_shows (h : TreeInv rank v g none) (hrounds : v.fileHeader.pageCount < rounds)
    (hs : Shows tree v g right s items) {calls : Nat} (hcalls : items.length < calls) :
    ∃ s', drain tree (fun _ => .still v) rounds calls s =
      .ok (items.map fun item => item.value.toRid) s' := by
  induction calls generalizing items s with
  | zero => omega
  | succ calls ih =>
    rcases nextEntry_shows h hrounds hs with ⟨rfl, s', hrun⟩ | ⟨item, rest, s', rfl, hrun, hs'⟩
    · exact ⟨s', by simp only [drain, hrun, if_true, List.map_nil]⟩
    · obtain ⟨s'', hrest⟩ := ih hs' (by simpa using hcalls)
      exact ⟨s'', by simp only [drain, hrun, hrest, List.map_cons]⟩

/-- The items of a scan that are within its right key. -/
def upTo (tree : BplusTreeHandler κ) (right : Option κ) (items : List (Item κ)) : List (Item κ) :=
  items.takeWhile (within (stopAt tree right).1 (stopAt tree right).2)

theorem mem_upTo (hcmp : RankedBy tree.keyComparator rank)
    (hsorted : items.Pairwise fun a b => rank a.key < rank b.key) :
    item ∈ upTo tree right items ↔ item ∈ items ∧ ∀ key ∈ right, rank item.key ≤ rank key := by
  cases right with
  | some key =>
    rw [upTo, stopAt, mem_takeWhile_within hcmp hsorted]
    simp
  | none =>
    rw [upTo, show items.takeWhile (within (stopAt tree none).1 (stopAt tree none).2) = items from
      List.takeWhile_eq_self_iff.mpr fun _ _ => rfl]
    simp

variable (tree) in
theorem openFrom_still (h : TreeInv rank v g none)
    (hleaves : ∀ p, g.dom p → g.lvl p = 0 → (v.node p).items ≠ []) (range : ScanRange κ)
    (hp : g.dom p) (hl : g.lvl p = 0) {ps : List PageNum} (hchain : Chain v p (p :: ps))
    (hpages : ps.length ≤ v.fileHeader.pageCount) :
    Triple (fun s => s.currentFrame = some p ∧ s.firstEmitted = false)
      (openFrom tree (fun _ => .still v) range p)
      (fun _ s => Shows tree v g range.rightKey s (upTo tree range.rightKey
        ((v.node p).items.drop (startPos tree (v.node p) range.leftKey) ++ v.itemsOf ps))) E := by
  refine (startIndex_still h hleaves range.leftKey hp hl hchain hpages).bind fun start => ?_
  cases start with
  | none =>
    refine Triple.pure fun s hs => ?_
    rw [hs.1]
    exact ⟨⟨none, 0, false⟩, .eof 0 false, hs.2, nofun⟩
  | some q =>
    refine Triple.of_exists fun i => Triple.of_exists fun qs => Triple.of_and fun hi =>
      Triple.of_and fun hchain => Triple.of_and fun hpages => Triple.of_and fun hpage =>
      Triple.of_and fun hitems => ?_
    rw [hitems]
    have hitem : (v.node q).items[i]? = some (v.node q).items[i] := List.getElem?_eq_getElem hi
    refine Triple.bind (Q := fun _ => Scans (some q) i false range.rightKey)
      (Triple.modify fun s hs => ⟨hs.1, hs.2.1, hs.2.2, rfl⟩) fun _ => ?_
    refine (touchEnd_scans hitem).bind fun atEnd => Triple.of_and fun hend => ?_
    have hleft := @left_startAt _ (stopAt tree range.rightKey).1 v (stopAt tree range.rightKey).2 q
      qs i hchain hpages hi
    rw [← hend] at hleft
    cases atEnd with
    | true =>
      refine Triple.bind (Q := fun _ s => s.currentFrame = none) (Triple.modify fun _ _ => rfl)
        fun _ => ?_
      intro s hs
      exact ⟨_, hleft, hs, nofun⟩
    | false =>
      intro s hs
      refine ⟨_, hleft, hs.1, ?_⟩
      rintro p ⟨⟩
      exact ⟨hpage, hs⟩

theorem openRange_still (hcmp : RankedBy tree.keyComparator rank) (h : TreeInv rank v g none)
    (hleaves : ∀ p, g.dom p → g.lvl p = 0 → (v.node p).items ≠ []) (hroot : g.dom v.rootPage)
    (hrounds : v.fileHeader.pageCount < rounds) (range : ScanRange κ) :
    Triple (fun s => s.memo = [] ∧ s.firstEmitted = false)
      (openRange tree (fun _ => .still v) rounds range)
      (fun _ s => ∃ items, Shows tree v g range.rightKey s items ∧
        items.Pairwise (fun a b => rank a.key < rank b.key) ∧
        ∀ item, item ∈ items ↔ Entry v g item ∧ (∀ key ∈ range.leftKey, rank key ≤ rank item.key) ∧
          ∀ key ∈ range.rightKey, rank item.key ≤ rank key) fun _ _ => False := by
  rintro s ⟨hmemo, hemitted⟩
  obtain ⟨p, l, hrun, hp, hl, hleft⟩ :=
    (startLeaf_still hcmp h hroot hrounds range.leftKey).exists_ok hmemo
  obtain ⟨ps', hchain, hpw, hmem⟩ := h.chain hp hl
  obtain ⟨ps, rfl⟩ := hchain.exists_cons (h.ne_invalid hp)
  have hleaf : ∀ q ∈ p :: ps, g.dom q ∧ g.lvl q = 0 := fun q hq =>
    ⟨((hmem q).mp hq).1, ((hmem q).mp hq).2.1⟩
  have hnodup : (p :: ps).Nodup := hpw.imp_of_mem fun {a b} ha _ hab heq => by
    subst heq
    exact absurd (h.lt a (hleaf a ha).1) (not_lt.mpr hab)
  have hlength := length_le_pageCount (fun q hq => h.inFile (hleaf q hq).1) hnodup
  rw [List.length_cons] at hlength
  have hsorted : ((v.node p).items.drop (startPos tree (v.node p) range.leftKey) ++
      v.itemsOf ps).Pairwise fun a b => rank a.key < rank b.key :=
    (h.itemsOf_sorted hleaf hpw).sublist ((List.drop_sublist _ _).append (List.Sublist.refl _))
  rw [openRange, releaseOnError, fetchFrame, hrun]
  obtain ⟨_, s', hopen, hshows⟩ := (openFrom_still tree h hleaves range hp hl hchain
    (by omega)).exists_ok (s := { s with toLatching := l, currentFrame := some p })
    ⟨rfl, hemitted⟩
  simp only [hopen]
  refine ⟨_, hshows, hsorted.sublist (List.takeWhile_sublist _), fun item => ?_⟩
  rw [mem_upTo hcmp hsorted, mem_start hcmp h hp hl hleft hpw hmem, and_assoc]

omit [Inhabited κ] in
theorem openScan_fresh {range : ScanRange κ} (hvalid : range.valid = true) :
    openScan tree (fun _ => .still v) rounds range fresh =
      openRange tree (fun _ => .still v) rounds range { fresh with inited := true } := by
  change (if range.valid then openRange tree (fun _ => .still v) rounds range
    else throw (.rc .invalidArgument) : ScanM κ PageNum Unit) { fresh with inited := true } = _
  rw [if_pos hvalid]

omit [Inhabited κ] in
variable (tree rounds) in
theorem openRange_of_no_root (hroot : v.rootPage = bpInvalidPageNum) (range : ScanRange κ)
    (s : LatchedScanner κ PageNum) :
    ∃ s', openRange tree (fun _ => .still v) rounds range s = .ok () s' ∧
      s'.currentFrame = none := by
  have hempty : Triple (fun _ => True) (startLeaf tree (fun _ => .still v) rounds range.leftKey)
      (fun _ _ => False) (fun e _ => e = .rc .empty) := by
    cases range.leftKey with
    | none => exact BplusTreeHandler.latchLeafInternal_of_no_root hroot _ _
    | some key => exact BplusTreeHandler.latchLeafInternal_of_no_root hroot _ _
  cases hrun : startLeaf tree (fun _ => .still v) rounds range.leftKey s.toLatching with
  | ok p l => exact (hempty.ok trivial hrun).elim
  | error e l =>
    obtain rfl := hempty.error trivial hrun
    refine ⟨{ s with toLatching := { l with memo := [] }, currentFrame := none }, ?_, rfl⟩
    rw [openRange, releaseOnError, fetchFrame, hrun]
    rfl

/-- A whole scan gives the entries between its keys, in order. -/
theorem scanAll_spec (hcmp : RankedBy tree.keyComparator rank) (h : TreeInv rank v g none)
    (hleaves : ∀ p, g.dom p → g.lvl p = 0 → (v.node p).items ≠ []) (range : ScanRange κ)
    (hvalid : range.valid = true) (hrounds : v.fileHeader.pageCount < rounds) :
    ∃ items : List (Item κ), items.Pairwise (fun a b => rank a.key < rank b.key) ∧
      (∀ item, item ∈ items ↔ Entry v g item ∧ (∀ key ∈ range.leftKey, rank key ≤ rank item.key) ∧
        ∀ key ∈ range.rightKey, rank item.key ≤ rank key) ∧
      ∀ calls, items.length < calls → ∃ s', scanAll tree (fun _ => .still v) rounds calls range
        fresh = .ok (items.map fun item => item.value.toRid) s' := by
  have hscan {s : LatchedScanner κ PageNum} {items : List (Item κ)}
      (hopen : openRange tree (fun _ => .still v) rounds range { fresh with inited := true } =
        .ok () s) (hs : Shows tree v g range.rightKey s items) (calls : Nat)
      (hcalls : items.length < calls) :
      ∃ s', scanAll tree (fun _ => .still v) rounds calls range fresh =
        .ok (items.map fun item => item.value.toRid) s' := by
    obtain ⟨s', hdrain⟩ := drain_shows h hrounds hs hcalls
    refine ⟨s', ?_⟩
    change EStateM.bind (openScan tree (fun _ => .still v) rounds range) _ fresh = _
    rw [EStateM.bind, openScan_fresh hvalid, hopen]
    exact hdrain
  rcases h.root with ⟨hroot, hnone⟩ | ⟨hroot, -⟩
  · obtain ⟨s, hopen, hframe⟩ := openRange_of_no_root tree rounds hroot range
      { fresh with inited := true }
    refine ⟨[], .nil, fun item => iff_of_false List.not_mem_nil ?_,
      hscan hopen ⟨⟨none, 0, false⟩, .eof 0 false, hframe, nofun⟩⟩
    rintro ⟨⟨p, hp, -⟩, -⟩
    exact hnone p hp
  · obtain ⟨_, s, hopen, items, hs, hsorted, hmem⟩ :=
      (openRange_still hcmp h hleaves hroot hrounds range).exists_ok
        (show (fun s : LatchedScanner κ PageNum => s.memo = [] ∧ s.firstEmitted = false)
          { fresh with inited := true } from ⟨rfl, rfl⟩)
    exact ⟨items, hsorted, hmem, hscan hopen hs⟩

end LatchedScanner

/-! ## Scans with bounds -/

section Bounds

open BplusTreeHandler LatchedScanner

variable {attr : KeyAttr} {header : IndexFileHeader} {v : Pages (Key (UserKey [attr]))}
  {g : Layout ((UserKey.Rank [attr]) ×ₗ (ℕ ×ₗ ℕ))}

/-- A user key lies within the bounds of a scan. -/
def InRange (left right : Option (ScanBound attr)) (userKey : UserKey [attr]) : Prop :=
  (∀ bound ∈ left, bound.FromLeft userKey) ∧ ∀ bound ∈ right, bound.UpToRight userKey

/-- A scan with bounds gives the entries whose user keys lie within them, in the order of the index.
The record identifiers of the entries are not those that the source takes for the least and the
greatest. -/
theorem scanAll_inRange (hattr : attr ≠ .chars 0)
    (htree : TreeInv (Key.rank (UserKey.rank [attr])) v g none)
    (hleaves : ∀ p, g.dom p → g.lvl p = 0 → (v.node p).items ≠ [])
    (hrids : ∀ item, Entry v g item →
      RID.min.rank < item.key.rid.rank ∧ item.key.rid.rank < RID.max.rank)
    (left right : Option (ScanBound attr)) (haccepted : ScanBound.accepted left right = true)
    (hno : ∀ bound ∈ left, ¬ ScanBound.Overflows attr bound) {rounds : Nat}
    (hrounds : v.fileHeader.pageCount < rounds) :
    ∃ items : List (Item (Key (UserKey [attr]))),
      items.Pairwise (fun a b => Key.rank (UserKey.rank [attr]) a.key <
        Key.rank (UserKey.rank [attr]) b.key) ∧
      (∀ item, item ∈ items ↔ Entry v g item ∧ InRange left right item.key.userKey) ∧
      ∀ calls, items.length < calls → ∃ s', scanAll (ofAttrs [attr] header) (fun _ => .still v)
        rounds calls (ScanBound.range left right) fresh =
          .ok (items.map fun item => item.value.toRid) s' := by
  obtain ⟨items, hsorted, hmem, hrun⟩ := scanAll_spec (ranked_ofAttrs [attr] header) htree hleaves
    (ScanBound.range left right) haccepted hrounds
  refine ⟨items, hsorted, fun item => ?_, hrun⟩
  rw [hmem]
  refine and_congr_right fun hitem => and_congr ?_ ?_
  · simp only [ScanBound.range, Option.mem_map, forall_exists_index, and_imp,
      forall_apply_eq_imp_iff₂]
    refine forall₂_congr fun bound hbound => ?_
    exact ScanBound.leftKey_le_iff hattr (hno bound hbound) (hrids item hitem).2
  · simp only [ScanBound.range, Option.mem_map, forall_exists_index, and_imp,
      forall_apply_eq_imp_iff₂]
    refine forall₂_congr fun bound _ => ?_
    exact ScanBound.le_rightKey_iff (hrids item hitem).1 (hrids item hitem).2

/-- Pages other than the root have two entries. -/
theorem two_le_of_ne_root {κ ρ : Type} [LinearOrder ρ] {rank : κ → ρ} {v : Pages κ} {g : Layout ρ}
    {header : IndexFileHeader} (hL : 4 ≤ header.leafMaxSize) (hw : WellFormed header rank v g)
    {p : PageNum} (hp : g.dom p) (hl : g.lvl p = 0) (hne : p ≠ v.rootPage) :
    2 ≤ (v.node p).items.length := by
  have h := hw.balanced.filled p hp (Or.inl hne)
  rw [minFill, if_pos hl] at h
  omega

/-- The entry "a" in an index over strings of length one. -/
def letterCall : Call (UserKey [.chars 1]) :=
  ⟨.insert (⟨[97], rfl⟩, ()) ⟨1, 0⟩ false, []⟩

/-- The entries "a" to "e". -/
def letterCalls : List (Call (UserKey [.chars 1])) :=
  (List.range 5).map fun n => ⟨.insert (⟨[97 + n.toUInt8], rfl⟩, ()) ⟨1, 0⟩ false, []⟩

/-- All strings behind "bz". -/
def behindBz : ScanBound (.chars 1) where
  userKey := { bytes := [98, 122], len := 2, nonzero := by decide, len_le := by decide }
  inclusive := false

theorem scanAll_inRange_letters :
    ∃ t ∈ (ofAttrs [.chars 1] ⟨6, 4, false⟩).states letterCalls TreeState.create,
      (t.pages.node t.pages.rootPage).size = 2 ∧
      ∃ (g : Layout (UserKey.Rank [.chars 1] ×ₗ (ℕ ×ₗ ℕ)))
        (items : List (Item (Key (UserKey [.chars 1])))),
        items.Pairwise (fun a b => Key.rank (UserKey.rank [.chars 1]) a.key <
          Key.rank (UserKey.rank [.chars 1]) b.key) ∧
        (∀ item, item ∈ items ↔
          Entry t.pages g item ∧ InRange (some behindBz) none item.key.userKey) ∧
        ∀ calls, items.length < calls → ∃ s', scanAll (ofAttrs [.chars 1] ⟨6, 4, false⟩)
          (fun _ => .still t.pages) (t.pages.fileHeader.pageCount + 1) calls
          (ScanBound.range (some behindBz) none) fresh =
            .ok (items.map fun item => item.value.toRid) s' := by
  have hrun : ((ofAttrs [.chars 1] ⟨6, 4, false⟩).states letterCalls TreeState.create).any
      (fun t => decide ((t.pages.node t.pages.rootPage).size = 2 ∧
        (t.pages.node t.pages.rootPage).isLeaf = false ∧
        t.pages.fileHeader.pageCount = 5 ∧ ∀ n ∈ List.range 5, (t.pages.node n).isLeaf = true →
          ∀ item ∈ (t.pages.node n).items, item.key.rid = ⟨1, 0⟩)) = true := by
    decide +kernel
  obtain ⟨t, ht, hfacts⟩ := List.any_eq_true.mp hrun
  obtain ⟨hsize, hroot, hpages, hitems⟩ := of_decide_eq_true hfacts
  obtain ⟨g, hw⟩ := wellFormed_of_mem_states (ranked_ofAttrs [.chars 1] ⟨6, 4, false⟩) (by decide)
    (by decide) letterCalls (by simp [letterCalls, Call.Served]) (wellFormed_create _ _) ht
  refine ⟨t, ht, hsize, g, scanAll_inRange (by decide) hw.tree (fun p hp hl hnil => ?_)
    (fun item hitem => ?_) (some behindBz) none rfl ?_ (Nat.lt_succ_self _)⟩
  · have hne : p ≠ t.pages.rootPage := by
      rintro rfl
      rw [(hw.tree.isLeaf_iff hp).mpr hl] at hroot
      cases hroot
    have := two_le_of_ne_root (by decide) hw hp hl hne
    simp [hnil] at this
  · obtain ⟨p, hp, hl, hmem⟩ := hitem
    obtain ⟨hnonneg, hlt⟩ := hw.tree.inFile hp
    obtain ⟨n, rfl⟩ := Int.eq_ofNat_of_zero_le hnonneg
    rw [hpages] at hlt
    rw [hitems n (List.mem_range.mpr hlt) ((hw.tree.isLeaf_iff hp).mpr hl) item hmem]
    exact ⟨by decide, by decide⟩
  · rintro bound ⟨⟩ ⟨-, h⟩
    cases h

/-- A bound that is longer than the column, with no byte above the one to be raised. -/
def overflowBound : ScanBound (.chars 1) where
  userKey := { bytes := [255, 98], len := 2, nonzero := by decide, len_le := by decide }
  inclusive := true

/-- The raised byte is zero, and the scan starts at the first entry of all. -/
theorem scanAll_overflow :
    ((ofAttrs [.chars 1] ⟨4, 4, false⟩).call letterCall TreeState.create).bind (fun r =>
        match scanAll (ofAttrs [.chars 1] ⟨4, 4, false⟩) (fun _ => .still r.2.pages) 4 2
          (ScanBound.range (some overflowBound) none) fresh with
        | .ok rids _ => some rids
        | .error _ _ => none) = some [⟨1, 0⟩] ∧
      ¬ InRange (some overflowBound) none ((⟨[97], rfl⟩, ()) : UserKey [.chars 1]) := by
  refine ⟨by decide +kernel, fun h => ?_⟩
  exact absurd (ScanBound.string_le.mp (h.1 overflowBound rfl)) (by decide)

end Bounds

end ObHtap
