import ObHtap.Bplus.LatchMemo
import ObHtap.Bplus.Descent

/-!
# What a descent holds

A descent with latches through a tree that nobody else changes ends in the leaf that one without
latches ends in.  Of the nodes above it holds those that the operation may have to change: where
it holds a node that is not safe, it holds the parent, and for the root the lock of the root page
number.
-/

namespace ObHtap

open ObHtap.Bound LatchMemo

/-- Surroundings that stay as they are.  The frame of a page goes by the number of the page. -/
def Surroundings.still {κ : Type} (v : Pages κ) : Surroundings κ PageNum where
  rootPage := v.rootPage
  getThisPage pageNum :=
    if 0 ≤ pageNum ∧ pageNum.toNat < v.fileHeader.pageCount then .ok pageNum
    else .error .ioerrRead
  node := v.node
  tryReadLatch _ := true

/-- The memo has the page pinned and latched for the operation. -/
def Latched (op : BplusTreeOperationType) (memo : List (LatchMemoItem PageNum)) (p : PageNum) :
    Prop :=
  ⟨.pin, some p⟩ ∈ memo ∧ ⟨BplusTreeHandler.latchType op, some p⟩ ∈ memo

/-- What a descent to a page holds: the page, and with each page that is not safe its parent or
the root lock. -/
structure Crabbed {κ : Type} (header : IndexFileHeader) (op : BplusTreeOperationType)
    (v : Pages κ) (p : PageNum) (memo : List (LatchMemoItem PageNum)) : Prop where
  page : Latched op memo p
  rootLock : Latched op memo v.rootPage →
    IndexNodeHandler.isSafe header op true (v.node v.rootPage) = false →
    ⟨BplusTreeHandler.latchType op, none⟩ ∈ memo
  parent : ∀ x, Latched op memo x → x ≠ v.rootPage →
    IndexNodeHandler.isSafe header op false (v.node x) = false →
    Latched op memo (v.node x).parent

variable {κ ρ : Type} [LinearOrder ρ] {rank : κ → ρ} {v : Pages κ} {g : Layout ρ}
  {tree : BplusTreeHandler κ} {op : BplusTreeOperationType} {p : PageNum}
  {memo : List (LatchMemoItem PageNum)} {E : Fault → Latching PageNum → Prop}
  {P : Latching PageNum → Prop}

theorem readFrame_still (p : PageNum) :
    Triple (fun s => s.memo = memo) (readFrame (fun _ => .still v) p)
      (fun node s => node = v.node p ∧ s.memo = memo) E :=
  fun _ hs => ⟨rfl, hs⟩

theorem itemAt_still {index : Nat} {item : Item κ} (hitem : (v.node p).items[index]? = some item) :
    Triple (fun s => s.memo = memo) (itemAt (fun _ => .still v) p index)
      (fun found s => found = item ∧ s.memo = memo) E := by
  refine (readFrame_still p).bind fun node => Triple.of_and ?_
  rintro rfl
  rw [if_neg (Int.not_lt.mpr (Int.natCast_nonneg index)), Int.toNat_natCast, hitem]
  exact Triple.pure fun s hs => ⟨rfl, hs⟩

theorem getPage_still (hin : v.InFile p) :
    Triple (fun s => s.memo = memo) (LatchMemo.getPage (fun _ => .still v) p)
      (fun frame s => frame = p ∧ s.memo = memo ++ [⟨.pin, some p⟩]) E := by
  refine Triple.bind (Q := fun now s => now = .still v ∧ s.memo = memo) (fun _ hs => ⟨rfl, hs⟩)
    fun now => Triple.of_and ?_
  rintro rfl
  rw [show (Surroundings.still v).getThisPage p = .ok p from if_pos hin]
  refine Triple.bind (Q := fun _ s => s.memo = memo ++ [⟨.pin, some p⟩])
    (Triple.modify fun s hs => congrArg (· ++ [⟨.pin, some p⟩]) hs) fun _ =>
    Triple.pure fun s hs => ⟨rfl, hs⟩

/-- What a thread holds of a page once it has fetched it. -/
def fetched (op : BplusTreeOperationType) (p : PageNum) : List (LatchMemoItem PageNum) :=
  [⟨.pin, some p⟩, ⟨BplusTreeHandler.latchType op, some p⟩]

theorem latched_fetched (op : BplusTreeOperationType) (p : PageNum) : Latched op (fetched op p) p :=
  ⟨List.mem_cons_self, List.mem_cons_of_mem _ List.mem_cons_self⟩

theorem eq_of_latched_fetched {x : PageNum} (h : Latched op (fetched op p) x) : x = p := by
  have hpin := h.1
  simp only [fetched, List.mem_cons, LatchMemoItem.mk.injEq, Option.some.injEq,
    List.not_mem_nil, or_false] at hpin
  exact hpin.elim (fun h => h.2) fun h => h.2

theorem latched_append {x : PageNum} (hne : x ≠ p) :
    Latched op (memo ++ fetched op p) x ↔ Latched op memo x := by
  have hno (type : LatchMemoType) : ⟨type, some x⟩ ∉ fetched op p := by
    simp [fetched, hne]
  rw [Latched, Latched, List.mem_append, List.mem_append, or_iff_left (hno _), or_iff_left (hno _)]

theorem Latched.append (h : Latched op memo p) (memo' : List (LatchMemoItem PageNum)) :
    Latched op (memo ++ memo') p :=
  ⟨List.mem_append_left _ h.1, List.mem_append_left _ h.2⟩

namespace Crabbed

variable {header : IndexFileHeader} {c : PageNum}

theorem of_safe (isRootNode : Bool) (hroot : isRootNode = true ↔ c = v.rootPage)
    (hsafe : IndexNodeHandler.isSafe header op isRootNode (v.node c) = true) :
    Crabbed header op v c (fetched op c) where
  page := latched_fetched op c
  rootLock h hnotSafe := by
    have heq := eq_of_latched_fetched h
    rw [hroot.mpr heq.symm, ← heq, hnotSafe] at hsafe
    cases hsafe
  parent x h hne hnotSafe := by
    obtain rfl := eq_of_latched_fetched h
    rw [Bool.eq_false_iff.mpr fun hr => hne (hroot.mp hr), hnotSafe] at hsafe
    cases hsafe

theorem child (h : Crabbed header op v p memo) (hparent : (v.node c).parent = p)
    (hne : c ≠ v.rootPage) : Crabbed header op v c (memo ++ fetched op c) where
  page := ⟨List.mem_append_right _ (latched_fetched op c).1,
    List.mem_append_right _ (latched_fetched op c).2⟩
  rootLock hr hnotSafe :=
    List.mem_append_left _ (h.rootLock ((latched_append hne.symm).mp hr) hnotSafe)
  parent x hx hxr hnotSafe := by
    by_cases hxc : x = c
    · subst hxc
      rw [hparent]
      exact h.page.append _
    · exact (h.parent x ((latched_append hxc).mp hx) hxr hnotSafe).append _

theorem root (hlock : ⟨BplusTreeHandler.latchType op, none⟩ ∈ memo)
    (hother : ∀ x, ¬ Latched op memo x) :
    Crabbed header op v v.rootPage (memo ++ fetched op v.rootPage) where
  page := ⟨List.mem_append_right _ (latched_fetched op _).1,
    List.mem_append_right _ (latched_fetched op _).2⟩
  rootLock _ _ := List.mem_append_left _ hlock
  parent x hx hxr _ := absurd ((latched_append hxr).mp hx) (hother x)

end Crabbed

namespace BplusTreeHandler

theorem isSafeFrame_still (isRootNode : Bool) (p : PageNum) :
    Triple (fun s => s.memo = memo) (isSafeFrame tree (fun _ => .still v) op isRootNode p)
      (fun safe s => safe = IndexNodeHandler.isSafe tree.fileHeader op isRootNode (v.node p) ∧
        s.memo = memo) E := by
  rw [isSafeFrame]
  refine Triple.ite (fun hread => ?_) fun _ => ?_
  · subst hread
    exact Triple.pure fun s hs => ⟨rfl, hs⟩
  · refine (readFrame_still p).bind fun node => Triple.of_and ?_
    rintro rfl
    exact Triple.pure fun s hs => ⟨rfl, hs⟩

/-- What `crabing_protocal_fetch_page` holds in the end. -/
def crabMemo (header : IndexFileHeader) (op : BplusTreeOperationType) (v : Pages κ)
    (isRootNode : Bool) (p : PageNum) (memo : List (LatchMemoItem PageNum)) :
    List (LatchMemoItem PageNum) :=
  (if IndexNodeHandler.isSafe header op isRootNode (v.node p) then [] else memo) ++ fetched op p

theorem crabingProtocalFetchPage_still (isRootNode : Bool) (hin : v.InFile p) :
    Triple (fun s => s.memo = memo)
      (crabingProtocalFetchPage tree (fun _ => .still v) op p isRootNode)
      (fun frame s => frame = p ∧ s.memo = crabMemo tree.fileHeader op v isRootNode p memo) E := by
  refine Triple.bind (Q := fun point s => point = memo.length ∧ s.memo = memo)
    (fun s hs => ⟨congrArg List.length hs, hs⟩) fun point => Triple.of_and ?_
  rintro rfl
  refine (getPage_still hin).bind fun frame => Triple.of_and ?_
  rintro rfl
  refine Triple.bind (Q := fun _ s => s.memo = memo ++ fetched op frame)
    (Triple.modify fun s hs => ?_) fun _ => ?_
  · rw [hs, List.append_assoc]
    rfl
  refine (isSafeFrame_still isRootNode frame).bind fun safe => Triple.of_and ?_
  rintro rfl
  rw [crabMemo]
  cases IndexNodeHandler.isSafe tree.fileHeader op isRootNode (v.node frame) with
  | true =>
    refine Triple.bind (Q := fun _ s => s.memo = fetched op frame) (Triple.modify fun s hs => ?_)
      fun _ => Triple.pure fun s hs => ⟨rfl, hs⟩
    rw [hs, List.drop_left]
  | false => exact Triple.pure fun s hs => ⟨rfl, hs⟩

/-- A descent ends in a leaf of the tree, with what it holds on the way.  `I` is what the choice of
the child keeps true. -/
theorem latchLeafFrom_still (h : TreeInv rank v g none) {childPageGetter : IndexNode κ → Nat}
    {I : PageNum → Prop} (hchoice : ∀ p, g.dom p → g.lvl p ≠ 0 → I p → ∃ item,
      (v.node p).items[childPageGetter (v.node p)]? = some item ∧ I item.child)
    (rounds : Nat) (hp : g.dom p) (hI : I p)
    (hrounds : g.lvl p < rounds ∨ ∀ s, E .outOfFuel s) :
    Triple (fun s => Crabbed tree.fileHeader op v p s.memo)
      (latchLeafFrom tree (fun _ => .still v) op childPageGetter rounds p)
      (fun q s => (g.dom q ∧ g.lvl q = 0 ∧ I q) ∧ Crabbed tree.fileHeader op v q s.memo) E := by
  induction rounds generalizing p with
  | zero => exact Triple.throw fun s _ => hrounds.resolve_left (Nat.not_lt_zero _) s
  | succ rounds ih =>
    refine Triple.pre (H := fun s => ∃ memo, Crabbed tree.fileHeader op v p memo ∧ s.memo = memo)
      (Triple.of_exists fun memo => Triple.of_and fun hcrab => ?_) fun s hs => ⟨_, hs, rfl⟩
    refine (readFrame_still p).bind fun node => Triple.of_and ?_
    rintro rfl
    by_cases hl : g.lvl p = 0
    · rw [if_pos (h.leaf p hp hl).isLeaf]
      exact Triple.pure fun s hs => ⟨⟨hp, hl, hI⟩, hs ▸ hcrab⟩
    · rw [if_neg (by rw [(h.internal p hp hl).isLeaf]; simp)]
      refine (readFrame_still p).bind fun node => Triple.of_and ?_
      rintro rfl
      obtain ⟨item, hitem, hI'⟩ := hchoice p hp hl hI
      obtain ⟨l, u, hc, -⟩ := h.child_of_mem hp hl (List.mem_of_getElem? hitem)
      have hlvl := hc.lvl
      have hne : item.child ≠ v.rootPage := fun heq => by
        have hle := h.lvl_le p hp
        rw [heq] at hlvl
        omega
      refine (itemAt_still hitem).bind fun found => Triple.of_and ?_
      rintro rfl
      refine (crabingProtocalFetchPage_still false (h.inFile hc.dom)).bind fun frame =>
        Triple.of_and ?_
      rintro rfl
      refine (ih hc.dom hI' (hrounds.imp_left fun _ => by omega)).pre fun s hs => ?_
      rw [hs, crabMemo]
      cases hsafe : IndexNodeHandler.isSafe tree.fileHeader op false (v.node found.child) with
      | true => exact .of_safe false (iff_of_false Bool.false_ne_true hne) hsafe
      | false => exact hcrab.child hc.parent hne

theorem latchLeafInternal_still (h : TreeInv rank v g none) (hroot : g.dom v.rootPage)
    {childPageGetter : IndexNode κ → Nat} {I : PageNum → Prop}
    (hchoice : ∀ p, g.dom p → g.lvl p ≠ 0 → I p → ∃ item,
      (v.node p).items[childPageGetter (v.node p)]? = some item ∧ I item.child)
    (hI : I v.rootPage) {rounds : Nat}
    (hrounds : g.lvl v.rootPage < rounds ∨ ∀ s, E .outOfFuel s) :
    Triple (fun s => s.memo = [])
      (latchLeafInternal tree (fun _ => .still v) op childPageGetter rounds)
      (fun q s => (g.dom q ∧ g.lvl q = 0 ∧ I q) ∧ Crabbed tree.fileHeader op v q s.memo) E := by
  refine Triple.bind (Q := fun _ s => s.memo = [⟨latchType op, none⟩])
    (Triple.modify fun s hs => by rw [hs]; rfl) fun _ => ?_
  refine Triple.bind (Q := fun now s => now = .still v ∧ s.memo = [⟨latchType op, none⟩])
    (fun _ hs => ⟨rfl, hs⟩) fun now => Triple.of_and ?_
  rintro rfl
  refine Triple.ite (fun hinvalid => absurd hinvalid (h.ne_invalid hroot)) fun _ => ?_
  refine (crabingProtocalFetchPage_still true (h.inFile hroot)).bind fun frame => Triple.of_and ?_
  rintro rfl
  refine (latchLeafFrom_still h hchoice rounds hroot hI hrounds).pre fun s hs => ?_
  rw [hs, crabMemo]
  cases hsafe : IndexNodeHandler.isSafe tree.fileHeader op true (v.node v.rootPage) with
  | true => exact .of_safe true (iff_of_true rfl rfl) hsafe
  | false => exact .root List.mem_cons_self fun x hx => by simpa using hx.1

theorem latchLeaf_still (hcmp : RankedBy tree.keyComparator rank) (h : TreeInv rank v g none)
    (hroot : g.dom v.rootPage) (key : κ) {rounds : Nat}
    (hrounds : g.lvl v.rootPage < rounds ∨ ∀ s, E .outOfFuel s) :
    Triple (fun s => s.memo = []) (latchLeaf tree (fun _ => .still v) op key rounds)
      (fun q s => (g.dom q ∧ g.lvl q = 0 ∧ g.lo q ≤ at_ (rank key) ∧ at_ (rank key) < g.hi q) ∧
        Crabbed tree.fileHeader op v q s.memo) E :=
  latchLeafInternal_still h hroot (fun _ hp hl => exists_lookup_child hcmp h key hp hl)
    (root_contains h hroot key) hrounds

theorem latchLeftMost_still (h : TreeInv rank v g none) (hroot : g.dom v.rootPage)
    {rounds : Nat} (hrounds : g.lvl v.rootPage < rounds ∨ ∀ s, E .outOfFuel s) :
    Triple (fun s => s.memo = []) (latchLeftMost tree (fun _ => .still v) rounds)
      (fun q s => (g.dom q ∧ g.lvl q = 0 ∧ g.lo q = ⊥) ∧
        Crabbed tree.fileHeader .read v q s.memo) E :=
  latchLeafInternal_still h hroot (fun _ hp hl => exists_first_child h hp hl)
    (h.root_bounds hroot).1 hrounds

theorem latchLeafInternal_of_no_root (hroot : v.rootPage = bpInvalidPageNum)
    (childPageGetter : IndexNode κ → Nat) (rounds : Nat) :
    Triple (fun _ => True)
      (latchLeafInternal tree (fun _ => .still v) op childPageGetter rounds)
      (fun _ _ => False) (fun e _ => e = .rc .empty) := by
  refine Triple.bind (Q := fun _ _ => True) (fun _ _ => trivial) fun _ => ?_
  refine Triple.bind (Q := fun (now : Surroundings κ PageNum) _ => now.rootPage = v.rootPage)
    (fun _ _ => rfl) fun now s hs => ?_
  rw [if_pos (hs.trans hroot)]
  rfl

end BplusTreeHandler

end ObHtap
