import ObHtap.Bplus.Crabbing
import ObHtap.Bplus.Edits
import ObHtap.Bplus.LatchedDescent
import ObHtap.Bplus.Runs

/-!
# Crabbing is safe

Every change that an operation makes after `find_leaf` is one of a page that nobody else can get
at, and the recursion never comes to a page, or to the root page number, that the descent has let
go of.  For this the pages that `is_safe` lets the descent keep have to reach as far up as splits
and merges do.
-/

namespace ObHtap

open LatchMemo

/-- The memo has the page pinned and latched for writers. -/
def XLatched (memo : List (LatchMemoItem PageNum)) (p : PageNum) : Prop :=
  ⟨.pin, some p⟩ ∈ memo ∧ ⟨.exclusive, some p⟩ ∈ memo

theorem XLatched.mono {memo memo' : List (LatchMemoItem PageNum)} {p : PageNum}
    (h : XLatched memo p) (hsub : memo ⊆ memo') : XLatched memo' p :=
  ⟨hsub h.1, hsub h.2⟩

/-- The page, or the root page number, is one that the memo keeps others from. -/
def Granted (memo : List (LatchMemoItem PageNum)) : Option PageNum → Prop
  | none => ⟨.exclusive, none⟩ ∈ memo
  | some p => XLatched memo p

/-- A page that a change may concern.  `held` is what the descent through the pages `v` holds in
the end. -/
inductive Reserved {κ : Type} (v : Pages κ) (held : List (LatchMemoItem PageNum)) (c : Change κ)
    (p : PageNum) : Prop where
  | allocated (h : p ∈ c.allocated)
  | held (hheld : XLatched held p) (h : XLatched c.memo p)
  | neighbor (hheld : XLatched held (v.node p).parent) (h : XLatched c.memo p)
  | child (h : XLatched c.memo (v.node p).parent) (parent : PageNum)
      (hnode : c.after.node p = { c.before.node p with parent })

/-- A change that no other operation can see half done. -/
structure Change.Safe {κ : Type} (v : Pages κ) (held : List (LatchMemoItem PageNum))
    (c : Change κ) : Prop where
  node : ∀ p, c.after.node p ≠ c.before.node p → Reserved v held c p
  rootPage : c.after.rootPage ≠ c.before.rootPage → ⟨.exclusive, none⟩ ∈ held ∧
    ⟨.exclusive, none⟩ ∈ c.memo ∧ XLatched c.memo firstIndexPage

namespace Crabbing

variable {κ α β ρ : Type} {v : Pages κ} {g : Layout ρ}
  {held : List (LatchMemoItem PageNum)} {W K : PageNum → Prop} {s s' : Crabbing κ}
  {p q : PageNum}

/-- All changes so far have been safe, and the recursion has come to nothing that it did not
hold. -/
structure Good (v : Pages κ) (held : List (LatchMemoItem PageNum)) (s : Crabbing κ) : Prop where
  memo : held ⊆ s.memo
  changes : ∀ c ∈ s.changes, c.Safe v held
  climbed : ∀ target ∈ s.climbed, Granted held target

/-- From the state `s` on, the program makes only safe changes. -/
def Safely (v : Pages κ) (held : List (LatchMemoItem PageNum)) (s : Crabbing κ) (x : CrabM κ α)
    (Q : α → Crabbing κ → Prop) : Prop :=
  Triple (· = s) x (fun a s' => Good v held s' ∧ Q a s') fun _ => Good v held

namespace Safely

variable {Q : α → Crabbing κ → Prop} {R : β → Crabbing κ → Prop}

theorem bind {x : CrabM κ α} {f : α → CrabM κ β} (hx : Safely v held s x Q)
    (hf : ∀ a s', Good v held s' → Q a s' → Safely v held s' (f a) R) :
    Safely v held s (x >>= f) R :=
  Triple.bind hx fun a s' hs' => hf a s' hs'.1 hs'.2 s' rfl

theorem ite {c : Prop} [Decidable c] {x y : CrabM κ α} (hx : c → Safely v held s x Q)
    (hy : ¬ c → Safely v held s y Q) : Safely v held s (if c then x else y) Q :=
  Triple.ite hx hy

theorem throw (h : Good v held s) (e : Fault) : Safely v held s (throw e : CrabM κ α) Q :=
  Triple.throw fun _ hs => hs ▸ h

theorem pure (h : Good v held s) {a : α} (ha : Q a s) : Safely v held s (Pure.pure a) Q :=
  Triple.pure fun _ hs => hs ▸ ⟨h, ha⟩

theorem post {S : α → Crabbing κ → Prop} {x : CrabM κ α} (h : Safely v held s x S)
    (hQ : ∀ a s', S a s' → Q a s') : Safely v held s x Q :=
  Triple.post h fun a s' hs' => ⟨hs'.1, hQ a s' hs'.2⟩

end Safely

/-! ## Steps -/

/-- A page whose items may be changed. -/
def Writable (v : Pages κ) (held : List (LatchMemoItem PageNum)) (s : Crabbing κ)
    (p : PageNum) : Prop :=
  p ∈ s.allocated ∨ XLatched held p ∨ XLatched held (v.node p).parent ∧ XLatched s.memo p

/-- A page that may get a new parent. -/
def Movable (v : Pages κ) (held : List (LatchMemoItem PageNum)) (s : Crabbing κ)
    (p : PageNum) : Prop :=
  Writable v held s p ∨ XLatched s.memo (v.node p).parent

/-- The mini-transaction has gone on under the same latches. -/
structure GoesOn (W K : PageNum → Prop) (s s' : Crabbing κ) : Prop where
  edits : Edits W K s.toMtr s'.toMtr
  memo : s'.memo = s.memo
  allocated : s'.allocated = s.allocated

theorem Good.recorded (hgood : Good v held s) {t : Mtr κ}
    (h : (⟨s.pages, t.pages, s.memo, s.allocated⟩ : Change κ).Safe v held) :
    Good v held (s.goOn t) := by
  refine ⟨hgood.memo, fun c hc => ?_, hgood.climbed⟩
  rcases List.mem_append.mp hc with hc | hc
  · exact hgood.changes c hc
  · rwa [List.mem_singleton.mp hc]

theorem Writable.reserved (hgood : Good v held s) (h : Writable v held s p) (v' : Pages κ) :
    Reserved v held ⟨s.pages, v', s.memo, s.allocated⟩ p := by
  rcases h with h | h | ⟨h, h'⟩
  · exact .allocated h
  · exact .held h (h.mono hgood.memo)
  · exact .neighbor h h'

theorem Good.goOn (hgood : Good v held s) (hW : ∀ p, W p → Writable v held s p)
    (hK : ∀ p, K p → Movable v held s p) {t : Mtr κ} (h : Edits W K s.toMtr t) :
    Good v held (s.goOn t) ∧ GoesOn W K s (s.goOn t) := by
  refine ⟨hgood.recorded ⟨fun p hp => ?_, absurd h.rootPage⟩, h, rfl, rfl⟩
  by_cases hw : W p
  · exact (hW p hw).reserved hgood _
  · obtain ⟨parent, heq⟩ := h.node p hw
    by_cases hk : K p
    · rcases hK p hk with hk | hk
      · exact hk.reserved hgood _
      · exact .child hk parent heq
    · exact absurd (h.same hw hk) hp

theorem under_safely {x : MtrM κ α} {R : α → Mtr κ → Prop} (hgood : Good v held s)
    (hW : ∀ p, W p → Writable v held s p) (hK : ∀ p, K p → Movable v held s p)
    (hx : Triple (· = s.toMtr) x (fun a t => Edits W K s.toMtr t ∧ R a t)
      fun _ => Edits W K s.toMtr) :
    Safely v held s (under x) fun a s' => GoesOn W K s s' ∧ R a s'.toMtr := by
  rintro s rfl
  have h := hx s.toMtr rfl
  unfold under
  cases hrun : x s.toMtr with
  | ok a t =>
    rw [hrun] at h
    obtain ⟨hgood', hon⟩ := hgood.goOn hW hK h.1
    exact ⟨hgood', hon, h.2⟩
  | error e t =>
    rw [hrun] at h
    exact (hgood.goOn hW hK h).1

theorem under_edits {x : MtrM κ α} (hgood : Good v held s)
    (hW : ∀ p, W p → Writable v held s p) (hK : ∀ p, K p → Movable v held s p)
    (hx : Editing W K s.toMtr x) :
    Safely v held s (under x) fun _ s' => GoesOn W K s s' :=
  (under_safely (R := fun _ _ => True) hgood hW hK (hx.post fun _ _ h => ⟨h, trivial⟩)).post
    fun _ _ h => h.1

theorem look_safely {x : MtrM κ α} {f : α → CrabM κ β} {R : α → Prop} {Q : β → Crabbing κ → Prop}
    (hgood : Good v held s) (hx : Triple (· = s.toMtr) x (fun a _ => R a) fun _ _ => True)
    (h : ∀ a, R a → Safely v held s (f a) Q) : Safely v held s (look x >>= f) Q := by
  refine Triple.bind (Q := fun a s' => R a ∧ s' = s) ?_ fun a => Triple.of_and (h a)
  rintro s rfl
  have h' := hx s.toMtr rfl
  unfold look
  cases hrun : x s.toMtr with
  | ok a t =>
    rw [hrun] at h'
    exact ⟨h', rfl⟩
  | error e t => exact hgood

theorem look_readNode {f : IndexNode κ → CrabM κ α} {Q : α → Crabbing κ → Prop}
    (hgood : Good v held s) (h : Safely v held s (f (s.pages.node p)) Q) :
    Safely v held s (look (readNode p) >>= f) Q :=
  look_safely (R := fun node => node = s.pages.node p) hgood
    (by rintro _ rfl; exact rfl) fun _ heq => heq ▸ h

theorem look_any {x : MtrM κ α} {f : α → CrabM κ β} {Q : β → Crabbing κ → Prop}
    (hgood : Good v held s) (h : ∀ a, Safely v held s (f a) Q) :
    Safely v held s (look x >>= f) Q :=
  look_safely (R := fun _ => True) hgood (Triple.triv.conseq (fun _ _ => trivial)
    (fun _ _ => id) fun _ _ => id) fun a _ => h a

theorem look_valueAt {index : Nat} {f : PageNum → CrabM κ α} {Q : α → Crabbing κ → Prop}
    (hgood : Good v held s)
    (h : ∀ item ∈ (s.pages.node p).items, Safely v held s (f item.child) Q) :
    Safely v held s (look (InternalIndexNodeHandler.valueAt p index) >>= f) Q :=
  look_safely (R := fun child => ∃ item ∈ (s.pages.node p).items, item.child = child) hgood
    ((IndexNodeHandler.itemAt_reads.bind fun item => Triple.pure fun _ ht =>
      ⟨item, List.mem_of_getElem? ht.1, rfl⟩).conseq (fun _ => id) (fun _ _ => id)
        fun _ _ _ => trivial)
    fun _ ⟨item, hmem, heq⟩ => heq ▸ h item hmem

/-- The operation has got hold of more, and the mini-transaction is where it was. -/
structure Took (items : List (LatchMemoItem PageNum)) (s s' : Crabbing κ) : Prop where
  pages : s'.pages = s.pages
  memo : s'.memo = s.memo ++ items
  allocated : s'.allocated = s.allocated

theorem hold_safely (hgood : Good v held s) (item : LatchMemoItem PageNum) :
    Safely v held s (hold item) fun _ s' => Took [item] s s' := by
  refine Triple.modify fun s' hs' => ?_
  subst hs'
  exact ⟨⟨List.Subset.trans hgood.memo (List.subset_append_left _ _), hgood.changes,
    hgood.climbed⟩, rfl, rfl, rfl⟩

theorem climb_safely (hgood : Good v held s) {target : Option PageNum} (h : Granted held target) :
    Safely v held s (climb target) fun _ s' => Took [] s s' := by
  refine Triple.modify fun s' hs' => ?_
  subst hs'
  refine ⟨⟨hgood.memo, hgood.changes, fun t ht => ?_⟩, rfl, (List.append_nil _).symm, rfl⟩
  rcases List.mem_append.mp ht with ht | ht
  · exact hgood.climbed t ht
  · rwa [List.mem_singleton.mp ht]

/-! ## The climb -/

/-- The recursion has come to the page `p`: the pages above it, and the others on its level, are
as the descent has found them. -/
structure Climb (v : Pages κ) (g : Layout ρ) (held : List (LatchMemoItem PageNum)) (p : PageNum)
    (s : Crabbing κ) : Prop where
  good : Good v held s
  alive : ∀ x, g.dom x → s.pages.Allocated x
  fresh : ∀ x ∈ s.allocated, ¬ g.dom x
  node : ∀ x, g.dom x → g.lvl p ≤ g.lvl x → x ≠ p → s.pages.node x = v.node x
  parent : (s.pages.node p).parent = (v.node p).parent

theorem Climb.goesOn (h : Climb v g held p s) (hgood : Good v held s') (hon : GoesOn W K s s')
    (hq : g.dom q) (hpq : q = p ∨ g.lvl p < g.lvl q)
    (hW : ∀ x, W x → g.dom x → x = q ∨ g.lvl x < g.lvl q)
    (hK : ∀ x, K x → g.dom x → g.lvl x < g.lvl q) : Climb v g held q s' where
  good := hgood
  alive x hx := hon.edits.allocated x (h.alive x hx)
  fresh := hon.allocated ▸ h.fresh
  node x hx hle hne := by
    rw [hon.edits.same (fun hw => ?_) fun hk => absurd (hK x hk hx) (by omega)]
    · refine h.node x hx ?_ ?_
      · rcases hpq with rfl | hlt <;> omega
      · rcases hpq with rfl | hlt
        · exact hne
        · rintro rfl
          omega
    · rcases hW x hw hx with heq | hlt
      · exact hne heq
      · omega
  parent := by
    rw [hon.edits.parent q fun hk => absurd (hK q hk hq) (lt_irrefl _)]
    rcases hpq with rfl | hlt
    · exact h.parent
    · rw [h.node q hq hlt.le]
      rintro rfl
      exact lt_irrefl _ hlt

theorem Climb.took {items : List (LatchMemoItem PageNum)} (h : Climb v g held p s)
    (hgood : Good v held s') (ht : Took items s s') : Climb v g held p s' where
  good := hgood
  alive := by rw [ht.pages]; exact h.alive
  fresh := by rw [ht.allocated]; exact h.fresh
  node := by rw [ht.pages]; exact h.node
  parent := by rw [ht.pages]; exact h.parent

theorem Climb.hold (h : Climb v g held p s) (item : LatchMemoItem PageNum) :
    Safely v held s (hold item) fun _ s' => Climb v g held p s' ∧ Took [item] s s' :=
  (hold_safely h.good item).conseq (fun _ => id) (fun _ _ ⟨hgood, ht⟩ =>
    ⟨hgood, h.took hgood ht, ht⟩) fun _ _ => id

theorem Climb.climb (h : Climb v g held p s) {target : Option PageNum} (ht : Granted held target) :
    Safely v held s (climb target) fun _ s' => Climb v g held p s' ∧ Took [] s s' :=
  (climb_safely h.good ht).conseq (fun _ => id) (fun _ _ ⟨hgood, ht⟩ =>
    ⟨hgood, h.took hgood ht, ht⟩) fun _ _ => id

theorem Climb.getPage (h : Climb v g held p s) (hp : g.dom p) (x : PageNum) :
    Safely v held s (getPage x) fun _ s' => Climb v g held p s' ∧ s'.allocated = s.allocated ∧
      s'.memo = s.memo ++ [⟨.pin, some x⟩] ∧ s'.pages.node = s.pages.node := by
  refine (under_edits (W := fun _ => False) (K := fun _ => False) h.good (fun _ => False.elim)
    (fun _ => False.elim) (.of_within (getPage_edits x))).bind fun _ s' hgood hon => ?_
  have h' : Climb v g held p s' :=
    h.goesOn hgood hon hp (Or.inl rfl) (fun _ => False.elim) fun _ => False.elim
  refine (h'.hold _).post fun _ s'' ⟨h'', ht⟩ => ⟨h'', ht.allocated.trans hon.allocated, ?_, ?_⟩
  · rw [ht.memo, hon.memo]
  · rw [ht.pages]
    exact funext fun y => hon.edits.same id id

/-- A page that has just been allocated is none of the tree. -/
theorem Climb.allocatePage (h : Climb v g held p s) (hp : g.dom p) :
    Safely v held s allocatePage fun newPage s' => Climb v g held p s' ∧
      newPage ∈ s'.allocated ∧ s.allocated ⊆ s'.allocated ∧ s'.memo = s.memo ∧
      s'.pages.node = s.pages.node := by
  refine (under_safely (W := fun _ => False) (K := fun _ => False) h.good (fun _ => False.elim)
    (fun _ => False.elim) BplusTreeHandler.allocatePage_editing).bind fun newPage s' hgood hon => ?_
  have h' : Climb v g held p s' :=
    h.goesOn hgood hon.1 hp (Or.inl rfl) (fun _ => False.elim) fun _ => False.elim
  have hmod : Safely v held s' (modify fun s => { s with allocated := s.allocated ++ [newPage] })
      fun _ s'' => s'' = { s' with allocated := s'.allocated ++ [newPage] } := by
    refine Triple.modify fun s'' hs'' => ?_
    subst hs''
    exact ⟨⟨hgood.memo, hgood.changes, hgood.climbed⟩, rfl⟩
  refine hmod.bind ?_
  rintro _ _ hgood' rfl
  refine .pure hgood' ⟨⟨hgood', h'.alive, fun x hx => ?_, h'.node, h'.parent⟩, ?_, ?_, hon.1.memo,
    funext fun y => hon.1.edits.same id id⟩
  · rcases List.mem_append.mp hx with hx | hx
    · exact h'.fresh x hx
    · rw [List.mem_singleton.mp hx]
      exact fun hd => hon.2 (h.alive _ hd)
  · exact List.mem_append_right _ List.mem_cons_self
  · rw [hon.1.allocated]
    exact List.subset_append_left _ _

/-- The pages that a split gives a new parent. -/
def Moved (v : Pages κ) (kind : NodeKind) (q newPage x : PageNum) : Prop :=
  x = newPage ∨ kind = .internal ∧ ∃ item ∈ (v.node q).items, item.child = x

theorem Climb.split (h : Climb v g held p s) (kind : NodeKind) (hp : g.dom p) (hq : g.dom q)
    (hpq : q = p ∨ g.lvl p < g.lvl q) (hheld : XLatched held q)
    (hchildren : kind = .internal → g.lvl p < g.lvl q ∧ ∀ item ∈ (v.node q).items,
      (v.node item.child).parent = q ∧ g.lvl item.child < g.lvl q) :
    Safely v held s (split kind q) fun newPage s' => Climb v g held q s' ∧
      newPage ∈ s'.allocated ∧ s.allocated ⊆ s'.allocated := by
  refine (h.allocatePage hp).bind fun newPage s₁ _ ⟨h₁, hnew, hsub, _, _⟩ => ?_
  refine (h₁.hold _).bind fun _ s₂ _ ⟨h₂, ht₂⟩ => (h₂.hold _).bind fun _ s₃ _ ⟨h₃, ht₃⟩ => ?_
  have hal : s₃.allocated = s₁.allocated := ht₃.allocated.trans ht₂.allocated
  rw [← hal] at hnew hsub
  have hne : q ≠ newPage := fun heq => h₃.fresh newPage hnew (heq ▸ hq)
  have hmemo := h₃.good.memo
  have hW : ∀ x, x = q ∨ x = newPage → Writable v held s₃ x := by
    rintro x (rfl | rfl)
    · exact Or.inr (Or.inl hheld)
    · exact Or.inl hnew
  have hK : ∀ x, Moved v kind q newPage x → Movable v held s₃ x := by
    rintro x (rfl | ⟨hkind, item, hitem, rfl⟩)
    · exact Or.inl (Or.inl hnew)
    · refine Or.inr ?_
      rw [((hchildren hkind).2 item hitem).1]
      exact hheld.mono hmemo
  refine (under_edits h₃.good hW hK ?_).bind fun _ s₄ hgood hon => .pure hgood ⟨?_, ?_, ?_⟩
  · have hinit : Within (Edits (· = newPage) (· = newPage)) (kind.initEmpty newPage : MtrM κ _) :=
      NodeKind.initEmpty_edits (W := (· = newPage)) (K := (· = newPage)) rfl rfl kind
    have hset (parent : PageNum) : Within (Edits (· = newPage) (· = newPage))
        (IndexNodeHandler.setParentPageNum newPage parent : MtrM κ _) :=
      IndexNodeHandler.setParentPageNum_edits (K := (· = newPage)) rfl parent
    refine (Editing.of_within hinit).bind_mono (fun _ => Or.inr) (fun _ => Or.inl)
      fun _ t ht => .readNode ?_
    refine (Editing.of_within (hset _)).bind_mono (fun _ => Or.inr) (fun _ => Or.inl)
      fun _ t' ht' => ?_
    refine (ignoreRC_edits (NodeKind.moveHalfTo_editing (Or.inl rfl) (Or.inr rfl) ?_)).bind
      fun _ _ _ => .of_within <| (markDirty_edits _).bind fun _ => markDirty_edits _
    intro hkind item hitem
    rw [ht'.same hne hne, ht.same hne hne, h₃.node q hq (hchildren hkind).1.le] at hitem
    · exact Or.inr ⟨hkind, item, hitem, rfl⟩
    · rintro rfl
      exact lt_irrefl _ (hchildren hkind).1
  · refine h₃.goesOn hgood hon hq hpq ?_ ?_
    · rintro x (rfl | rfl) hx
      · exact Or.inl rfl
      · exact absurd hx (h₃.fresh _ hnew)
    · rintro x (rfl | ⟨hkind, item, hitem, rfl⟩) hx
      · exact absurd hx (h₃.fresh _ hnew)
      · exact ((hchildren hkind).2 item hitem).2
  · exact hon.allocated ▸ hnew
  · exact hon.allocated ▸ hsub

theorem updateRootPageNumLocked_safely (hgood : Good v held s) (hlock : ⟨.exclusive, none⟩ ∈ held)
    (rootPage : PageNum) :
    Safely v held s (updateRootPageNumLocked rootPage) fun _ _ => True := by
  refine (under_edits (W := fun _ => False) (K := fun _ => False) hgood (fun _ => False.elim)
    (fun _ => False.elim) (.of_within nextOutcome_edits)).bind fun outcome s₁ hgood₁ _ => ?_
  cases outcome with
  | some rc => exact .throw hgood₁ _
  | none =>
    refine (hold_safely hgood₁ _).bind fun _ s₂ hgood₂ ht₂ => ?_
    refine (hold_safely hgood₂ _).bind fun _ s₃ hgood₃ ht₃ => ?_
    have hheader : XLatched s₃.memo firstIndexPage := by
      rw [ht₃.memo, ht₂.memo, XLatched]
      simp
    rintro s₃ rfl
    refine ⟨hgood₃.recorded ⟨fun p hp => absurd ?_ hp, fun _ => ⟨hlock, hgood₃.memo hlock,
      hheader⟩⟩, trivial⟩
    cases hlog : s₃.needLog with
    | false => simp [hlog]
    | true => simp [hlog]

section Tree

variable [LinearOrder ρ] {rank : κ → ρ} {tree : BplusTreeHandler κ}
  {op : BplusTreeOperationType} {leaf : PageNum}

theorem xLatched_iff (hop : op ≠ .read) {memo : List (LatchMemoItem PageNum)} :
    Latched op memo p ↔ XLatched memo p := by
  rw [Latched, BplusTreeHandler.latchType, if_neg hop, XLatched]

/-- Where the root is not safe, the descent has kept the root lock. -/
theorem lock_of_unsafe (hcrab : Crabbed tree.fileHeader op v leaf held) (hop : op ≠ .read)
    (hheld : XLatched held v.rootPage)
    (hnotSafe : IndexNodeHandler.isSafe tree.fileHeader op true (v.node v.rootPage) = false) :
    ⟨.exclusive, none⟩ ∈ held := by
  have h := hcrab.rootLock ((xLatched_iff hop).mpr hheld) hnotSafe
  rwa [BplusTreeHandler.latchType, if_neg hop] at h

/-- Where another page is not safe, the descent has kept its parent. -/
theorem parent_of_unsafe (hinv : TreeInv rank v g none)
    (hcrab : Crabbed tree.fileHeader op v leaf held) (hop : op ≠ .read) (hp : g.dom p)
    (hroot : p ≠ v.rootPage) (hheld : XLatched held p)
    (hnotSafe : IndexNodeHandler.isSafe tree.fileHeader op false (v.node p) = false) :
    g.dom (v.node p).parent ∧ g.lvl p + 1 = g.lvl (v.node p).parent ∧
      XLatched held (v.node p).parent := by
  obtain ⟨_, _, _, _, _, hdom, hlvl⟩ := hinv.child_of_parent hp hroot (by simp)
  refine ⟨hdom, hlvl, (xLatched_iff hop).mp ?_⟩
  exact hcrab.parent p ((xLatched_iff hop).mpr hheld) hroot hnotSafe

theorem isSafe_insert_of_full {node : IndexNode κ}
    (h : ¬ node.size < IndexNodeHandler.maxSize tree.fileHeader node) (isRootNode : Bool) :
    IndexNodeHandler.isSafe tree.fileHeader .insert isRootNode node = false := by
  simpa [IndexNodeHandler.isSafe] using h

theorem child_below (hinv : TreeInv rank v g none) (hq : g.dom q) (hlvl : g.lvl q ≠ 0)
    {item : Item κ} (hitem : item ∈ (v.node q).items) :
    g.dom item.child ∧ (v.node item.child).parent = q ∧ g.lvl item.child + 1 = g.lvl q := by
  obtain ⟨l, u, hc, -⟩ := hinv.child_of_mem hq hlvl hitem
  exact ⟨hc.dom, hc.parent, hc.lvl⟩

/-- A split of a page that was full climbs only to pages that are held. -/
theorem insertEntryIntoParent_safely [Inhabited κ] (hinv : TreeInv rank v g none)
    (hcrab : Crabbed tree.fileHeader .insert v leaf held) (fuel : Nat) {newPage : PageNum}
    (key : κ) (h : Climb v g held p s) (hp : g.dom p) (hheld : XLatched held p)
    (hfull : ¬ (v.node p).size < IndexNodeHandler.maxSize tree.fileHeader (v.node p))
    (hnew : newPage ∈ s.allocated) :
    Safely v held s (insertEntryIntoParent tree fuel p newPage key) fun _ _ => True := by
  induction fuel generalizing p newPage key s with
  | zero => exact .throw h.good _
  | succ fuel ih =>
    refine look_readNode h.good ?_
    rw [h.parent]
    have hinvalid := hinv.parent_eq_invalid_iff hp (by simp)
    by_cases hroot : p = v.rootPage
    · rw [if_pos (hinvalid.mpr hroot)]
      have hlock : ⟨.exclusive, none⟩ ∈ held := by
        subst hroot
        exact lock_of_unsafe hcrab (by simp) hheld (isSafe_insert_of_full hfull true)
      refine (h.climb (show Granted held none from hlock)).bind fun _ s₁ _ ⟨h₁, ht₁⟩ => ?_
      refine (h₁.allocatePage hp).bind fun rootPage s₂ hgood₂ ⟨h₂, hrootNew, hsub, _⟩ => ?_
      have hnew₂ : newPage ∈ s₂.allocated := hsub (ht₁.allocated ▸ hnew)
      have hW : ∀ x, x = rootPage → Writable v held s₂ x := by
        rintro x rfl
        exact Or.inl hrootNew
      have hK : ∀ x, x = rootPage ∨ x = p ∨ x = newPage → Movable v held s₂ x := by
        rintro x (rfl | rfl | rfl)
        · exact Or.inl (Or.inl hrootNew)
        · exact Or.inl (Or.inr (Or.inl hheld))
        · exact Or.inl (Or.inl hnew₂)
      refine (under_edits hgood₂ hW hK (.of_within ?_)).bind fun _ s₃ hgood₃ _ => ?_
      · exact (InternalIndexNodeHandler.initEmpty_edits (by simp) (by simp)).bind fun _ =>
          (InternalIndexNodeHandler.createNewRoot_edits (by simp) p key newPage).bind fun _ =>
          (IndexNodeHandler.setParentPageNum_edits (by simp) rootPage).bind fun _ =>
          (IndexNodeHandler.setParentPageNum_edits (by simp) rootPage).bind fun _ =>
          (markDirty_edits p).bind fun _ => markDirty_edits newPage
      refine (updateRootPageNumLocked_safely hgood₃ hlock rootPage).bind fun _ s₄ hgood₄ _ => ?_
      exact (under_edits hgood₄ (fun _ => False.elim) (fun _ => False.elim)
        (.of_within (markDirty_edits rootPage))).post fun _ _ _ => trivial
    · rw [if_neg fun heq => hroot (hinvalid.mp heq)]
      obtain ⟨hdom, hlvl, hparent⟩ := parent_of_unsafe hinv hcrab (by simp) hp hroot hheld
        (isSafe_insert_of_full hfull false)
      refine (h.climb (show Granted held (some _) from hparent)).bind fun _ s₁ _ ⟨h₁, ht₁⟩ => ?_
      refine (h₁.getPage hp _).bind fun _ s₂ hgood₂ ⟨h₂, hal₂, _, _⟩ => ?_
      refine look_readNode hgood₂ ?_
      have hne : (v.node p).parent ≠ p := fun heq => by rw [heq] at hlvl; omega
      have hnew₂ : newPage ∈ s₂.allocated := by
        rw [hal₂, ht₁.allocated]
        exact hnew
      rw [h₂.node _ hdom (by omega) hne]
      refine .ite (fun _ => ?_) fun hfull' => ?_
      · have hW : ∀ x, x = (v.node p).parent → Writable v held s₂ x := by
          rintro x rfl
          exact Or.inr (Or.inl hparent)
        have hK : ∀ x, x = newPage → Movable v held s₂ x := by
          rintro x rfl
          exact Or.inl (Or.inl hnew₂)
        refine (under_edits hgood₂ hW hK (.of_within ?_)).post fun _ _ _ => trivial
        exact (InternalIndexNodeHandler.insert_edits (by simp) _ key newPage).bind fun _ =>
          (IndexNodeHandler.setParentPageNum_edits (by simp) _).bind fun _ =>
          (markDirty_edits p).bind fun _ => (markDirty_edits newPage).bind fun _ =>
          markDirty_edits _
      · refine (h₂.split .internal hp hdom (Or.inr (by omega)) hparent fun _ =>
          ⟨by omega, fun item hitem => ?_⟩).bind fun newParentPage s₃ hgood₃ ⟨h₃, hnew₃, hsub₃⟩ => ?_
        · obtain ⟨-, hpar, hl⟩ := child_below hinv hdom (by omega) hitem
          exact ⟨hpar, by omega⟩
        have hW : ∀ x, x = (v.node p).parent ∨ x = newParentPage → Writable v held s₃ x := by
          rintro x (rfl | rfl)
          · exact Or.inr (Or.inl hparent)
          · exact Or.inl hnew₃
        have hK : ∀ x, x = newPage → Movable v held s₃ x := by
          rintro x rfl
          exact Or.inl (Or.inl (hsub₃ hnew₂))
        refine (under_edits hgood₃ hW hK (.of_within (BplusTreeHandler.insertIntoHalf_edits
          (by simp) (by simp) (by simp) key))).bind fun _ s₄ hgood₄ hon => ?_
        have h₄ : Climb v g held (v.node p).parent s₄ := by
          refine h₃.goesOn hgood₄ hon hdom (Or.inl rfl) ?_ ?_
          · rintro x (rfl | rfl) hx
            · exact Or.inl rfl
            · exact absurd hx (h₃.fresh _ hnew₃)
          · rintro x rfl hx
            exact absurd hx (h₃.fresh _ (hsub₃ hnew₂))
        refine look_any hgood₄ fun newKey => ?_
        exact ih newKey h₄ hdom hparent hfull' (by rw [hon.allocated]; exact hnew₃)

theorem insertEntryIntoLeafNode_safely [Inhabited κ] (hinv : TreeInv rank v g none)
    (hcrab : Crabbed tree.fileHeader .insert v leaf held) (key : κ) (rid : RID)
    (h : Climb v g held p s) (hp : g.dom p) (hnode : s.pages.node p = v.node p)
    (hheld : XLatched held p) :
    Safely v held s (insertEntryIntoLeafNode tree p key rid) fun _ _ => True := by
  refine look_readNode h.good ?_
  rw [hnode]
  refine .ite (fun _ => .throw h.good _) fun _ => .ite (fun _ => ?_) fun hfull => ?_
  · have hW : ∀ x, x = p → Writable v held s x := by
      rintro x rfl
      exact Or.inr (Or.inl hheld)
    refine (under_edits (K := fun _ => False) h.good hW (fun _ => False.elim)
      (.of_within ?_)).post fun _ _ _ => trivial
    exact (LeafIndexNodeHandler.insert_edits (by simp) _ _).bind fun _ => markDirty_edits p
  · refine (h.split .leaf hp hp (Or.inl rfl) hheld (by simp)).bind
      fun newPage s₁ hgood₁ ⟨h₁, hnew, _⟩ => ?_
    have hW : ∀ x, x = p ∨ x = newPage → Writable v held s₁ x := by
      rintro x (rfl | rfl)
      · exact Or.inr (Or.inl hheld)
      · exact Or.inl hnew
    have hK : ∀ x, x = newPage → Movable v held s₁ x := by
      rintro x rfl
      exact Or.inl (Or.inl hnew)
    refine (under_edits hgood₁ hW hK (.of_within ?_)).bind fun _ s₂ hgood₂ hon => ?_
    · exact (readNode_edits p).bind fun leafNode =>
        (LeafIndexNodeHandler.setNextPage_edits (by simp) _).bind fun _ =>
        (IndexNodeHandler.setParentPageNum_edits (by simp) _).bind fun _ =>
        (LeafIndexNodeHandler.setNextPage_edits (by simp) _).bind fun _ =>
        BplusTreeHandler.insertIntoLeafHalf_edits (by simp) (by simp) _ _ _
    have h₂ : Climb v g held p s₂ := by
      refine h₁.goesOn hgood₂ hon hp (Or.inl rfl) ?_ ?_
      · rintro x (rfl | rfl) hx
        · exact Or.inl rfl
        · exact absurd hx (h₁.fresh _ hnew)
      · rintro x rfl hx
        exact absurd hx (h₁.fresh _ hnew)
    refine look_any hgood₂ fun newKey => look_any hgood₂ fun fuel => ?_
    exact insertEntryIntoParent_safely hinv hcrab fuel newKey h₂ hp hheld hfull
      (by rw [hon.allocated]; exact hnew)

/-! ## Deletion -/

theorem ignoreRC_safely {x : CrabM κ Unit} (h : Safely v held s x fun _ _ => True) :
    Safely v held s (ignoreRC x) fun _ _ => True := by
  rintro s rfl
  have h' := h s rfl
  unfold ignoreRC
  cases hx : x s with
  | ok a s' =>
    rw [hx] at h'
    exact h'
  | error e s' =>
    rw [hx] at h'
    cases e with
    | rc rc => exact ⟨h', trivial⟩
    | abort => exact h'
    | outOfFuel => exact h'

theorem isSafe_delete_root {node : IndexNode κ} (h : node.items.length ≤ 2)
    (hleaf : node.isLeaf = true → node.items.length ≤ 1) :
    IndexNodeHandler.isSafe tree.fileHeader .delete true node = false := by
  have hsize : node.size = node.items.length := rfl
  unfold IndexNodeHandler.isSafe
  cases hl : node.isLeaf with
  | true =>
    have := hleaf hl
    simp; omega
  | false => simp; omega

/-- A root that is given up was not safe. -/
theorem adjustRoot_safely (hinv : TreeInv rank v g none)
    (hcrab : Crabbed tree.fileHeader .delete v leaf held) (h : Climb v g held v.rootPage s)
    (hp : g.dom v.rootPage) (hheld : XLatched held v.rootPage)
    (hdrop : BplusTreeHandler.Dropped (v.node v.rootPage) (s.pages.node v.rootPage))
    (hsize : ¬ 1 < (s.pages.node v.rootPage).size) :
    Safely v held s (adjustRoot v.rootPage) fun _ _ => True := by
  obtain ⟨items, heq, hsub, hlen⟩ := hdrop
  refine look_readNode h.good ?_
  rw [heq] at hsize ⊢
  simp only [IndexNode.size] at hsize ⊢
  refine .ite (fun _ => ?_) fun hleaf => ?_
  · exact (under_edits (W := fun _ => False) (K := fun _ => False) h.good (fun _ => False.elim)
      (fun _ => False.elim) (.of_within (markDirty_edits _))).post fun _ _ _ => trivial
  have hlock : ⟨.exclusive, none⟩ ∈ held := by
    refine lock_of_unsafe hcrab (by simp) hheld (isSafe_delete_root (by omega) fun hl => ?_)
    have hempty : ¬ 0 < items.length := fun hpos => hleaf ⟨hl, hpos⟩
    omega
  refine (h.climb (show Granted held none from hlock)).bind fun _ s₁ _ hclimbed => ?_
  obtain ⟨h₁, ht₁⟩ := hclimbed
  refine .ite (fun hl => ?_) fun hl => ?_
  · refine (updateRootPageNumLocked_safely h₁.good hlock _).bind fun _ s₂ hgood₂ _ => ?_
    exact (under_edits (W := fun _ => False) (K := fun _ => False) hgood₂ (fun _ => False.elim)
      (fun _ => False.elim) (.of_within (disposePage_edits _))).post fun _ _ _ => trivial
  · refine look_valueAt h₁.good fun item hitem => ?_
    rw [ht₁.pages, heq] at hitem
    have hlvl := hinv.lvl_ne_zero hp (by simpa using hl)
    obtain ⟨-, hparent, -⟩ := child_below hinv hp hlvl (hsub.subset hitem)
    refine (h₁.getPage hp item.child).bind fun _ s₂ hgood₂ _ => ?_
    have hK : ∀ x, x = item.child → Movable v held s₂ x := by
      rintro x rfl
      rw [Movable, hparent]
      exact Or.inr (hheld.mono hgood₂.memo)
    refine (under_edits (W := fun _ => False) hgood₂ (fun _ => False.elim) hK
      (.of_within (IndexNodeHandler.setParentPageNum_edits (by simp) _))).bind
      fun _ s₃ hgood₃ _ => ?_
    refine (updateRootPageNumLocked_safely hgood₃ hlock _).bind fun _ s₄ hgood₄ _ => ?_
    exact (under_edits (W := fun _ => False) (K := fun _ => False) hgood₄ (fun _ => False.elim)
      (fun _ => False.elim) (.of_within (disposePage_edits _))).post fun _ _ _ => trivial

theorem isSafe_delete_of_small {node node' : IndexNode κ}
    (hdrop : BplusTreeHandler.Dropped node node')
    (hsmall : ¬ IndexNodeHandler.minSize tree.fileHeader node' ≤ node'.size) :
    IndexNodeHandler.isSafe tree.fileHeader .delete false node = false := by
  obtain ⟨items, rfl, -, hlen⟩ := hdrop
  have hsize : node.size = node.items.length := rfl
  change ¬ IndexNodeHandler.minSize tree.fileHeader node ≤ items.length at hsmall
  change decide (IndexNodeHandler.minSize tree.fileHeader node < node.size) = false
  rw [decide_eq_false_iff_not]
  omega

/-- The pages that an exchange of items between `p` and its neighbor gives a new parent. -/
def Exchanged (v : Pages κ) (kind : NodeKind) (p neighborPage x : PageNum) : Prop :=
  kind = .internal ∧ ∃ y, (y = neighborPage ∨ y = p) ∧ ∃ item ∈ (v.node y).items, item.child = x

theorem Exchanged.below (hinv : TreeInv rank v g none) {kind : NodeKind} {neighborPage x : PageNum}
    (hp : g.dom p) (hkind : kind = .internal → g.lvl p ≠ 0) (hn : g.dom neighborPage)
    (hlvl : g.lvl neighborPage = g.lvl p) (h : Exchanged v kind p neighborPage x) :
    ((v.node x).parent = neighborPage ∨ (v.node x).parent = p) ∧ g.lvl x < g.lvl p := by
  obtain ⟨hint, y, hy, item, hitem, rfl⟩ := h
  have hydom : g.dom y := by rcases hy with rfl | rfl <;> assumption
  have hylvl : g.lvl y = g.lvl p := by
    rcases hy with rfl | rfl
    · exact hlvl
    · rfl
  obtain ⟨-, hpar, hl⟩ := child_below hinv hydom (hylvl ▸ hkind hint) hitem
  exact ⟨by rwa [hpar], by omega⟩

/-- A merge climbs only to pages that are held. -/
theorem coalesceOrRedistribute_safely (hinv : TreeInv rank v g none)
    (hcrab : Crabbed tree.fileHeader .delete v leaf held) (fuel : Nat) (kind : NodeKind)
    (h : Climb v g held p s) (hp : g.dom p) (hkind : kind = .internal → g.lvl p ≠ 0)
    (hheld : XLatched held p)
    (hdrop : BplusTreeHandler.Dropped (v.node p) (s.pages.node p)) :
    Safely v held s (coalesceOrRedistribute tree fuel kind p) fun _ _ => True := by
  induction fuel generalizing kind p s with
  | zero => exact .throw h.good _
  | succ fuel ih =>
    refine look_readNode h.good <| .ite (fun _ => .pure h.good trivial) fun hsmall => ?_
    rw [h.parent]
    have hinvalid := hinv.parent_eq_invalid_iff hp (by simp)
    refine .ite (fun hroot => ?_) fun hroot => ?_
    · obtain rfl := hinvalid.mp hroot
      refine .ite (fun _ => .pure h.good trivial) fun hsize => ignoreRC_safely ?_
      exact adjustRoot_safely hinv hcrab h hp hheld hdrop hsize
    obtain ⟨hdom, hlvl, hparent⟩ := parent_of_unsafe hinv hcrab (by simp) hp
      (fun heq => hroot (hinvalid.mpr heq)) hheld (isSafe_delete_of_small hdrop hsmall)
    have hne : (v.node p).parent ≠ p := fun heq => by rw [heq] at hlvl; omega
    refine (h.climb (show Granted held (some _) from hparent)).bind fun _ s₁ _ ⟨h₁, ht₁⟩ => ?_
    refine (h₁.getPage hp _).bind fun _ s₂ hgood₂ ⟨h₂, _, _, hnode₂⟩ => ?_
    refine look_readNode hgood₂ <| look_any hgood₂ fun key => look_valueAt hgood₂ fun _ _ => ?_
    refine .ite (fun _ => .throw hgood₂ _) fun _ => look_valueAt hgood₂ fun item hitem => ?_
    rw [h₂.node _ hdom (by omega) hne] at hitem
    obtain ⟨hndom, hnparent, hnlvl⟩ := child_below hinv hdom (by omega) hitem
    refine (h₂.getPage hp _).bind fun _ s₃ hgood₃ ⟨h₃, _, hmemo₃, hnode₃⟩ => ?_
    refine (h₃.hold _).bind fun _ s₄ hgood₄ ⟨h₄, ht₄⟩ => look_readNode hgood₄ ?_
    have hneighbor : XLatched s₄.memo item.child := by
      rw [ht₄.memo, hmemo₃, XLatched]
      simp
    have hitems (x : PageNum) (hx : x = item.child ∨ x = p) :
        ∀ it ∈ (s₄.pages.node x).items, it ∈ (v.node x).items := by
      by_cases hxp : x = p
      · subst hxp
        obtain ⟨items, heq, hsub, -⟩ := hdrop
        rw [ht₄.pages, hnode₃, hnode₂, ht₁.pages, heq]
        exact fun it hit => hsub.subset hit
      · obtain rfl := hx.resolve_right hxp
        rw [h₄.node _ hndom (by omega) hxp]
        exact fun it hit => hit
    have hbelow (x : PageNum) (hx : Exchanged v kind p item.child x) :=
      hx.below hinv hp hkind hndom (by omega)
    have hW : ∀ x, x = item.child ∨ x = p ∨ x = (v.node p).parent → Writable v held s₄ x := by
      rintro x (rfl | rfl | rfl)
      · exact Or.inr (Or.inr ⟨hnparent ▸ hparent, hneighbor⟩)
      · exact Or.inr (Or.inl hheld)
      · exact Or.inr (Or.inl hparent)
    have hK : ∀ x, Exchanged v kind p item.child x → Movable v held s₄ x := by
      intro x hx
      rcases (hbelow x hx).1 with hpar | hpar
      · exact Or.inr (hpar ▸ hneighbor)
      · exact Or.inr (hpar ▸ hheld.mono hgood₄.memo)
    have hchildren (hint : kind = .internal) (x : PageNum) (hx : x = item.child ∨ x = p)
        (it : Item κ) (hit : it ∈ (s₄.pages.node x).items) : Exchanged v kind p item.child it.child :=
      ⟨hint, x, hx, it, hitems x hx it hit, rfl⟩
    refine .ite (fun _ => ?_) fun _ => ?_
    · exact (under_edits hgood₄ hW hK (BplusTreeHandler.redistribute_editing (Or.inl rfl)
        (Or.inr (Or.inl rfl)) (Or.inr (Or.inr rfl)) (fun hint => hchildren hint _ (Or.inl rfl))
        _)).post fun _ _ _ => trivial
    · refine (under_safely hgood₄ hW hK (R := fun _ t => BplusTreeHandler.Dropped
        (v.node (v.node p).parent) (t.pages.node (v.node p).parent)) ?_).bind
        fun _ s₅ hgood₅ ⟨hon, hdrop₅⟩ => ?_
      · rw [← h₄.node _ hdom (by omega) hne]
        refine BplusTreeHandler.coalesce_editing (Or.inl rfl) (Or.inr (Or.inl rfl))
          (Or.inr (Or.inr rfl)) (fun heq => by rw [← heq] at hnlvl; omega) hne (fun hx => ?_)
          hchildren _
        have := (hbelow _ hx).2
        omega
      · refine ih .internal ?_ hdom (fun _ => by omega) hparent hdrop₅
        refine h₄.goesOn hgood₅ hon hdom (Or.inr (by omega)) ?_ fun x hx _ => ?_
        · rintro x (rfl | rfl | rfl) hx
          · exact Or.inr (by omega)
          · exact Or.inr (by omega)
          · exact Or.inl rfl
        · have := (hbelow x hx).2
          omega

theorem deleteEntryInternal_safely (hinv : TreeInv rank v g none)
    (hcrab : Crabbed tree.fileHeader .delete v leaf held) (key : κ)
    (h : Climb v g held p s) (hp : g.dom p) (hnode : s.pages.node p = v.node p)
    (hheld : XLatched held p) :
    Safely v held s (deleteEntryInternal tree p key) fun _ _ => True := by
  have hW : ∀ x, x = p → Writable v held s x := by
    rintro x rfl
    exact Or.inr (Or.inl hheld)
  refine (under_safely (K := fun _ => False) h.good hW (fun _ => False.elim)
    (((LeafIndexNodeHandler.removeKey_edits (by simp) _ key _).and
      (BplusTreeHandler.leaf_removeKey_drops _ p key)).conseq (fun _ => id)
      (fun _ _ => id) fun _ _ ht => ht.1)).bind fun count s₁ hgood₁ ⟨hon, hdrop⟩ => ?_
  refine .ite (fun _ => .throw hgood₁ _) fun hcount => ?_
  have h₁ : Climb v g held p s₁ := by
    refine h.goesOn hgood₁ hon hp (Or.inl rfl) (fun x hx _ => Or.inl hx) fun _ => False.elim
  have hdrop₁ := hdrop hcount
  refine (under_edits (W := fun _ => False) (K := fun _ => False) hgood₁ (fun _ => False.elim)
    (fun _ => False.elim) (.of_within (markDirty_edits p))).bind fun _ s₂ hgood₂ hon₂ => ?_
  refine look_any hgood₂ fun node => .ite (fun _ => .pure hgood₂ trivial) fun _ => ?_
  have h₂ : Climb v g held p s₂ :=
    h₁.goesOn hgood₂ hon₂ hp (Or.inl rfl) (fun _ => False.elim) fun _ => False.elim
  refine look_any hgood₂ fun fuel => ?_
  refine coalesceOrRedistribute_safely hinv hcrab fuel .leaf h₂ hp (by simp) hheld ?_
  rwa [hon₂.edits.same id id, ← hnode]

end Tree

/-! ## Operations -/

/-- What an operation does with the leaf that `find_leaf` has returned: `insert_entry` inserts the
key, `delete_entry` removes it. -/
def change [Inhabited κ] (tree : BplusTreeHandler κ) (op : BplusTreeOperationType) (key : κ)
    (rid : RID) (leaf : PageNum) : CrabM κ Unit :=
  match op with
  | .read => pure ()
  | .insert => insertEntryIntoLeafNode tree leaf key rid
  | .delete => deleteEntryInternal tree leaf key

/-- Without the latches it is what `insert_entry` and `delete_entry` do. -/
theorem change_erases [Inhabited κ] (tree : BplusTreeHandler κ) (op : BplusTreeOperationType)
    (key : κ) (rid : RID) (leaf : PageNum) :
    Erases (change tree op key rid leaf) (match op with
      | .read => pure ()
      | .insert => tree.insertEntryIntoLeafNode leaf key rid
      | .delete => tree.deleteEntryInternal leaf key) := by
  cases op with
  | read => exact .pure _
  | insert => exact insertEntryIntoLeafNode_erases tree leaf key rid
  | delete => exact deleteEntryInternal_erases tree leaf key

/-- The changes of an operation and the way that its recursion takes. -/
def run (x : CrabM κ Unit) (s : Crabbing κ) : Crabbing κ :=
  match x s with
  | .ok _ s' => s'
  | .error _ s' => s'

theorem start_climb [LinearOrder ρ] {rank : κ → ρ} {t : Mtr κ} (hinv : TreeInv rank t.pages g none)
    (held : List (LatchMemoItem PageNum)) (p : PageNum) :
    Climb t.pages g held p (start t held) where
  good := ⟨List.Subset.refl _, by simp [start], by simp [start]⟩
  alive x hx := (hinv.alloc x hx).2.1
  fresh := by simp [start]
  node _ _ _ _ := rfl
  parent := rfl

/-- Whatever tree an operation finds, and whatever the outcomes of its page requests are: when
`find_leaf` has returned a leaf, all that the operation changes from then on is out of the reach
of others, and its recursion comes only to pages, and to the root page number, that `find_leaf`
has kept. -/
theorem changes_safe [Inhabited κ] [LinearOrder ρ] {rank : κ → ρ} {tree : BplusTreeHandler κ}
    (hcmp : RankedBy tree.keyComparator rank) {t : Mtr κ} (hinv : TreeInv rank t.pages g none)
    (op : BplusTreeOperationType) (key : κ) (rid : RID) {rounds : Nat} {leaf : PageNum}
    {descent : Latching PageNum}
    (hleaf : tree.latchLeaf (fun _ => .still t.pages) op key rounds ⟨0, [], []⟩ =
      .ok leaf descent) :
    (∀ c ∈ (run (change tree op key rid leaf) (start t descent.memo)).changes,
      c.Safe t.pages descent.memo) ∧
    ∀ target ∈ (run (change tree op key rid leaf) (start t descent.memo)).climbed,
      Granted descent.memo target := by
  have hroot : g.dom t.pages.rootPage := by
    rcases hinv.root with ⟨hroot, -⟩ | ⟨hroot, -⟩
    · exact ((BplusTreeHandler.latchLeafInternal_of_no_root hroot _ rounds).ok trivial hleaf).elim
    · exact hroot
  obtain ⟨⟨hdom, -, -⟩, hcrab⟩ := (BplusTreeHandler.latchLeaf_still (E := fun _ _ => True) hcmp
    hinv hroot key (Or.inr fun _ => trivial)).ok rfl hleaf
  have hstart := start_climb hinv descent.memo leaf
  have hsafely : Safely t.pages descent.memo (start t descent.memo)
      (change tree op key rid leaf) fun _ _ => True := by
    cases op with
    | read => exact .pure hstart.good trivial
    | insert =>
      exact insertEntryIntoLeafNode_safely hinv hcrab key rid hstart hdom rfl
        ((xLatched_iff (by simp)).mp hcrab.page)
    | delete =>
      exact deleteEntryInternal_safely hinv hcrab key hstart hdom rfl
        ((xLatched_iff (by simp)).mp hcrab.page)
  have h := hsafely _ rfl
  unfold run
  cases hrun : change tree op key rid leaf (start t descent.memo) with
  | ok a s =>
    rw [hrun] at h
    exact ⟨h.1.changes, h.1.climbed⟩
  | error e s =>
    rw [hrun] at h
    exact ⟨h.changes, h.climbed⟩

/-- The root has two leaves, which the deletion merges. -/
theorem changes_safe_merge : ∃ results t leaf descent,
    smallIndex.runCalls splittingCalls TreeState.create = some (results, t) ∧
    (t.pages.node t.pages.rootPage).size = 2 ∧
    smallIndex.latchLeaf (fun _ => .still t.pages) .delete
      ⟨intKey 0, ⟨0, 0⟩⟩ (t.pages.fileHeader.pageCount + 1) ⟨0, [], []⟩ = .ok leaf descent ∧
    (∀ c ∈ (run (change smallIndex .delete ⟨intKey 0, ⟨0, 0⟩⟩ ⟨0, 0⟩ leaf)
        (start (BplusTreeMiniTransaction.start t true []) descent.memo)).changes,
      c.Safe t.pages descent.memo) ∧
    ∀ target ∈ (run (change smallIndex .delete ⟨intKey 0, ⟨0, 0⟩⟩ ⟨0, 0⟩
        leaf) (start (BplusTreeMiniTransaction.start t true []) descent.memo)).climbed,
      Granted descent.memo target := by
  have hcmp : RankedBy smallIndex.keyComparator _ :=
    BplusTreeHandler.ranked_ofAttrs [.ints] ⟨6, 4, false⟩
  obtain ⟨t, hrun, g, hw, -⟩ := (holds_create _ smallIndex.fileHeader).runCalls hcmp
    (Key.rank_injective UserKey.rank_ints_injective) (by decide) (by decide) rfl splittingCalls
    (by simp [splittingCalls, Call.Served])
  have hroot : (smallIndex.runCalls splittingCalls TreeState.create).map
      (fun r => decide (r.2.pages.rootPage = 4 ∧ (r.2.pages.node r.2.pages.rootPage).size = 2)) =
      some true := by
    decide +kernel
  rw [hrun] at hroot
  obtain ⟨hpage, hsize⟩ := of_decide_eq_true (Option.some.inj hroot)
  have hdom : g.dom t.pages.rootPage := hw.tree.root.elim
    (fun h => absurd (h.1.symm.trans hpage) (by decide)) fun h => h.1
  have hfind : Triple (fun s => s.memo = []) (smallIndex.latchLeaf
      (fun _ => .still t.pages) .delete ⟨intKey 0, ⟨0, 0⟩⟩ (t.pages.fileHeader.pageCount + 1)) _
      fun _ _ => False :=
    BplusTreeHandler.latchLeaf_still hcmp hw.tree hdom _
      (Or.inl (Nat.lt_succ_of_lt (hw.tree.lvl_root_lt hdom)))
  obtain ⟨leaf, descent, hleaf, -⟩ := hfind.exists_ok (s := ⟨0, [], []⟩) rfl
  exact ⟨_, t, leaf, descent, hrun, hsize, hleaf, changes_safe hcmp
    (t := BplusTreeMiniTransaction.start t true []) hw.tree .delete _ _ hleaf⟩

end Crabbing

end ObHtap
