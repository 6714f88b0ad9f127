import ObHtap.Bplus.Runs

/-!
# Scanning an index

`BplusTreeScanner` goes through the leaves of an index between two keys.  It keeps the frame of a
leaf and the number of an item in it, and looks at both again at every call of `next_entry`.  In a
tree that stays as it is, it gives the entries between the two keys.
-/

namespace ObHtap

open ObHtap.Bound BplusTreeHandler BplusTreeMiniTransaction

/-- `RID::max`. -/
def RID.max : RID := ⟨2147483647, 2147483647⟩

theorem RID.rank_lt_max {rid : RID} (h : rid.pageNum < 2147483647) : rid.rank < RID.max.rank :=
  Prod.Lex.toLex_lt_toLex.mpr (Or.inl h)

/-- What a `BplusTreeScanner` keeps, apart from its right key.  The frame is taken to stay that of
its page. -/
structure BplusTreeScanner where
  currentFrame : Option PageNum
  iterIndex : Nat
  firstEmitted : Bool
  deriving DecidableEq

namespace BplusTreeScanner

variable {κ : Type}

/-- `touch_end`. -/
def touchEnd (index : BplusTreeHandler κ) (v : Pages κ) (rightKey : κ) (page : PageNum)
    (iterIndex : Nat) : Bool :=
  0 < compareAt index.keyComparator (v.node page).items rightKey iterIndex

/-- `fetch_item`. -/
def fetchItem (v : Pages κ) (page : PageNum) (iterIndex : Nat) : Option RID :=
  ((v.node page).items[iterIndex]?).map fun item => item.value.toRid

/-- `open`, which starts at the first entry that is not below the left key. -/
def openScan (index : BplusTreeHandler κ) (t : TreeState κ) (leftKey rightKey : κ) :
    Option (Except RC BplusTreeScanner) :=
  let startAt (page : PageNum) (iterIndex : Nat) : BplusTreeScanner :=
    if touchEnd index t.pages rightKey page iterIndex then ⟨none, iterIndex, false⟩
    else ⟨some page, iterIndex, false⟩
  match findLeaf index leftKey (start t true []) with
  | .error (.rc rc) _ => some (if rc = .empty then .ok ⟨none, 0, false⟩ else .error rc)
  | .error _ _ => none
  | .ok page _ =>
    let node := t.pages.node page
    let leftIndex := (LeafIndexNodeHandler.lookup index.keyComparator node leftKey).1
    if leftIndex < node.size then some (.ok (startAt page leftIndex))
    else if node.nextBrother = bpInvalidPageNum then some (.ok ⟨none, 0, false⟩)
    else some (.ok (startAt node.nextBrother 0))

/-- The end of `next_entry`, from an item on, with the place of the entry it gives.  Where a leaf
ends it goes on in the next one. -/
def nextEntryFrom (index : BplusTreeHandler κ) (v : Pages κ) (rightKey : κ) :
    Nat → PageNum → Nat → Option (Option (RID × PageNum × Nat))
  | 0, _, _ => none
  | rounds + 1, page, iterIndex =>
    if iterIndex < (v.node page).size then
      if touchEnd index v rightKey page iterIndex then some none
      else (fetchItem v page iterIndex).map fun rid => some (rid, page, iterIndex)
    else if (v.node page).nextBrother = bpInvalidPageNum then some none
    else nextEntryFrom index v rightKey rounds (v.node page).nextBrother 0

/-- `next_entry`; `some none` is `RECORD_EOF`.  On a cycle of empty leaves it does not return. -/
def nextEntry (index : BplusTreeHandler κ) (v : Pages κ) (rightKey : κ) (s : BplusTreeScanner) :
    Option (Option (RID × BplusTreeScanner)) :=
  match s.currentFrame with
  | none => some none
  | some page =>
    if s.firstEmitted then
      (nextEntryFrom index v rightKey (v.fileHeader.pageCount + 1) page (s.iterIndex + 1)).map
        (Option.map fun r => (r.1, ⟨some r.2.1, r.2.2, true⟩))
    else
      (fetchItem v page s.iterIndex).map fun rid => some (rid, { s with firstEmitted := true })

/-! ## The entries that are left -/

variable {ρ : Type} [LinearOrder ρ] {rank : κ → ρ} {index : BplusTreeHandler κ} {v : Pages κ}
  {g : Layout ρ} {rightKey leftKey : κ} {page : PageNum} {ps : List PageNum} {i rounds : Nat}
  {items : List (Item κ)} {s : BplusTreeScanner} {s₀ : Mtr κ}

/-- An item that is not above the right key. -/
def within (index : BplusTreeHandler κ) (rightKey : κ) (item : Item κ) : Bool :=
  index.keyComparator item.key rightKey ≤ 0

/-- The items from a place in a leaf on, up to the first one above the right key. -/
def itemsFrom (index : BplusTreeHandler κ) (v : Pages κ) (rightKey : κ) (page : PageNum)
    (ps : List PageNum) (i : Nat) : List (Item κ) :=
  ((v.node page).items.drop i ++ v.itemsOf ps).takeWhile (within index rightKey)

/-- The items are those that a scan has yet to give. -/
inductive Left (index : BplusTreeHandler κ) (v : Pages κ) (rightKey : κ) :
    BplusTreeScanner → List (Item κ) → Prop
  | eof (i : Nat) (emitted : Bool) : Left index v rightKey ⟨none, i, emitted⟩ []
  | first {page : PageNum} {ps : List PageNum} {i : Nat} (hchain : Chain v page (page :: ps))
      (hrounds : ps.length ≤ v.fileHeader.pageCount) (hi : i < (v.node page).items.length)
      (hend : touchEnd index v rightKey page i = false) :
      Left index v rightKey ⟨some page, i, false⟩ (itemsFrom index v rightKey page ps i)
  | next {page : PageNum} {ps : List PageNum} {i : Nat} (hchain : Chain v page (page :: ps))
      (hrounds : ps.length ≤ v.fileHeader.pageCount) :
      Left index v rightKey ⟨some page, i, true⟩ (itemsFrom index v rightKey page ps (i + 1))

theorem touchEnd_eq (hi : i < (v.node page).items.length) :
    touchEnd index v rightKey page i = !within index rightKey (v.node page).items[i] := by
  rw [touchEnd, compareAt, List.getElem?_eq_getElem hi, within, ← decide_not]
  exact decide_eq_decide.mpr Int.not_le.symm

theorem itemsFrom_of_lt (hi : i < (v.node page).items.length)
    (hend : touchEnd index v rightKey page i = false) :
    itemsFrom index v rightKey page ps i =
      (v.node page).items[i] :: itemsFrom index v rightKey page ps (i + 1) := by
  rw [touchEnd_eq hi, Bool.not_eq_false'] at hend
  rw [itemsFrom, itemsFrom, List.drop_eq_getElem_cons hi, List.cons_append,
    List.takeWhile_cons, if_pos hend]

theorem itemsFrom_of_touchEnd (hi : i < (v.node page).items.length)
    (hend : touchEnd index v rightKey page i = true) :
    itemsFrom index v rightKey page ps i = [] := by
  rw [touchEnd_eq hi, Bool.not_eq_true'] at hend
  rw [itemsFrom, List.drop_eq_getElem_cons hi, List.cons_append, List.takeWhile_cons, if_neg]
  simp [hend]

theorem itemsFrom_of_le {q : PageNum} (hi : (v.node page).items.length ≤ i) :
    itemsFrom index v rightKey page (q :: ps) i = itemsFrom index v rightKey q ps 0 := by
  rw [itemsFrom, itemsFrom, List.drop_eq_nil_of_le hi]
  rfl

/-- The end of `next_entry` gives the first of the items from a place on, by induction on the
rounds. -/
theorem nextEntryFrom_spec (index : BplusTreeHandler κ) (rightKey : κ) (i : Nat)
    (hchain : Chain v page (page :: ps)) (hrounds : ps.length < rounds) :
    (nextEntryFrom index v rightKey rounds page i = some none ∧
        itemsFrom index v rightKey page ps i = []) ∨
      ∃ q qs j item, nextEntryFrom index v rightKey rounds page i =
          some (some (item.value.toRid, q, j)) ∧ Chain v q (q :: qs) ∧ qs.length ≤ ps.length ∧
        itemsFrom index v rightKey page ps i = item :: itemsFrom index v rightKey q qs (j + 1) := by
  induction rounds generalizing page ps i with
  | zero => omega
  | succ rounds ih =>
    rw [nextEntryFrom, IndexNode.size]
    by_cases hi : i < (v.node page).items.length
    · rw [if_pos hi]
      cases hend : touchEnd index v rightKey page i with
      | true => exact Or.inl ⟨if_pos rfl, itemsFrom_of_touchEnd hi hend⟩
      | false =>
        refine Or.inr ⟨page, ps, i, (v.node page).items[i], ?_, hchain, le_rfl,
          itemsFrom_of_lt hi hend⟩
        rw [if_neg Bool.false_ne_true, fetchItem, List.getElem?_eq_getElem hi]
        rfl
    · rw [if_neg hi]
      have hle := Nat.le_of_not_lt hi
      cases hchain with
      | cons hne htail =>
        by_cases hnext : (v.node page).nextBrother = bpInvalidPageNum
        · obtain rfl := htail.eq_nil hnext
          refine Or.inl ⟨if_pos hnext, ?_⟩
          rw [itemsFrom, List.drop_eq_nil_of_le hle]
          rfl
        · rw [if_neg hnext]
          -- the next leaf is the head of the rest of the chain
          obtain ⟨qs, rfl⟩ := htail.exists_cons hnext
          rw [itemsFrom_of_le hle]
          rw [List.length_cons] at hrounds ⊢
          rcases ih (i := 0) htail (by omega) with hnone | ⟨q, qs', j, item, hsome, hc, hle', hitems⟩
          · exact Or.inl hnone
          · exact Or.inr ⟨q, qs', j, item, hsome, hc, by omega, hitems⟩

theorem nextEntry_spec (h : Left index v rightKey s items) :
    (nextEntry index v rightKey s = some none ∧ items = []) ∨
      ∃ item rest s', nextEntry index v rightKey s = some (some (item.value.toRid, s')) ∧
        items = item :: rest ∧ Left index v rightKey s' rest := by
  cases h with
  | eof => exact Or.inl ⟨rfl, rfl⟩
  | @first page ps i hchain hrounds hi hend =>
    refine Or.inr ⟨_, _, ⟨some page, i, true⟩, ?_, itemsFrom_of_lt hi hend, .next hchain hrounds⟩
    rw [nextEntry]
    simp only [Bool.false_eq_true, if_false]
    rw [fetchItem, List.getElem?_eq_getElem hi]
    rfl
  | @next page ps i hchain hrounds =>
    rw [nextEntry]
    simp only [if_true]
    rcases nextEntryFrom_spec index rightKey (i + 1) hchain
      (Nat.lt_succ_of_le hrounds) with ⟨hnone, hempty⟩ | ⟨q, qs, j, item, hsome, hc, hle, hitems⟩
    · exact Or.inl ⟨by rw [hnone]; rfl, hempty⟩
    · refine Or.inr ⟨item, _, ⟨some q, j, true⟩, ?_, hitems, .next hc (hle.trans hrounds)⟩
      rw [hsome]
      rfl

/-! ## Opening a scan -/

theorem items_ne_nil_of_next {header : IndexFileHeader} (hL : 2 ≤ header.leafMaxSize)
    (hw : WellFormed header rank v g) {p q : PageNum} (hp : g.dom p) (hq : g.dom q)
    (hlp : g.lvl p = 0) (hlq : g.lvl q = 0) (hne : q ≠ p) : (v.node q).items ≠ [] := by
  have hroot : q ≠ v.rootPage := by
    rintro rfl
    exact (hw.tree.eq_root_of_lvl hp (hlp.trans hlq.symm)).elim (fun h => hne h.symm) (by simp)
  have hfill := hw.balanced.filled q hq (Or.inl hroot)
  rw [minFill, if_pos hlq] at hfill
  intro hnil
  rw [hnil, List.length_nil] at hfill
  omega

theorem findLeaf_of_no_root (index : BplusTreeHandler κ) (hs₀ : At v s₀) (hroot : v.rootPage = bpInvalidPageNum) (key : κ) :
    Triple (· = s₀) (findLeaf index key) (fun _ _ => False) (fun e _ => e = .rc .empty) := by
  refine readRootPage_of (fun s hs => hs ▸ hs₀.1) ?_
  rw [if_pos hroot]
  exact Triple.throw fun _ _ => rfl

/-- The items from a place on that are within the right key, as those that are left. -/
theorem left_startAt (hchain : Chain v page (page :: ps))
    (hrounds : ps.length ≤ v.fileHeader.pageCount) (hi : i < (v.node page).items.length) :
    Left index v rightKey
      (if touchEnd index v rightKey page i then ⟨none, i, false⟩ else ⟨some page, i, false⟩)
      (itemsFrom index v rightKey page ps i) := by
  cases hend : touchEnd index v rightKey page i with
  | true =>
    rw [itemsFrom_of_touchEnd hi hend]
    exact .eof i false
  | false => exact .first hchain hrounds hi hend

/-- In sorted items those up to the first one above the right key are those within it. -/
theorem mem_takeWhile_within (hcmp : RankedBy index.keyComparator rank) {L : List (Item κ)}
    (hsorted : L.Pairwise fun a b => rank a.key < rank b.key) {item : Item κ} :
    item ∈ L.takeWhile (within index rightKey) ↔
      item ∈ L ∧ rank item.key ≤ rank rightKey := by
  induction hsorted with
  | nil => simp
  | @cons a L hlt _ ih =>
    have hwithin : within index rightKey a = true ↔ rank a.key ≤ rank rightKey := by
      rw [within, decide_eq_true_iff, hcmp.nonpos_iff]
    by_cases ha : within index rightKey a = true
    · rw [List.takeWhile_cons, if_pos ha, List.mem_cons, List.mem_cons, ih]
      constructor
      · rintro (rfl | ⟨hmem, hle⟩)
        · exact ⟨Or.inl rfl, hwithin.mp ha⟩
        · exact ⟨Or.inr hmem, hle⟩
      · rintro ⟨rfl | hmem, hle⟩
        · exact Or.inl rfl
        · exact Or.inr ⟨hmem, hle⟩
    · rw [List.takeWhile_cons, if_neg ha]
      refine iff_of_false List.not_mem_nil ?_
      rintro ⟨hmem, hle⟩
      apply ha
      rw [hwithin]
      rcases List.mem_cons.mp hmem with rfl | hmem
      · exact hle
      · exact (hlt _ hmem).le.trans hle

/-- The entries that are not below a key are those from its position in its leaf on, and those of
the leaves that follow. -/
theorem mem_append_itemsOf (hcmp : RankedBy index.keyComparator rank)
    (hinv : TreeInv rank v g none) {p : PageNum} (hp : g.dom p) (hl : g.lvl p = 0)
    (hlo : g.lo p ≤ at_ (rank leftKey)) (hhi : at_ (rank leftKey) < g.hi p)
    (hpw : (p :: ps).Pairwise fun a b => g.hi a ≤ g.lo b)
    (hmem : ∀ q, q ∈ p :: ps ↔ g.dom q ∧ g.lvl q = 0 ∧ g.lo p ≤ g.lo q) {item : Item κ} :
    item ∈ (v.node p).items.drop
        (LeafIndexNodeHandler.lookup index.keyComparator (v.node p) leftKey).1 ++ v.itemsOf ps ↔
      Entry v g item ∧ rank leftKey ≤ rank item.key := by
  have hleaf := hinv.leaf p hp hl
  have hdrop := (LeafIndexNodeHandler.lookup_spec leftKey hcmp hleaf.sorted).mem_drop_iff
    hleaf.sorted item
  rw [List.mem_append, hdrop, Pages.itemsOf, List.mem_flatMap]
  constructor
  · rintro (⟨hitem, hle⟩ | ⟨q, hq, hitem⟩)
    · exact ⟨⟨p, hp, hl, hitem⟩, hle⟩
    · obtain ⟨hdom, hlq, -⟩ := (hmem q).mp (List.mem_cons_of_mem _ hq)
      have hbelow := hhi.trans_le ((List.pairwise_cons.mp hpw).1 q hq)
      have hbounds := (hinv.leaf q hdom hlq).bounds item hitem
      exact ⟨⟨q, hdom, hlq, hitem⟩, (at_lt_at.mp (hbelow.trans_le hbounds.1)).le⟩
  · rintro ⟨⟨q, hdom, hlq, hitem⟩, hle⟩
    by_cases hqp : q = p
    · exact Or.inl ⟨hqp ▸ hitem, hle⟩
    · rcases hinv.apart p q hp hdom (hl.trans hlq.symm) (Ne.symm hqp) with hright | hleft
      · refine Or.inr ⟨q, ?_, hitem⟩
        have hq := (hmem q).mpr ⟨hdom, hlq, (hinv.lt p hp).le.trans hright⟩
        exact (List.mem_cons.mp hq).resolve_left hqp
      · have hbounds := (hinv.leaf q hdom hlq).bounds item hitem
        exact absurd (at_lt_at.mp (hbounds.2.trans_le (hleft.trans hlo))) (not_lt.mpr hle)

/-- In a well-formed tree a scan has the entries between its keys to give, in order. -/
theorem openScan_spec {header : IndexFileHeader} {t : TreeState κ} (hL : 2 ≤ header.leafMaxSize)
    (hcmp : RankedBy index.keyComparator rank) (hw : WellFormed header rank t.pages g)
    (leftKey rightKey : κ) :
    ∃ items, (∃ s, openScan index t leftKey rightKey = some (.ok s) ∧
        Left index t.pages rightKey s items) ∧
      items.Pairwise (fun a b => rank a.key < rank b.key) ∧
      ∀ item, item ∈ items ↔ Entry t.pages g item ∧ rank leftKey ≤ rank item.key ∧
        rank item.key ≤ rank rightKey := by
  rw [openScan]
  rcases hw.tree.root with ⟨hroot, hnone⟩ | ⟨hroot, -⟩
  · -- a tree without a root has no entries
    have hspec := findLeaf_of_no_root index (at_start t) hroot leftKey
    cases hrun : findLeaf index leftKey (start t true []) with
    | ok p s => exact (hspec.ok rfl hrun).elim
    | error e s =>
      obtain rfl := hspec.error rfl hrun
      refine ⟨[], ⟨_, rfl, .eof 0 false⟩, .nil, fun item => iff_of_false List.not_mem_nil ?_⟩
      rintro ⟨⟨p, hp, -⟩, -⟩
      exact hnone p hp
  · have hspec := findLeaf_spec (E := fun _ _ => False) hcmp hw.tree (at_start t) hroot leftKey
    cases hrun : findLeaf index leftKey (start t true []) with
    | error e s => exact (hspec.error rfl hrun).elim
    | ok p s =>
      obtain ⟨⟨hp, hl, hlo, hhi⟩, -⟩ := hspec.ok rfl hrun
      obtain ⟨ps', hchain, hpw, hmem⟩ := hw.tree.chain hp hl
      obtain ⟨ps, rfl⟩ := hchain.exists_cons (hw.tree.ne_invalid hp)
      have hleaves : ∀ q ∈ p :: ps, g.dom q ∧ g.lvl q = 0 := fun q hq =>
        ⟨((hmem q).mp hq).1, ((hmem q).mp hq).2.1⟩
      have hnodup : (p :: ps).Nodup := hpw.imp_of_mem fun {a b} ha _ hab heq => by
        subst heq
        exact absurd (hw.tree.lt a (hleaves a ha).1) (not_lt.mpr hab)
      have hlength := length_le_pageCount (fun q hq => hw.tree.inFile (hleaves q hq).1) hnodup
      rw [List.length_cons] at hlength
      set pos := (LeafIndexNodeHandler.lookup index.keyComparator (t.pages.node p) leftKey).1
        with hpos
      -- what is left are the items from the position of the left key on
      have hsorted : ((t.pages.node p).items.drop pos ++ t.pages.itemsOf ps).Pairwise
          fun a b => rank a.key < rank b.key :=
        (hw.tree.itemsOf_sorted hleaves hpw).sublist
          ((List.drop_sublist _ _).append (List.Sublist.refl _))
      refine ⟨itemsFrom index t.pages rightKey p ps pos, ?_,
        hsorted.sublist (List.takeWhile_sublist _), fun item => ?_⟩
      · by_cases hlt : pos < (t.pages.node p).size
        · exact ⟨_, if_pos hlt, left_startAt hchain (by omega) hlt⟩
        · have hle : (t.pages.node p).items.length ≤ pos := Nat.le_of_not_lt hlt
          cases hchain with
          | cons _ htail =>
            by_cases hnext : (t.pages.node p).nextBrother = bpInvalidPageNum
            · obtain rfl := htail.eq_nil hnext
              refine ⟨_, (if_neg hlt).trans (if_pos hnext), ?_⟩
              rw [itemsFrom, List.drop_eq_nil_of_le hle]
              exact .eof 0 false
            · obtain ⟨qs, rfl⟩ := htail.exists_cons hnext
              refine ⟨_, (if_neg hlt).trans (if_neg hnext), ?_⟩
              rw [itemsFrom_of_le hle]
              obtain ⟨hq, hlq⟩ := hleaves _ (List.mem_cons_of_mem _ List.mem_cons_self)
              have hne : (t.pages.node p).nextBrother ≠ p := fun heq =>
                (List.nodup_cons.mp hnodup).1 (by rw [heq]; exact List.mem_cons_self)
              have hitems := items_ne_nil_of_next hL hw hp hq hl hlq hne
              rw [List.length_cons] at hlength
              exact left_startAt htail (by omega) (List.length_pos_iff.mpr hitems)
      · rw [itemsFrom, mem_takeWhile_within hcmp hsorted,
          mem_append_itemsOf hcmp hw.tree hp hl hlo hhi hpw hmem, and_assoc]

end BplusTreeScanner

end ObHtap
