import ObHtap.Bplus.Runs

/-!
# Unique indexes

Before a record without NULL enters a unique index, `try_insert_entry` looks for the first
entry that is not below the user key with the least record identifier, and compares the bytes
of the user keys.  It looks in the leaf that the descent ends in, and there only.
-/

namespace ObHtap

open ObHtap.Bound BplusTreeHandler BplusTreeMiniTransaction IndexNodeHandler

/-! ## The search for an entry with the user key -/

section Probe

variable {υ ρ : Type} [Inhabited υ] [DecidableEq υ] [LinearOrder ρ]
  {index : BplusTreeHandler (Key υ)} {rankUser : υ → ρ} {w : Pages (Key υ)}
  {g : Layout (ρ ×ₗ (ℕ ×ₗ ℕ))} {userKey : υ} {rid : RID} {isNull : Bool} {s₀ : Mtr (Key υ)}

/-- The search finds an entry with the user key: the leaf that is searched has one at the
position found. -/
def ProbeFinds (index : BplusTreeHandler (Key υ)) (rankUser : υ → ρ) (w : Pages (Key υ))
    (g : Layout (ρ ×ₗ (ℕ ×ₗ ℕ))) (userKey : υ) : Prop :=
  ∃ p first, g.dom p ∧ g.lvl p = 0 ∧ g.lo p ≤ at_ (Key.rank rankUser ⟨userKey, RID.min⟩) ∧
    at_ (Key.rank rankUser ⟨userKey, RID.min⟩) < g.hi p ∧
    (w.node p).items[(LeafIndexNodeHandler.lookup index.keyComparator (w.node p)
      ⟨userKey, RID.min⟩).1]? = some first ∧ first.key.userKey = userKey

/-- The pages are still those of `w`, and nothing has been logged. -/
def Untouched (w : Pages (Key υ)) (s : Mtr (Key υ)) : Prop := At w s ∧ s.entries = []

omit [Inhabited υ] in
theorem compareUserKey_spec {p frame : PageNum} {i : Nat} {item : Item (Key υ)} {φ : Prop}
    (hitem : (w.node p).items[i]? = some item) (hφ : φ ↔ item.key.userKey = userKey) :
    Triple (Untouched w) (tryInsertEntry.compareUserKey userKey p i frame)
      (fun _ s => ¬ φ ∧ Untouched w s)
      (fun e s => e = .rc .schemaIndexUnique ∧ φ ∧ Untouched w s) := by
  refine keyAt_of (fun _ hs => hs.1.1) hitem ?_
  refine Triple.bind (Q := fun _ => Untouched w) (Triple.modify fun _ hs => hs) fun _ => ?_
  refine Triple.ite (fun heq => ?_) fun hne => ?_
  · exact Triple.throw fun s hs => ⟨rfl, hφ.mpr heq, hs⟩
  · exact Triple.pure fun s hs => ⟨fun h => hne (hφ.mp h), hs⟩

omit [Inhabited υ] in
theorem tryInsertEntry_spec (hcmp : RankedBy index.keyComparator (Key.rank rankUser))
    (hL : 2 ≤ index.fileHeader.leafMaxSize)
    (hw : WellFormed index.fileHeader (Key.rank rankUser) w g) (hs₀ : At w s₀)
    (hentries : s₀.entries = []) (hroot : g.dom w.rootPage) :
    Triple (· = s₀) (tryInsertEntry index userKey)
      (fun _ s => ¬ ProbeFinds index rankUser w g userKey ∧ Untouched w s)
      (fun e s => e = .rc .schemaIndexUnique ∧ ProbeFinds index rankUser w g userKey ∧
        Untouched w s) := by
  refine (findLeaf_spec hcmp hw.tree hs₀ hroot _).bind fun p => Triple.of_and ?_
  rintro ⟨hp, hl, hlo, hhi⟩
  refine Triple.pre (H := Untouched w) ?_ fun s hs => hs ▸ ⟨hs₀, hentries⟩
  have hleaf := hw.tree.leaf p hp hl
  have hpos := LeafIndexNodeHandler.lookup_spec ⟨userKey, RID.min⟩ hcmp hleaf.sorted
  -- the leaf that is searched is the only one to look at
  have hfinds : ProbeFinds index rankUser w g userKey ↔ ∃ first,
      (w.node p).items[(LeafIndexNodeHandler.lookup index.keyComparator (w.node p)
        ⟨userKey, RID.min⟩).1]? = some first ∧ first.key.userKey = userKey := by
    constructor
    · rintro ⟨q, first, hq, hlq, hloq, hhiq, hrest⟩
      obtain rfl := hw.tree.eq_of_common hq hp (hlq.trans hl.symm) ⟨hloq, hhiq⟩ ⟨hlo, hhi⟩
      exact ⟨first, hrest⟩
    · rintro ⟨first, hrest⟩
      exact ⟨p, first, hp, hl, hlo, hhi, hrest⟩
  refine readNode_of (fun s hs => hs.1.1) <| Triple.ite (fun hlt => ?_) fun hge => ?_
  · have hitem := List.getElem?_eq_getElem (l := (w.node p).items) hlt
    refine compareUserKey_spec hitem (hfinds.trans ⟨?_, fun h => ⟨_, hitem, h⟩⟩)
    rintro ⟨first, hfirst, heq⟩
    rw [hitem] at hfirst
    cases hfirst
    exact heq
  · -- all items of the leaf are below the probe
    have hnot : ¬ ProbeFinds index rankUser w g userKey := by
      rw [hfinds]
      rintro ⟨first, hfirst, -⟩
      exact hge (List.getElem?_eq_some_iff.mp hfirst).1
    refine Triple.ite (fun _ => ?_) fun hnext => ?_
    · exact Triple.modify fun s hs => ⟨hnot, hs⟩
    · refine Triple.bind (Q := fun _ => Untouched w) (Triple.modify fun _ hs => hs) fun _ => ?_
      obtain ⟨hd, -, hnlo⟩ := (hw.tree.next p hp hl).resolve_left fun hc => hnext hc.2
      refine (getPage_of (fun s hs => hs.1) (hw.tree.inFile hd)).bind fun _ => ?_
      -- the leaf is not the root, so it has a first item
      have hne : p ≠ w.rootPage := by
        rintro rfl
        have hlt := hw.tree.lt _ hd
        rw [hnlo, (show g.hi w.rootPage = ⊤ from (hw.tree.root_bounds hp).2.1)] at hlt
        exact absurd hlt (not_lt.mpr le_top)
      have hfill := hw.balanced.filled p hp (Or.inl hne)
      rw [minFill, if_pos hl] at hfill
      obtain ⟨first, rest, hitems⟩ := List.exists_cons_of_ne_nil (l := (w.node p).items)
        fun hc => by rw [hc] at hfill; simp at hfill; omega
      refine compareUserKey_spec
        (show (w.node p).items[0]? = some first by rw [hitems]; rfl)
        (iff_of_false hnot fun heq => ?_)
      have hmem : first ∈ (w.node p).items.take (LeafIndexNodeHandler.lookup index.keyComparator
          (w.node p) ⟨userKey, RID.min⟩).1 := by
        rw [List.take_of_length_le (not_lt.mp hge), hitems]
        exact List.mem_cons_self
      have hbelow := hpos.below first hmem
      obtain ⟨⟨u, r⟩, value⟩ := first
      obtain rfl : u = userKey := heq
      exact absurd (Key.rank_min_le u r) (not_le.mpr hbelow)

/-- The entry is refused by the uniqueness check. -/
def Rejects (index : BplusTreeHandler (Key υ)) (rankUser : υ → ρ) (w : Pages (Key υ))
    (g : Layout (ρ ×ₗ (ℕ ×ₗ ℕ))) (userKey : υ) (isNull : Bool) : Prop :=
  isNull = false ∧ ProbeFinds index rankUser w g userKey

variable (userKey isNull) in
omit [Inhabited υ] in
theorem checkUnique_spec (hcmp : RankedBy index.keyComparator (Key.rank rankUser))
    (hL : 2 ≤ index.fileHeader.leafMaxSize) (hu : index.fileHeader.unique = true)
    (hw : WellFormed index.fileHeader (Key.rank rankUser) w g) (hs₀ : At w s₀)
    (hentries : s₀.entries = []) (hroot : g.dom w.rootPage) :
    Triple (· = s₀) (checkUnique index userKey isNull)
      (fun _ s => ¬ Rejects index rankUser w g userKey isNull ∧ Untouched w s)
      (fun e s => (∃ rc, e = .rc rc) ∧ Rejects index rankUser w g userKey isNull ∧
        Untouched w s) := by
  refine Triple.ite (fun hchk => ?_) fun hchk => ?_
  · refine (tryInsertEntry_spec hcmp hL hw hs₀ hentries hroot).conseq (fun _ => id) ?_ ?_
    · exact fun _ s hs => ⟨fun hr => hs.1 hr.2, hs.2⟩
    · exact fun e s hs => ⟨⟨_, hs.1⟩, ⟨hchk.2, hs.2.1⟩, hs.2.2⟩
  · exact Triple.pure fun s hs => ⟨fun hr => hchk ⟨hu, hr.1⟩, hs ▸ ⟨hs₀, hentries⟩⟩

omit [Inhabited υ] in
/-- The insertion of an entry that the check refuses splits nothing. -/
theorem splitsEvenly_of_rejects (hcmp : RankedBy index.keyComparator (Key.rank rankUser))
    (hL : 2 ≤ index.fileHeader.leafMaxSize) (hu : index.fileHeader.unique = true)
    (hw : WellFormed index.fileHeader (Key.rank rankUser) w g) (hs₀ : At w s₀)
    (hentries : s₀.entries = []) (hrej : Rejects index rankUser w g userKey isNull) :
    SplitsEvenly index userKey rid isNull s₀ := by
  intro hne s _ _ _ hrun
  rw [hs₀.1] at hne
  have hdom := hw.tree.root.elim (fun hc => absurd hc.1 hne) fun hc => hc.1
  exact absurd hrej ((checkUnique_spec userKey isNull hcmp hL hu hw hs₀ hentries hdom).ok rfl
    hrun).1

theorem insertEntryMtr_unique_spec (userKey : υ) (rid : RID) (isNull : Bool)
    (hcmp : RankedBy index.keyComparator (Key.rank rankUser))
    (hL : 2 ≤ index.fileHeader.leafMaxSize) (hm : 2 ≤ index.fileHeader.internalMaxSize)
    (hu : index.fileHeader.unique = true)
    (hw : WellFormed index.fileHeader (Key.rank rankUser) w g) (hs₀ : At w s₀)
    (hentries : s₀.entries = []) :
    Triple (· = s₀) (insertEntryMtr index userKey rid isNull)
      (fun _ s => ¬ Rejects index rankUser w g userKey isNull ∧
        ¬ HasKey (Key.rank rankUser) w g ⟨userKey, rid⟩ ∧ ∃ v' g', At v' s ∧
        Inserted index.fileHeader (Key.rank rankUser) w g ⟨⟨userKey, rid⟩, .rid rid⟩ v' g' ∧
        OccupiedWhen index.fileHeader w g v' g' (SplitsEvenly index userKey rid isNull s₀))
      (fun e s => (∃ rc, e = .rc rc) ∧ (Rejects index rankUser w g userKey isNull ∨
        HasKey (Key.rank rankUser) w g ⟨userKey, rid⟩) ∧ Untouched w s) := by
  refine readRootPage_of (v := w) (fun s hs => hs ▸ hs₀.1) <| Triple.ite (fun hroot => ?_)
    fun hroot => ?_
  · have hnone : ∀ x, ¬ g.dom x := fun x hx => hw.tree.ne_invalid (hw.tree.dom_root hx) hroot
    refine (createNewTree_spec hL hw hroot).conseq (fun s hs => hs ▸ hs₀) ?_
      fun _ _ => False.elim
    rintro _ s ⟨v', g', hs, hins, hocc⟩
    exact ⟨fun ⟨_, p, _, hp, _⟩ => hnone p hp, fun ⟨_, ⟨x, hx, _⟩, _⟩ => hnone x hx, v', g', hs,
      hins, fun _ => iff_of_true hocc (splitsEvenly_of_empty hs₀ hroot)⟩
  · have hdom := hw.tree.root.elim (fun hc => absurd hc.1 hroot) fun hc => hc.1
    have hcheck := checkUnique_spec userKey isNull hcmp hL hu hw hs₀ hentries hdom
    have hpassed : ¬ Rejects index rankUser w g userKey isNull →
        ∃ s, checkUnique index userKey isNull s₀ = .ok () s := fun hrej => by
      cases hrun : checkUnique index userKey isNull s₀ with
      | ok _ s => exact ⟨s, rfl⟩
      | error e s => exact absurd (hcheck.error rfl hrun).2.1 hrej
    refine (hcheck.conseq (fun _ => id) (fun _ _ => id) fun e s hs =>
      ⟨hs.1, Or.inl hs.2.1, hs.2.2⟩).bind fun _ => Triple.of_and fun hrej => ?_
    intro s₁ hs₁
    have hrest : Triple (· = s₁) (do
        let p ← findLeaf index ⟨userKey, rid⟩
        insertEntryIntoLeafNode index p ⟨userKey, rid⟩ rid)
        (fun _ s => ¬ HasKey (Key.rank rankUser) w g ⟨userKey, rid⟩ ∧ ∃ v' g', At v' s ∧
          Inserted index.fileHeader (Key.rank rankUser) w g ⟨⟨userKey, rid⟩, .rid rid⟩ v' g' ∧
          OccupiedWhen index.fileHeader w g v' g' (SplitsEvenly index userKey rid isNull s₀))
        (fun e s => e = .rc .recordDuplicateKey ∧
          HasKey (Key.rank rankUser) w g ⟨userKey, rid⟩ ∧ s = s₁) := by
      refine (findLeaf_spec hcmp hw.tree hs₁.1 hdom _).bind fun p => Triple.of_and ?_
      rintro ⟨hp, hl, hlo, hhi⟩
      refine (insertEntryIntoLeafNode_spec hcmp hL hm hw hs₁.1 hp hl hlo hhi).post ?_
      rintro _ s ⟨hnone, v', g', hs, hins, hocc⟩
      rw [splitsEvenly_iff hcmp hw.tree hs₀ (hpassed hrej) hp hl hlo hhi hnone] at hocc
      exact ⟨hnone, v', g', hs, hins, hocc⟩
    refine hrest.conseq (fun _ => id) ?_ ?_ s₁ rfl
    · exact fun _ s hs => ⟨hrej, hs⟩
    · rintro e s ⟨rfl, hkey, rfl⟩
      exact ⟨⟨_, rfl⟩, Or.inr hkey, hs₁⟩

theorem insertEntry_unique_spec {t : TreeState (Key υ)} (userKey : υ) (rid : RID) (isNull : Bool)
    (hcmp : RankedBy index.keyComparator (Key.rank rankUser))
    (hL : 2 ≤ index.fileHeader.leafMaxSize) (hm : 2 ≤ index.fileHeader.internalMaxSize)
    (hu : index.fileHeader.unique = true)
    (hw : WellFormed index.fileHeader (Key.rank rankUser) t.pages g) :
    ((Rejects index rankUser t.pages g userKey isNull ∨
        HasKey (Key.rank rankUser) t.pages g ⟨userKey, rid⟩) ∧ ∃ rc t',
        insertEntry index userKey rid isNull t [] = some (.error rc, t') ∧ t'.pages = t.pages) ∨
      (¬ Rejects index rankUser t.pages g userKey isNull ∧
        ¬ HasKey (Key.rank rankUser) t.pages g ⟨userKey, rid⟩ ∧ ∃ t' g',
        insertEntry index userKey rid isNull t [] = some (.ok (), t') ∧
        Inserted index.fileHeader (Key.rank rankUser) t.pages g ⟨⟨userKey, rid⟩, .rid rid⟩
          t'.pages g' ∧
        OccupiedWhen index.fileHeader t.pages g t'.pages g'
          (SplitsEvenly index userKey rid isNull (start t true []))) := by
  have hspec := insertEntryMtr_unique_spec userKey rid isNull
    hcmp hL hm hu hw (at_start t) rfl
  cases hrun : insertEntryMtr index userKey rid isNull (start t true []) with
  | ok a s =>
    obtain ⟨hrej, hkey, v', g', hs, hins, hocc⟩ := hspec.ok rfl hrun
    obtain ⟨t', ht', hp⟩ := run_ok hrun
    refine Or.inr ⟨hrej, hkey, t', g', ht', ?_⟩
    rw [hp, hs.1, Pages.release_eq_self hins.disposed]
    exact ⟨hins, hocc⟩
  | error e s =>
    obtain ⟨⟨rc, rfl⟩, hor, hs, hentries⟩ := hspec.error rfl hrun
    obtain ⟨t', ht', hp⟩ := run_refused (by rw [hs.1]; exact hw.disposed) hentries hrun
    exact Or.inl ⟨hor, rc, t', ht', hp.trans hs.1⟩

end Probe

/-! ## `BplusTreeIndex` -/

/-- What the index reads of a record: the indexed columns as they are stored, whether each of
them is NULL, and the record identifier. -/
structure IndexedRecord (attrs : List KeyAttr) where
  userKey : UserKey attrs
  nullFlags : List Bool
  rid : RID

/-- Some indexed column is NULL. -/
def IndexedRecord.isNull {attrs : List KeyAttr} (record : IndexedRecord attrs) : Bool :=
  record.nullFlags.any id

namespace BplusTreeIndex

variable {attrs : List KeyAttr} (index : BplusTreeHandler (Key (UserKey attrs)))

/-- `BplusTreeIndex::insert_entry`. -/
def insertEntry (record : IndexedRecord attrs) (t : TreeState (Key (UserKey attrs)))
    (outcomes : List (Option RC)) : Option (Except RC Unit × TreeState (Key (UserKey attrs))) :=
  BplusTreeHandler.insertEntry index record.userKey record.rid record.isNull t outcomes

/-- `BplusTreeIndex::delete_entry`. -/
def deleteEntry (record : IndexedRecord attrs) (t : TreeState (Key (UserKey attrs)))
    (outcomes : List (Option RC)) : Option (Except RC Unit × TreeState (Key (UserKey attrs))) :=
  BplusTreeHandler.deleteEntry index record.userKey record.rid t outcomes

/-- The header of an index with the capacities of its pages. -/
def fileHeader (attrs : List KeyAttr) (unique : Bool) : IndexFileHeader where
  internalMaxSize := calcInternalPageCapacity (UserKey.totalLength attrs)
  leafMaxSize := calcLeafPageCapacity (UserKey.totalLength attrs)
  unique := unique

end BplusTreeIndex

/-- The states that calls on records lead to from a new index, with the records whose entries
the index holds.  A record that is inserted has a record identifier of its own. -/
inductive IndexRun (attrs : List KeyAttr) (header : IndexFileHeader) :
    TreeState (Key (UserKey attrs)) → List (IndexedRecord attrs) → Prop
  | create : IndexRun attrs header TreeState.create []
  | inserted {t t' live record} : IndexRun attrs header t live →
      (∀ r ∈ live, r.rid ≠ record.rid) → record.userKey.Padded →
      BplusTreeIndex.insertEntry (ofAttrs attrs header) record t [] = some (.ok (), t') →
      IndexRun attrs header t' (record :: live)
  | notInserted {t t' live record rc} : IndexRun attrs header t live →
      (∀ r ∈ live, r.rid ≠ record.rid) → record.userKey.Padded →
      BplusTreeIndex.insertEntry (ofAttrs attrs header) record t [] = some (.error rc, t') →
      IndexRun attrs header t' live
  | deleted {t t' live record} : IndexRun attrs header t live → record.userKey.Padded →
      BplusTreeIndex.deleteEntry (ofAttrs attrs header) record t [] = some (.ok (), t') →
      IndexRun attrs header t'
        (live.filter fun r => ¬ (r.userKey = record.userKey ∧ r.rid = record.rid))
  | notDeleted {t t' live record rc} : IndexRun attrs header t live → record.userKey.Padded →
      BplusTreeIndex.deleteEntry (ofAttrs attrs header) record t [] = some (.error rc, t') →
      IndexRun attrs header t' live

section Index

variable {attrs : List KeyAttr} {header : IndexFileHeader}
  {t t' : TreeState (Key (UserKey attrs))} {live : List (IndexedRecord attrs)}
  {record : IndexedRecord attrs}

/-- The tree holds the entries of the live records. -/
structure HoldsRecords (header : IndexFileHeader) (t : TreeState (Key (UserKey attrs)))
    (live : List (IndexedRecord attrs)) (g : Layout (UserKey.Rank attrs ×ₗ (ℕ ×ₗ ℕ))) : Prop where
  wellFormed : WellFormed header (Key.rank (UserKey.rank attrs)) t.pages g
  entries : ∀ item, Entry t.pages g item ↔
    ∃ r ∈ live, item = ⟨⟨r.userKey, r.rid⟩, .rid r.rid⟩
  padded : ∀ r ∈ live, r.userKey.Padded

theorem rank_eq_iff (key key' : Key (UserKey attrs)) (h : key.userKey.Padded)
    (h' : key'.userKey.Padded) :
    Key.rank (UserKey.rank attrs) key = Key.rank (UserKey.rank attrs) key' ↔
      key.userKey = key'.userKey ∧ key.rid = key'.rid := by
  constructor
  · intro heq
    obtain ⟨hu, hr⟩ := Prod.mk.inj (toLex.injective heq)
    exact ⟨UserKey.eq_of_rank_eq attrs h h' hu, RID.rank_injective hr⟩
  · rintro ⟨hu, hr⟩
    rw [Key.rank, Key.rank, hu, hr]

theorem HoldsRecords.hasKey_iff {g : Layout (UserKey.Rank attrs ×ₗ (ℕ ×ₗ ℕ))}
    (h : HoldsRecords header t live g) (hpad : record.userKey.Padded) :
    HasKey (Key.rank (UserKey.rank attrs)) t.pages g ⟨record.userKey, record.rid⟩ ↔
      ∃ r ∈ live, r.userKey = record.userKey ∧ r.rid = record.rid := by
  constructor
  · rintro ⟨item, hitem, hrank⟩
    obtain ⟨r, hr, rfl⟩ := (h.entries item).mp hitem
    exact ⟨r, hr, (rank_eq_iff _ _ (h.padded r hr) hpad).mp hrank⟩
  · rintro ⟨r, hr, hu, hid⟩
    exact ⟨_, (h.entries _).mpr ⟨r, hr, rfl⟩,
      (rank_eq_iff ⟨r.userKey, r.rid⟩ _ (h.padded r hr) hpad).mpr ⟨hu, hid⟩⟩

theorem IndexRun.holdsRecords (hL : 2 ≤ header.leafMaxSize) (hm : 3 ≤ header.internalMaxSize)
    (hu : header.unique = true) (hrun : IndexRun attrs header t live) :
    ∃ g, HoldsRecords header t live g := by
  have hcmp := ranked_ofAttrs attrs header
  induction hrun with
  | create => exact ⟨Layout.empty, wellFormed_create _ _, by simp, by simp⟩
  | @inserted t t' live record _ hfresh hpad hcall ih =>
    obtain ⟨g, h⟩ := ih
    rcases insertEntry_unique_spec record.userKey record.rid record.isNull hcmp hL (Nat.le_of_succ_le hm)
      hu h.wellFormed with
      ⟨-, rc, t₁, h₁, -⟩ | ⟨-, -, t₁, g', h₁, hins, -⟩
    · rw [BplusTreeIndex.insertEntry, h₁] at hcall
      cases hcall
    · rw [BplusTreeIndex.insertEntry, h₁] at hcall
      cases hcall
      refine ⟨g', hins.toWellFormed, fun item => ?_, ?_⟩
      · rw [hins.entries, h.entries]
        simp only [List.mem_cons, exists_eq_or_imp]
        exact or_comm
      · simpa using ⟨hpad, h.padded⟩
  | @notInserted t t' live record rc _ hfresh hpad hcall ih =>
    obtain ⟨g, h⟩ := ih
    rcases insertEntry_unique_spec record.userKey record.rid record.isNull hcmp hL (Nat.le_of_succ_le hm)
      hu h.wellFormed with
      ⟨-, rc, t₁, h₁, hp⟩ | ⟨-, -, t₁, g', h₁, hins, -⟩
    · rw [BplusTreeIndex.insertEntry, h₁] at hcall
      cases hcall
      exact ⟨g, hp ▸ h.wellFormed, hp ▸ h.entries, h.padded⟩
    · rw [BplusTreeIndex.insertEntry, h₁] at hcall
      cases hcall
  | @deleted t t' live record _ hpad hcall ih =>
    obtain ⟨g, h⟩ := ih
    rcases deleteEntry_spec (A := True) record.userKey record.rid hcmp
      (Or.inl trivial) hm h.wellFormed with
      ⟨-, t₁, h₁, -⟩ | ⟨-, t₁, g', h₁, hw', he'⟩ | ⟨-, h₁⟩
    · rw [BplusTreeIndex.deleteEntry, h₁] at hcall
      cases hcall
    · rw [BplusTreeIndex.deleteEntry, h₁] at hcall
      cases hcall
      refine ⟨g', hw', fun item => ?_, fun r hr => h.padded r (List.mem_of_mem_filter hr)⟩
      rw [he', h.entries]
      simp only [List.mem_filter, decide_eq_true_eq]
      constructor
      · rintro ⟨⟨r, hr, rfl⟩, hne⟩
        exact ⟨r, ⟨hr, fun hc => hne ((rank_eq_iff _ _ (h.padded r hr) hpad).mpr hc)⟩, rfl⟩
      · rintro ⟨r, ⟨hr, hne⟩, rfl⟩
        exact ⟨⟨r, hr, rfl⟩, fun hc => hne ((rank_eq_iff _ _ (h.padded r hr) hpad).mp hc)⟩
    · rw [BplusTreeIndex.deleteEntry, h₁] at hcall
      cases hcall
  | @notDeleted t t' live record rc _ hpad hcall ih =>
    obtain ⟨g, h⟩ := ih
    rcases deleteEntry_spec (A := True) record.userKey record.rid hcmp
      (Or.inl trivial) hm h.wellFormed with
      ⟨-, t₁, h₁, hp⟩ | ⟨-, t₁, g', h₁, hw', he'⟩ | ⟨-, h₁⟩
    · rw [BplusTreeIndex.deleteEntry, h₁] at hcall
      cases hcall
      exact ⟨g, hp ▸ h.wellFormed, hp ▸ h.entries, h.padded⟩
    · rw [BplusTreeIndex.deleteEntry, h₁] at hcall
      cases hcall
    · rw [BplusTreeIndex.deleteEntry, h₁] at hcall
      cases hcall

/-- The leaf that the descent for the user key with the least record identifier ends in has an
entry that is not below. -/
def LeafReaches (index : BplusTreeHandler (Key (UserKey attrs)))
    (t : TreeState (Key (UserKey attrs))) (userKey : UserKey attrs) : Prop :=
  ∃ p s, findLeaf index ⟨userKey, RID.min⟩ (start t true []) = .ok p s ∧
    (LeafIndexNodeHandler.lookup index.keyComparator (t.pages.node p) ⟨userKey, RID.min⟩).1 <
      (t.pages.node p).size

/-- Some live record without NULL has the same columns. -/
def HasTwin (live : List (IndexedRecord attrs)) (record : IndexedRecord attrs) : Prop :=
  ∃ r ∈ live, r.isNull = false ∧ r.userKey = record.userKey

/-- Some live record with a NULL has the same bytes in its columns. -/
def HasNullTwin (live : List (IndexedRecord attrs)) (record : IndexedRecord attrs) : Prop :=
  ∃ r ∈ live, r.isNull = true ∧ r.userKey = record.userKey

theorem hasTwin_or_null : (∃ r ∈ live, r.userKey = record.userKey) ↔
    HasTwin live record ∨ HasNullTwin live record := by
  constructor
  · rintro ⟨r, hr, hu⟩
    cases hn : r.isNull with
    | false => exact Or.inl ⟨r, hr, hn, hu⟩
    | true => exact Or.inr ⟨r, hr, hn, hu⟩
  · rintro (⟨r, hr, -, hu⟩ | ⟨r, hr, -, hu⟩) <;> exact ⟨r, hr, hu⟩

/-- A key between two keys with one user key has this user key too. -/
theorem userKey_eq_of_between {k : UserKey attrs} (rid : RID) {key : Key (UserKey attrs)}
    (hk : k.Padded) (hkey : key.userKey.Padded)
    (h1 : Key.rank (UserKey.rank attrs) ⟨k, RID.min⟩ ≤ Key.rank (UserKey.rank attrs) key)
    (h2 : Key.rank (UserKey.rank attrs) key ≤ Key.rank (UserKey.rank attrs) ⟨k, rid⟩) :
    key.userKey = k := by
  rw [Key.rank, Key.rank, Prod.Lex.toLex_le_toLex] at h1 h2
  refine UserKey.eq_of_rank_eq attrs hkey hk (le_antisymm ?_ ?_)
  · exact h2.elim le_of_lt fun h => h.1.le
  · exact h1.elim le_of_lt fun h => h.1.le

/-- The search finds an entry exactly when there is one and the leaf reaches up to it. -/
theorem HoldsRecords.probeFinds_iff {g : Layout (UserKey.Rank attrs ×ₗ (ℕ ×ₗ ℕ))}
    (h : HoldsRecords header t live g) (hpad : record.userKey.Padded) :
    ProbeFinds (ofAttrs attrs header) (UserKey.rank attrs) t.pages g record.userKey ↔
      LeafReaches (ofAttrs attrs header) t record.userKey ∧
        ∃ r ∈ live, r.userKey = record.userKey := by
  have hcmp := ranked_ofAttrs attrs header
  have hw := h.wellFormed
  have hdescent := fun hroot => findLeaf_spec (E := fun _ _ => False) hcmp hw.tree (at_start t) hroot ⟨record.userKey, RID.min⟩
  constructor
  · rintro ⟨p, first, hp, hl, hlo, hhi, hfirst, hu⟩
    have hmem := List.mem_of_getElem? hfirst
    refine ⟨?_, ?_⟩
    · cases hrun : findLeaf (ofAttrs attrs header) ⟨record.userKey, RID.min⟩ (start t true []) with
      | error e s => exact ((hdescent (hw.tree.dom_root hp)).error rfl hrun).elim
      | ok q s =>
        obtain ⟨⟨hq, hlq, hloq, hhiq⟩, -⟩ := (hdescent (hw.tree.dom_root hp)).ok rfl hrun
        obtain rfl := hw.tree.eq_of_common hq hp (hlq.trans hl.symm) ⟨hloq, hhiq⟩ ⟨hlo, hhi⟩
        exact ⟨q, s, hrun, (List.getElem?_eq_some_iff.mp hfirst).1⟩
    · obtain ⟨r, hr, rfl⟩ := (h.entries first).mp ⟨p, hp, hl, hmem⟩
      exact ⟨r, hr, hu⟩
  · rintro ⟨⟨p, s, hrun, hlt⟩, r, hr, hu⟩
    obtain ⟨q, hq, hlq, hitem⟩ := (h.entries ⟨⟨r.userKey, r.rid⟩, .rid r.rid⟩).mpr ⟨r, hr, rfl⟩
    obtain ⟨⟨hp, hl, hlo, hhi⟩, -⟩ := (hdescent (hw.tree.dom_root hq)).ok rfl hrun
    have hleaf := hw.tree.leaf p hp hl
    obtain ⟨first, hfirst⟩ : ∃ first, (t.pages.node p).items[(LeafIndexNodeHandler.lookup
        (ofAttrs attrs header).keyComparator (t.pages.node p) ⟨record.userKey, RID.min⟩).1]? =
        some first := ⟨_, List.getElem?_eq_getElem hlt⟩
    refine ⟨p, first, hp, hl, hlo, hhi, hfirst, ?_⟩
    obtain ⟨hle, hleast⟩ := (LeafIndexNodeHandler.lookup_spec ⟨record.userKey, RID.min⟩
      hcmp hleaf.sorted).least hleaf.sorted hfirst
    have hmin : Key.rank (UserKey.rank attrs) ⟨record.userKey, RID.min⟩ ≤
        Key.rank (UserKey.rank attrs) ⟨record.userKey, r.rid⟩ := Key.rank_min_le _ _
    have hmem := List.mem_of_getElem? hfirst
    obtain ⟨r₁, hr₁, heq⟩ := (h.entries _).mp ⟨p, hp, hl, hmem⟩
    refine userKey_eq_of_between r.rid hpad (heq ▸ h.padded r₁ hr₁) hle ?_
    rw [hu] at hitem
    by_cases hqp : q = p
    · subst hqp
      exact hleast _ hitem hmin
    · -- the entry is in a leaf further right
      rcases hw.tree.apart q p hq hp (hlq.trans hl.symm) hqp with hc | hc
      · have := ((hw.tree.leaf q hq hlq).bounds _ hitem).2.trans_le (hc.trans hlo)
        exact absurd (at_lt_at.mp this) (not_lt.mpr hmin)
      · have := (hleaf.bounds _ hmem).2.trans_le
          (hc.trans ((hw.tree.leaf q hq hlq).bounds _ hitem).1)
        exact (at_lt_at.mp this).le

/-- What a unique index promises for an insertion: it is refused exactly when there is a twin
without NULL, and then the tree stays as it is. -/
structure RejectsDuplicates (live : List (IndexedRecord attrs)) (record : IndexedRecord attrs)
    (t : TreeState (Key (UserKey attrs))) (result : Except RC Unit)
    (t' : TreeState (Key (UserKey attrs))) : Prop where
  rejected_iff : record.isNull = false → ((∃ rc, result = .error rc) ↔ HasTwin live record)
  null_accepted : record.isNull = true → result = .ok ()
  unchanged : (∃ rc, result = .error rc) → t'.pages = t.pages

/-- In every state of every run, the next insertion keeps the promise of a unique index exactly
when the leaf searched reaches up to the twin, if there is one, and does not come upon a record
with NULL instead. -/
theorem insertEntry_rejectsDuplicates_iff (attrs : List KeyAttr) (header : IndexFileHeader)
    (hL : 2 ≤ header.leafMaxSize) (hm : 3 ≤ header.internalMaxSize) (hu : header.unique = true)
    (t : TreeState (Key (UserKey attrs))) (live : List (IndexedRecord attrs))
    (hrun : IndexRun attrs header t live) (record : IndexedRecord attrs)
    (hfresh : ∀ r ∈ live, r.rid ≠ record.rid) (hpad : record.userKey.Padded) :
    ∃ result t', BplusTreeIndex.insertEntry (ofAttrs attrs header) record t [] =
        some (result, t') ∧
      (RejectsDuplicates live record t result t' ↔
        (record.isNull = false →
          (HasTwin live record → LeafReaches (ofAttrs attrs header) t record.userKey) ∧
          (HasNullTwin live record → LeafReaches (ofAttrs attrs header) t record.userKey →
            HasTwin live record))) := by
  obtain ⟨g, h⟩ := hrun.holdsRecords hL hm hu
  have hfinds := h.probeFinds_iff hpad
  rw [hasTwin_or_null] at hfinds
  have hnokey : ¬ HasKey (Key.rank (UserKey.rank attrs)) t.pages g
      ⟨record.userKey, record.rid⟩ := by
    rw [h.hasKey_iff hpad]
    exact fun ⟨r, hr, _, hid⟩ => hfresh r hr hid
  rcases insertEntry_unique_spec record.userKey record.rid record.isNull
    (ranked_ofAttrs attrs header) hL (Nat.le_of_succ_le hm) hu
    h.wellFormed with ⟨hrej, rc, t₁, h₁, hp⟩ | ⟨hrej, -, t₁, g', h₁, hins, -⟩
  · have hrej := hrej.resolve_right hnokey
    rw [Rejects, hfinds] at hrej
    obtain ⟨hnull, hreach, htwin⟩ := hrej
    refine ⟨.error rc, t₁, h₁, ?_⟩
    constructor
    · intro hr _
      have := (hr.rejected_iff hnull).mp ⟨rc, rfl⟩
      exact ⟨fun _ => hreach, fun _ _ => this⟩
    · intro hc
      refine ⟨fun _ => iff_of_true ⟨rc, rfl⟩ ?_, by simp [hnull], fun _ => hp⟩
      exact htwin.elim id fun hn => (hc hnull).2 hn hreach
  · rw [Rejects, hfinds] at hrej
    refine ⟨.ok (), t₁, h₁, ?_⟩
    constructor
    · intro hr hnull
      have hnone : ¬ HasTwin live record := fun hc => by
        obtain ⟨rc, hrc⟩ := (hr.rejected_iff hnull).mpr hc
        cases hrc
      refine ⟨fun hc => absurd hc hnone, fun hn hreach => ?_⟩
      exact absurd ⟨hnull, hreach, Or.inr hn⟩ hrej
    · intro hc
      refine ⟨fun hnull => iff_of_false (by simp) fun htwin => ?_, fun _ => rfl, by simp⟩
      exact hrej ⟨hnull, (hc hnull).1 htwin, Or.inl htwin⟩

/-! ### A NULL with the bytes of a number -/

/-- Inserts records that are all accepted. -/
def insertRecords (index : BplusTreeHandler (Key (UserKey attrs))) :
    List (IndexedRecord attrs) → TreeState (Key (UserKey attrs)) →
      Option (TreeState (Key (UserKey attrs)))
  | [], t => some t
  | record :: records, t =>
    match BplusTreeIndex.insertEntry index record t [] with
    | some (.ok (), t') => insertRecords index records t'
    | _ => none

theorem insertRecords_cons {records : List (IndexedRecord attrs)}
    {index : BplusTreeHandler (Key (UserKey attrs))}
    (h : insertRecords index (record :: records) t = some t') :
    ∃ t₁, BplusTreeIndex.insertEntry index record t [] = some (.ok (), t₁) ∧
      insertRecords index records t₁ = some t' := by
  rw [insertRecords] at h
  split at h
  · exact ⟨_, ‹_›, h⟩
  · cases h

theorem halves_apart : ∀ v1 ∈ [(0x3f000000 : Int32), 0x3f800000],
    ∀ v2 ∈ [(0x3f000000 : Int32), 0x3f800000], compareFloatBits v1 v2 = 0 → v1 = v2 := by
  simp only [List.mem_cons, List.not_mem_nil, or_false, forall_eq_or_imp, forall_eq]
  decide +kernel

/-- `0.5` and `1`. -/
def halves : FloatValues where
  values := [0x3f000000, 0x3f800000]
  nonempty := List.cons_ne_nil _ _
  apart := halves_apart

/-- A record of an integer, which may be NULL, and the float `1`. -/
def halvesRecord (n : Int) (isNull : Bool) (slot : Nat) : IndexedRecord [.ints, .floats halves] where
  userKey := (n, ⟨0x3f800000, List.mem_cons_of_mem _ List.mem_cons_self⟩, ())
  nullFlags := [isNull, false]
  rid := ⟨1, slot⟩

theorem halvesRecord_padded (n : Int) (isNull : Bool) (slot : Nat) :
    (halvesRecord n isNull slot).userKey.Padded :=
  ⟨trivial, trivial, trivial⟩

/-- The second record has NULL in the first column, which is stored as the largest integer.  The
third has that integer there. -/
theorem insertEntry_rejectsDuplicates_iff_null :
    ∃ t live result t',
      IndexRun [.ints, .floats halves] (BplusTreeIndex.fileHeader [.ints, .floats halves] true) t
        live ∧ HasNullTwin live (halvesRecord 2147483647 false 2) ∧
      BplusTreeIndex.insertEntry
        (ofAttrs _ (BplusTreeIndex.fileHeader [.ints, .floats halves] true))
        (halvesRecord 2147483647 false 2) t [] = some (result, t') ∧
      (RejectsDuplicates live (halvesRecord 2147483647 false 2) t result t' ↔
        ((halvesRecord 2147483647 false 2).isNull = false →
          (HasTwin live (halvesRecord 2147483647 false 2) →
            LeafReaches (ofAttrs _ (BplusTreeIndex.fileHeader [.ints, .floats halves] true)) t
              (halvesRecord 2147483647 false 2).userKey) ∧
          (HasNullTwin live (halvesRecord 2147483647 false 2) →
            LeafReaches (ofAttrs _ (BplusTreeIndex.fileHeader [.ints, .floats halves] true)) t
              (halvesRecord 2147483647 false 2).userKey →
            HasTwin live (halvesRecord 2147483647 false 2)))) := by
  have hsome : (insertRecords (ofAttrs _ (BplusTreeIndex.fileHeader [.ints, .floats halves] true))
      [halvesRecord 1 false 0, halvesRecord 2147483647 true 1] TreeState.create).isSome = true := by
    decide +kernel
  obtain ⟨t₂, h⟩ := Option.isSome_iff_exists.mp hsome
  obtain ⟨t₁, h₁, h⟩ := insertRecords_cons h
  obtain ⟨t, h₂, -⟩ := insertRecords_cons h
  have r₁ := IndexRun.create.inserted (by simp) (halvesRecord_padded _ _ _) h₁
  have r₂ := r₁.inserted (by simp [halvesRecord]) (halvesRecord_padded _ _ _) h₂
  obtain ⟨result, t', hcall, hiff⟩ := insertEntry_rejectsDuplicates_iff _ _ (by decide) (by decide)
    rfl t _ r₂ (halvesRecord 2147483647 false 2) (by simp [halvesRecord])
    (halvesRecord_padded _ _ _)
  exact ⟨t, _, result, t', r₂, ⟨_, List.mem_cons_self, rfl, rfl⟩, hcall, hiff⟩

/-! ### A duplicate right after a split -/

/-- A record with a string of one letter in a column of 8000 bytes; a leaf holds four. -/
def letterRecord (letter : UInt8) (slot : Nat) : IndexedRecord [.chars 8000] where
  userKey := (⟨letter :: List.replicate 7999 0, by rw [List.length_cons, List.length_replicate]⟩, ())
  nullFlags := [false]
  rid := ⟨1, slot⟩

@[simp] theorem letterRecord_rid (letter : UInt8) (slot : Nat) :
    (letterRecord letter slot).rid = ⟨1, slot⟩ := rfl

theorem letterRecord_padded {letter : UInt8} (hletter : letter ≠ 0) (slot : Nat) :
    (letterRecord letter slot).userKey.Padded :=
  ⟨⟨[letter], 7999, by simpa using hletter.symm, rfl⟩, trivial⟩

/-- The fifth record has split the leaf before `c`.  Another `c` is accepted: the search ends in
the left half, which has no entry that is not below. -/
theorem duplicate_accepted_after_split :
    ∃ t live t', IndexRun [.chars 8000] (BplusTreeIndex.fileHeader [.chars 8000] true) t live ∧
      BplusTreeIndex.insertEntry (ofAttrs _ (BplusTreeIndex.fileHeader [.chars 8000] true))
        (letterRecord 99 5) t [] = some (.ok (), t') ∧
      (∀ r ∈ live, r.rid ≠ (letterRecord 99 5).rid) ∧
      (letterRecord 99 5).isNull = false ∧ HasTwin live (letterRecord 99 5) := by
  have hsome : (insertRecords (ofAttrs _ (BplusTreeIndex.fileHeader [.chars 8000] true))
      [letterRecord 97 0, letterRecord 98 1, letterRecord 99 2, letterRecord 100 3,
        letterRecord 101 4, letterRecord 99 5] TreeState.create).isSome = true := by
    decide +kernel
  obtain ⟨t₆, h⟩ := Option.isSome_iff_exists.mp hsome
  obtain ⟨t₁, h₁, h⟩ := insertRecords_cons h
  obtain ⟨t₂, h₂, h⟩ := insertRecords_cons h
  obtain ⟨t₃, h₃, h⟩ := insertRecords_cons h
  obtain ⟨t₄, h₄, h⟩ := insertRecords_cons h
  obtain ⟨t₅, h₅, h⟩ := insertRecords_cons h
  obtain ⟨t', h₆, -⟩ := insertRecords_cons h
  have r₁ := IndexRun.create.inserted (by simp) (letterRecord_padded (by decide) _) h₁
  have r₂ := r₁.inserted (by simp) (letterRecord_padded (by decide) _) h₂
  have r₃ := r₂.inserted (by simp) (letterRecord_padded (by decide) _) h₃
  have r₄ := r₃.inserted (by simp) (letterRecord_padded (by decide) _) h₄
  have r₅ := r₄.inserted (by simp) (letterRecord_padded (by decide) _) h₅
  exact ⟨t₅, _, t', r₅, h₆, by simp, rfl, letterRecord 99 2, by simp, rfl, rfl⟩

end Index

end ObHtap
