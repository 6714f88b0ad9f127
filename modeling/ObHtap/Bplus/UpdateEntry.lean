import ObHtap.Bplus.Unique

/-!
# Updating an index entry

`BplusTreeHandler::update_entry` inserts the new key and then deletes the old one.  The bytes of
a string behind its first zero are part of a key but not of its order, so that two keys can
compare equal and differ.
-/

namespace ObHtap

open ObHtap.Bound BplusTreeHandler BplusTreeMiniTransaction

/-- `BplusTreeHandler::update_entry`, with the outcomes of the page requests of the insertion and
of the deletion. -/
def BplusTreeHandler.updateEntry {υ : Type} [Inhabited υ] [DecidableEq υ]
    (index : BplusTreeHandler (Key υ)) (oldUserKey userKey : υ) (rid : RID) (recordNull : Bool)
    (t : TreeState (Key υ)) (outcomes outcomes' : List (Option RC)) :
    Option (Except RC Unit × TreeState (Key υ)) :=
  match insertEntry index userKey rid recordNull t outcomes with
  | some (.ok (), t') => deleteEntry index oldUserKey rid t' outcomes'
  | refused => refused

section Index

variable {attrs : List KeyAttr} {header : IndexFileHeader}
  {t t' : TreeState (Key (UserKey attrs))} {S S' : Finset (Key (UserKey attrs))}
  {userKey oldUserKey : UserKey attrs} {rid : RID} {isNull : Bool}

/-- The columns compare equal. -/
def SameColumns (a b : UserKey attrs) : Prop :=
  UserKey.compare attrs a b = 0

instance (a b : UserKey attrs) : Decidable (SameColumns a b) :=
  inferInstanceAs (Decidable (_ = _))

theorem sameColumns_iff {a b : UserKey attrs} :
    SameColumns a b ↔ UserKey.rank attrs a = UserKey.rank attrs b :=
  (UserKey.ranked attrs).zero_iff a b

theorem rank_eq_iff_sameColumns {key key' : Key (UserKey attrs)} :
    Key.rank (UserKey.rank attrs) key = Key.rank (UserKey.rank attrs) key' ↔
      SameColumns key.userKey key'.userKey ∧ key.rid = key'.rid := by
  rw [sameColumns_iff]
  constructor
  · intro h
    obtain ⟨hu, hr⟩ := Prod.mk.inj (toLex.injective h)
    exact ⟨hu, RID.rank_injective hr⟩
  · rintro ⟨hu, hr⟩
    rw [Key.rank, Key.rank, hu, hr]

/-- Of the entries whose columns compare equal to the user key, the one with the least record
identifier has the same bytes. -/
def LeastIsSame (S : Finset (Key (UserKey attrs))) (userKey : UserKey attrs) : Prop :=
  ∃ key ∈ S, key.userKey = userKey ∧
    ∀ key' ∈ S, SameColumns key'.userKey userKey → key.rid.rank ≤ key'.rid.rank

/-- No two entries have one record identifier. -/
def DistinctRids (S : Finset (Key (UserKey attrs))) : Prop :=
  ∀ key ∈ S, ∀ key' ∈ S, key.rid = key'.rid → key = key'

instance (S : Finset (Key (UserKey attrs))) : Decidable (DistinctRids S) :=
  inferInstanceAs (Decidable (∀ key ∈ S, ∀ key' ∈ S, _ → _))

/-- A key between two keys with equal columns has equal columns too. -/
theorem sameColumns_of_between {key key' : Key (UserKey attrs)}
    (h1 : Key.rank (UserKey.rank attrs) ⟨userKey, RID.min⟩ ≤ Key.rank (UserKey.rank attrs) key)
    (h2 : Key.rank (UserKey.rank attrs) key ≤ Key.rank (UserKey.rank attrs) key')
    (h : SameColumns key'.userKey userKey) : SameColumns key.userKey userKey := by
  rw [sameColumns_iff] at h ⊢
  rw [Key.rank, Key.rank, Prod.Lex.toLex_le_toLex] at h1 h2
  rw [h] at h2
  apply le_antisymm
  · exact h2.elim le_of_lt fun h => h.1.le
  · exact h1.elim le_of_lt fun h => h.1.le

theorem rid_le_of_rank_le {key key' : Key (UserKey attrs)}
    (h : Key.rank (UserKey.rank attrs) key ≤ Key.rank (UserKey.rank attrs) key')
    (hsame : SameColumns key.userKey key'.userKey) : key.rid.rank ≤ key'.rid.rank := by
  rw [Key.rank, Key.rank, Prod.Lex.toLex_le_toLex, sameColumns_iff.mp hsame] at h
  exact h.elim (fun h => absurd h (lt_irrefl _)) And.right

/-- A leaf that the descent for the probe ends in and that reaches up to it starts the entries
that are not below the probe. -/
theorem first_le_of_descent {g : Layout (UserKey.Rank attrs ×ₗ (ℕ ×ₗ ℕ))}
    (hw : WellFormed header (Key.rank (UserKey.rank attrs)) t.pages g) {p : PageNum}
    {first item : Item (Key (UserKey attrs))} (hp : g.dom p) (hl : g.lvl p = 0)
    (hlo : g.lo p ≤ at_ (Key.rank (UserKey.rank attrs) ⟨userKey, RID.min⟩))
    (hfirst : (t.pages.node p).items[(LeafIndexNodeHandler.lookup
      (ofAttrs attrs header).keyComparator (t.pages.node p) ⟨userKey, RID.min⟩).1]? = some first)
    (hitem : Entry t.pages g item)
    (hge : Key.rank (UserKey.rank attrs) ⟨userKey, RID.min⟩ ≤
      Key.rank (UserKey.rank attrs) item.key) :
    Key.rank (UserKey.rank attrs) first.key ≤ Key.rank (UserKey.rank attrs) item.key := by
  obtain ⟨q, hq, hlq, hmem⟩ := hitem
  have hleaf := hw.tree.leaf p hp hl
  have hleast := ((LeafIndexNodeHandler.lookup_spec ⟨userKey, RID.min⟩
    (ranked_ofAttrs attrs header) hleaf.sorted).least hleaf.sorted hfirst).2
  by_cases hqp : q = p
  · subst hqp
    exact hleast _ hmem hge
  · -- the entry is in a leaf further right
    rcases hw.tree.apart q p hq hp (hlq.trans hl.symm) hqp with hc | hc
    · have hlt := ((hw.tree.leaf q hq hlq).bounds _ hmem).2.trans_le (hc.trans hlo)
      exact absurd (at_lt_at.mp hlt) (not_lt.mpr hge)
    · have hlt := (hleaf.bounds _ (List.mem_of_getElem? hfirst)).2.trans_le
        (hc.trans ((hw.tree.leaf q hq hlq).bounds _ hmem).1)
      exact (at_lt_at.mp hlt).le

/-- What the search of the uniqueness check finds, in terms of the entries. -/
theorem probeFinds_iff_least {g : Layout (UserKey.Rank attrs ×ₗ (ℕ ×ₗ ℕ))}
    (hw : WellFormed header (Key.rank (UserKey.rank attrs)) t.pages g)
    (he : ∀ item, Entry t.pages g item ↔ item.key ∈ S ∧ item.value = .rid item.key.rid)
    (hrids : DistinctRids S) :
    ProbeFinds (ofAttrs attrs header) (UserKey.rank attrs) t.pages g userKey ↔
      LeafReaches (ofAttrs attrs header) t userKey ∧ LeastIsSame S userKey := by
  have hcmp := ranked_ofAttrs attrs header
  have hdescent := fun hroot => findLeaf_spec (E := fun _ _ => False) hcmp hw.tree (at_start t)
    hroot ⟨userKey, RID.min⟩
  have hentry : ∀ key ∈ S, Entry t.pages g ⟨key, .rid key.rid⟩ := fun key hkey =>
    (he _).mpr ⟨hkey, rfl⟩
  constructor
  · rintro ⟨p, first, hp, hl, hlo, hhi, hfirst, hu⟩
    have hmem := List.mem_of_getElem? hfirst
    have hS := ((he first).mp ⟨p, hp, hl, hmem⟩).1
    refine ⟨?_, first.key, hS, hu, fun key' hkey' hsame => ?_⟩
    · cases hrun : findLeaf (ofAttrs attrs header) ⟨userKey, RID.min⟩ (start t true []) with
      | error e s => exact ((hdescent (hw.tree.dom_root hp)).error rfl hrun).elim
      | ok q s =>
        obtain ⟨⟨hq, hlq, hloq, hhiq⟩, -⟩ := (hdescent (hw.tree.dom_root hp)).ok rfl hrun
        obtain rfl := hw.tree.eq_of_common hq hp (hlq.trans hl.symm) ⟨hloq, hhiq⟩ ⟨hlo, hhi⟩
        exact ⟨q, s, hrun, (List.getElem?_eq_some_iff.mp hfirst).1⟩
    · have hge : Key.rank (UserKey.rank attrs) ⟨userKey, RID.min⟩ ≤
          Key.rank (UserKey.rank attrs) key' := by
        rw [Key.rank, Key.rank, sameColumns_iff.mp hsame, Prod.Lex.toLex_le_toLex]
        exact Or.inr ⟨rfl, RID.min_le _⟩
      have hle := first_le_of_descent hw hp hl hlo hfirst (hentry key' hkey') hge
      apply rid_le_of_rank_le hle
      rw [hu, sameColumns_iff, sameColumns_iff.mp hsame]
  · rintro ⟨⟨p, s, hrun, hlt⟩, key, hkey, rfl, hleast⟩
    obtain ⟨q, hq, -, -⟩ := hentry key hkey
    obtain ⟨⟨hp, hl, hlo, hhi⟩, -⟩ := (hdescent (hw.tree.dom_root hq)).ok rfl hrun
    obtain ⟨first, hfirst⟩ : ∃ first, (t.pages.node p).items[(LeafIndexNodeHandler.lookup
        (ofAttrs attrs header).keyComparator (t.pages.node p) ⟨key.userKey, RID.min⟩).1]? =
        some first := ⟨_, List.getElem?_eq_getElem hlt⟩
    have hleaf := hw.tree.leaf p hp hl
    have hS := ((he first).mp ⟨p, hp, hl, List.mem_of_getElem? hfirst⟩).1
    have hge := ((LeafIndexNodeHandler.lookup_spec ⟨key.userKey, RID.min⟩ hcmp
      hleaf.sorted).least hleaf.sorted hfirst).1
    have hle := first_le_of_descent hw hp hl hlo hfirst (hentry key hkey)
      (Key.rank_min_le key.userKey key.rid)
    -- the first entry has equal columns, and no larger record identifier
    have hsame := sameColumns_of_between hge hle (sameColumns_iff.mpr rfl)
    have hrid : first.key.rid = key.rid :=
      RID.rank_injective (le_antisymm (rid_le_of_rank_le hle hsame) (hleast _ hS hsame))
    exact ⟨p, first, hp, hl, hlo, hhi, hfirst, congrArg Key.userKey (hrids _ hS _ hkey hrid)⟩

/-- The insertion is refused: an entry with this record identifier compares equal, or the
uniqueness check comes upon the same bytes. -/
def InsertRefused (header : IndexFileHeader) (t : TreeState (Key (UserKey attrs)))
    (S : Finset (Key (UserKey attrs))) (userKey : UserKey attrs) (rid : RID) (isNull : Bool) :
    Prop :=
  (∃ key ∈ S, SameColumns key.userKey userKey ∧ key.rid = rid) ∨
    header.unique = true ∧ isNull = false ∧
      LeafReaches (ofAttrs attrs header) t userKey ∧ LeastIsSame S userKey

theorem hasKey_iff_sameColumns {g : Layout (UserKey.Rank attrs ×ₗ (ℕ ×ₗ ℕ))}
    (he : ∀ item, Entry t.pages g item ↔ item.key ∈ S ∧ item.value = .rid item.key.rid) :
    HasKey (Key.rank (UserKey.rank attrs)) t.pages g ⟨userKey, rid⟩ ↔
      ∃ key ∈ S, SameColumns key.userKey userKey ∧ key.rid = rid := by
  constructor
  · rintro ⟨item, hitem, heq⟩
    exact ⟨item.key, ((he item).mp hitem).1, rank_eq_iff_sameColumns.mp heq⟩
  · rintro ⟨key, hkey, hsame⟩
    exact ⟨⟨key, .rid key.rid⟩, (he _).mpr ⟨hkey, rfl⟩, rank_eq_iff_sameColumns.mpr hsame⟩

theorem Holds.insertEntry (hL : 2 ≤ header.leafMaxSize) (hm : 3 ≤ header.internalMaxSize)
    (h : Holds header (Key.rank (UserKey.rank attrs)) t S) (hrids : DistinctRids S)
    (userKey : UserKey attrs) (rid : RID) (isNull : Bool) :
    (InsertRefused header t S userKey rid isNull ∧ ∃ rc t',
        insertEntry (ofAttrs attrs header) userKey rid isNull t [] = some (.error rc, t') ∧
        t'.pages = t.pages) ∨
      (¬ InsertRefused header t S userKey rid isNull ∧ ∃ t',
        insertEntry (ofAttrs attrs header) userKey rid isNull t [] = some (.ok (), t') ∧
        Holds header (Key.rank (UserKey.rank attrs)) t' (insert ⟨userKey, rid⟩ S)) := by
  obtain ⟨g, hw, he⟩ := h
  have hcmp := ranked_ofAttrs attrs header
  have hm2 : 2 ≤ header.internalMaxSize := Nat.le_of_succ_le hm
  rw [InsertRefused, ← hasKey_iff_sameColumns he, ← probeFinds_iff_least hw he hrids]
  cases hu : header.unique with
  | false =>
    simp only [Bool.false_eq_true, false_and, or_false]
    rcases insertEntry_spec userKey rid isNull hcmp hL hm2 hu hw with
      ⟨hkey, t', ht', hp⟩ | ⟨hkey, t', g', ht', hins, -⟩
    · exact Or.inl ⟨hkey, _, t', ht', hp⟩
    · exact Or.inr ⟨hkey, t', ht', g', hins.toWellFormed, entries_insert he hins⟩
  | true =>
    simp only [true_and]
    rcases insertEntry_unique_spec userKey rid isNull hcmp hL hm2 hu hw with
      ⟨hrej, rc, t', ht', hp⟩ | ⟨hrej, hkey, t', g', ht', hins, -⟩
    · exact Or.inl ⟨hrej.symm, rc, t', ht', hp⟩
    · refine Or.inr ⟨?_, t', ht', g', hins.toWellFormed, entries_insert he hins⟩
      exact fun hor => hor.elim hkey hrej

theorem Holds.insertEntry_ok (hL : 2 ≤ header.leafMaxSize) (hm : 3 ≤ header.internalMaxSize)
    (h : Holds header (Key.rank (UserKey.rank attrs)) t S) (hrids : DistinctRids S)
    (hcall : BplusTreeHandler.insertEntry (ofAttrs attrs header) userKey rid isNull t [] =
      some (.ok (), t')) :
    Holds header (Key.rank (UserKey.rank attrs)) t' (insert ⟨userKey, rid⟩ S) := by
  rcases h.insertEntry hL hm hrids userKey rid isNull with
    ⟨-, rc, t₁, ht₁, -⟩ | ⟨-, t₁, ht₁, h₁⟩
  · rw [ht₁] at hcall
    cases hcall
  · rw [ht₁] at hcall
    cases hcall
    exact h₁

theorem Holds.deleteEntry (hm : 3 ≤ header.internalMaxSize)
    (h : Holds header (Key.rank (UserKey.rank attrs)) t S) (hmem : ⟨userKey, rid⟩ ∈ S)
    (hS' : ∀ key, key ∈ S' ↔ key ∈ S ∧ ¬(SameColumns key.userKey userKey ∧ key.rid = rid)) :
    deleteEntry (ofAttrs attrs header) userKey rid t [] = none ∨
      ∃ t', deleteEntry (ofAttrs attrs header) userKey rid t [] = some (.ok (), t') ∧
        Holds header (Key.rank (UserKey.rank attrs)) t' S' := by
  obtain ⟨g, hw, he⟩ := h
  have hkey := (hasKey_iff_sameColumns he).mpr ⟨_, hmem, sameColumns_iff.mpr rfl, rfl⟩
  rcases deleteEntry_spec (A := True) userKey rid (ranked_ofAttrs attrs header) (Or.inl trivial)
    hm hw with ⟨hno, -⟩ | ⟨-, t', g', ht', hw', he'⟩ | ⟨-, hnone⟩
  · exact absurd hkey hno
  · refine Or.inr ⟨t', ht', g', hw', fun item => ?_⟩
    rw [he', he, hS', ne_eq, rank_eq_iff_sameColumns]
    exact and_right_comm
  · exact Or.inl hnone

end Index

end ObHtap
