import ObHtap.Bplus.Operations
import ObHtap.Bplus.Valid

/-!
# Runs of the index

Sequences of calls from a new index.  As long as the buffer pool serves every page request, a
run keeps the tree valid, and the index behaves as the finite set of its entries.
-/

namespace ObHtap

open ObHtap.Bound BplusTreeHandler BplusTreeMiniTransaction

/-! ## Calls -/

/-- An operation with its arguments. -/
inductive Operation (υ : Type) where
  | insert (userKey : υ) (rid : RID) (isNull : Bool)
  | delete (userKey : υ) (rid : RID)

/-- An operation with the outcomes of its page requests. -/
structure Call (υ : Type) where
  operation : Operation υ
  outcomes : List (Option RC)

/-- The buffer pool serves every page request of the call. -/
def Call.Served {υ : Type} (call : Call υ) : Prop := call.outcomes = []

section Calls

variable {υ : Type} [Inhabited υ] [DecidableEq υ]

namespace BplusTreeHandler

/-- One call. -/
def call (index : BplusTreeHandler (Key υ)) (c : Call υ) (t : TreeState (Key υ)) :
    Option (Except RC Unit × TreeState (Key υ)) :=
  match c.operation with
  | .insert userKey rid isNull => insertEntry index userKey rid isNull t c.outcomes
  | .delete userKey rid => deleteEntry index userKey rid t c.outcomes

/-- One call after another: their return codes and the state they end in, or nothing when the
process has ended. -/
def runCalls (index : BplusTreeHandler (Key υ)) :
    List (Call υ) → TreeState (Key υ) → Option (List (Except RC Unit) × TreeState (Key υ))
  | [], t => some ([], t)
  | c :: calls, t =>
    match index.call c t with
    | none => none
    | some (result, t') =>
      match runCalls index calls t' with
      | none => none
      | some (results, t'') => some (result :: results, t'')

/-- The handler of an index over the columns `attrs`. -/
def ofAttrs (attrs : List KeyAttr) (header : IndexFileHeader) :
    BplusTreeHandler (Key (UserKey attrs)) :=
  ⟨header, Key.compare (UserKey.compare attrs)⟩

theorem ranked_ofAttrs (attrs : List KeyAttr) (header : IndexFileHeader) :
    RankedBy (ofAttrs attrs header).keyComparator (Key.rank (UserKey.rank attrs)) :=
  Key.ranked (UserKey.ranked attrs)

end BplusTreeHandler

/-- Something that every served call keeps, whatever it returns, holds after every run. -/
theorem runCalls_induction {index : BplusTreeHandler (Key υ)} {I : TreeState (Key υ) → Prop}
    (hstep : ∀ c t result t', c.Served → I t → index.call c t = some (result, t') → I t')
    (calls : List (Call υ)) (hserved : ∀ c ∈ calls, c.Served) {t t' : TreeState (Key υ)}
    {results : List (Except RC Unit)} (hI : I t)
    (hrun : index.runCalls calls t = some (results, t')) : I t' := by
  induction calls generalizing t results with
  | nil =>
    cases hrun
    exact hI
  | cons c calls ih =>
    rw [runCalls] at hrun
    cases hcall : index.call c t with
    | none => simp [hcall] at hrun
    | some r =>
      obtain ⟨result, t₁⟩ := r
      cases hrest : index.runCalls calls t₁ with
      | none => simp [hcall, hrest] at hrun
      | some r' =>
        obtain ⟨results', t₂⟩ := r'
        simp only [hcall, hrest, Option.some.injEq, Prod.mk.injEq] at hrun
        obtain ⟨-, rfl⟩ := hrun
        refine ih (fun c' hc' => hserved c' (List.mem_cons_of_mem _ hc')) ?_ hrest
        exact hstep c t result t₁ (hserved c List.mem_cons_self) hI hcall

/-! ## The tree stays valid -/

variable {ρ : Type} [LinearOrder ρ] {index : BplusTreeHandler (Key υ)} {rank : Key υ → ρ}

/-- The tree is well-formed under some layout. -/
def HasLayout (header : IndexFileHeader) (rank : Key υ → ρ) (t : TreeState (Key υ)) : Prop :=
  ∃ g, WellFormed header rank t.pages g

theorem HasLayout.call (hcmp : RankedBy index.keyComparator rank)
    (hL : 2 ≤ index.fileHeader.leafMaxSize) (hm : 3 ≤ index.fileHeader.internalMaxSize)
    (hu : index.fileHeader.unique = false) {c : Call υ} {t t' : TreeState (Key υ)}
    {result : Except RC Unit} (hserved : c.Served) (h : HasLayout index.fileHeader rank t)
    (hcall : index.call c t = some (result, t')) : HasLayout index.fileHeader rank t' := by
  obtain ⟨g, hw⟩ := h
  obtain ⟨operation, outcomes⟩ := c
  obtain rfl : outcomes = [] := hserved
  cases operation with
  | insert userKey rid isNull =>
    change insertEntry index userKey rid isNull t [] = _ at hcall
    rcases insertEntry_spec userKey rid isNull hcmp hL
      (by omega) hu hw with ⟨-, t₁, h₁, hp⟩ | ⟨-, t₁, g', h₁, hins, -⟩
    · rw [h₁] at hcall
      cases hcall
      exact ⟨g, hp ▸ hw⟩
    · rw [h₁] at hcall
      cases hcall
      exact ⟨g', hins.toWellFormed⟩
  | delete userKey rid =>
    change deleteEntry index userKey rid t [] = _ at hcall
    rcases deleteEntry_spec (A := True) userKey rid hcmp (Or.inl trivial) hm
      hw with ⟨-, t₁, h₁, hp⟩ | ⟨-, t₁, g', h₁, hw', -⟩ | ⟨-, h₁⟩
    · rw [h₁] at hcall
      cases hcall
      exact ⟨g, hp ▸ hw⟩
    · rw [h₁] at hcall
      cases hcall
      exact ⟨g', hw'⟩
    · rw [h₁] at hcall
      cases hcall

/-- Calls whose page requests are served keep the tree of an index valid. -/
theorem validTree_of_runCalls (attrs : List KeyAttr) (header : IndexFileHeader)
    (hL : 2 ≤ header.leafMaxSize) (hm : 3 ≤ header.internalMaxSize)
    (hu : header.unique = false) (calls : List (Call (UserKey attrs)))
    (hserved : ∀ c ∈ calls, c.Served) (results : List (Except RC Unit))
    (t : TreeState (Key (UserKey attrs)))
    (hrun : (ofAttrs attrs header).runCalls calls TreeState.create = some (results, t)) :
    ValidTree (ofAttrs attrs header).keyComparator t.pages := by
  have hcmp := ranked_ofAttrs attrs header
  have hI : HasLayout header (Key.rank (UserKey.rank attrs)) t :=
    runCalls_induction (fun _ _ _ _ hs h hc => h.call hcmp hL hm hu hs hc) calls hserved
      ⟨Layout.empty, wellFormed_create _ _⟩ hrun
  obtain ⟨g, hw⟩ := hI
  exact hw.tree.validTree hcmp fun hr hl => hw.balanced.root hr (by simp) hl

end Calls

/-- The user key of an index over one integer column. -/
def intKey (n : Int) : UserKey [.ints] := (n, ())

theorem validTree_of_three_calls :
    ∃ results t, (ofAttrs [.ints] ⟨3, 2, false⟩).runCalls
        [⟨.insert (intKey 2) ⟨0, 0⟩ false, []⟩, ⟨.insert (intKey 1) ⟨0, 0⟩ false, []⟩,
          ⟨.insert (intKey 3) ⟨0, 0⟩ false, []⟩] TreeState.create = some (results, t) ∧
      (t.pages.node t.pages.rootPage).isLeaf = false ∧
      ValidTree (ofAttrs [.ints] ⟨3, 2, false⟩).keyComparator t.pages := by
  have hrun : ((ofAttrs [.ints] ⟨3, 2, false⟩).runCalls
      [⟨.insert (intKey 2) ⟨0, 0⟩ false, []⟩, ⟨.insert (intKey 1) ⟨0, 0⟩ false, []⟩,
        ⟨.insert (intKey 3) ⟨0, 0⟩ false, []⟩] TreeState.create).map
      (fun r => (r.2.pages.node r.2.pages.rootPage).isLeaf) = some false := by decide +kernel
  obtain ⟨⟨results, t⟩, ht, hleaf⟩ := Option.map_eq_some_iff.mp hrun
  refine ⟨results, t, ht, hleaf, ?_⟩
  exact validTree_of_runCalls [.ints] ⟨3, 2, false⟩ (by decide) (by decide) rfl _
    (by simp [Call.Served]) results t ht

/-- Insertions in ascending order, two items a leaf and three children a node.  The last one
splits the root and fails to fetch a child that moves over. -/
def failedFetchCalls : List (Call (UserKey [.ints])) :=
  [⟨.insert (intKey 1) ⟨0, 0⟩ false, []⟩, ⟨.insert (intKey 2) ⟨0, 0⟩ false, []⟩,
    ⟨.insert (intKey 3) ⟨0, 0⟩ false, []⟩, ⟨.insert (intKey 4) ⟨0, 0⟩ false, []⟩,
    ⟨.insert (intKey 5) ⟨0, 0⟩ false, [none, none, none, none, none, some .ioerrRead]⟩]

/-- `split` does not look at the return code of `move_half_to`: all calls of the run succeed, but
the new node has children whose parent is still the old one. -/
theorem failedFetch_not_validTree :
    ∃ results t, (ofAttrs [.ints] ⟨3, 2, false⟩).runCalls failedFetchCalls TreeState.create =
        some (results, t) ∧
      (∀ result ∈ results, result = .ok ()) ∧
      ¬ ValidTree (ofAttrs [.ints] ⟨3, 2, false⟩).keyComparator t.pages := by
  have hrun : ((ofAttrs [.ints] ⟨3, 2, false⟩).runCalls failedFetchCalls TreeState.create).map
      (fun r => decide (r.1.map Except.isOk = List.replicate 5 true ∧ r.2.pages.rootPage = 8 ∧
        (r.2.pages.node 8).isLeaf = false ∧ (7 : PageNum) ∈ (r.2.pages.node 8).items.map Item.child ∧
        (r.2.pages.node 7).isLeaf = false ∧ (3 : PageNum) ∈ (r.2.pages.node 7).items.map Item.child ∧
        (r.2.pages.node 3).parent = 4)) = some true := by decide +kernel
  obtain ⟨⟨results, t⟩, ht, hfacts⟩ := Option.map_eq_some_iff.mp hrun
  obtain ⟨hok, hroot, hleaf₈, hmem₈, hleaf₇, hmem₇, hparent⟩ := of_decide_eq_true hfacts
  refine ⟨results, t, ht, fun result hresult => ?_, fun hvalid => ?_⟩
  · have : Except.isOk result = true :=
      List.eq_of_mem_replicate (hok ▸ List.mem_map_of_mem hresult)
    cases result with
    | ok u => rfl
    | error e => cases this
  · obtain ⟨item₇, hitem₇, hchild₇⟩ := List.mem_map.mp hmem₈
    obtain ⟨item₃, hitem₃, hchild₃⟩ := List.mem_map.mp hmem₇
    have hreach₈ : Reach t.pages 8 0 := hroot ▸ .root (by rw [hroot]; decide)
    have hreach₇ : Reach t.pages 7 1 := hchild₇ ▸ hreach₈.child hleaf₈ hitem₇
    have := hvalid.parent 7 1 hreach₇ hleaf₇ item₃ hitem₃
    rw [hchild₃, hparent] at this
    exact absurd this (by decide)

/-! ## The set of entries -/

section Refinement

variable {υ : Type} [Inhabited υ] [DecidableEq υ]

/-- What an index is for: a finite set of entries, each a user key with a record identifier. -/
def Operation.onSet (S : Finset (Key υ)) : Operation υ → Except RC Unit × Finset (Key υ)
  | insert userKey rid _ =>
    if ⟨userKey, rid⟩ ∈ S then (.error .recordDuplicateKey, S)
    else (.ok (), Insert.insert ⟨userKey, rid⟩ S)
  | delete userKey rid =>
    if ⟨userKey, rid⟩ ∈ S then (.ok (), S.erase ⟨userKey, rid⟩) else (.error .recordNotExist, S)

/-- The operations one after another on a set. -/
def runOnSet : List (Operation υ) → Finset (Key υ) → List (Except RC Unit) × Finset (Key υ)
  | [], S => ([], S)
  | op :: ops, S =>
    ((op.onSet S).1 :: (runOnSet ops (op.onSet S).2).1, (runOnSet ops (op.onSet S).2).2)

variable {ρ : Type} [LinearOrder ρ] {index : BplusTreeHandler (Key υ)} {rank : Key υ → ρ}
  {header : IndexFileHeader} {t : TreeState (Key υ)} {S : Finset (Key υ)}

/-- The tree holds the entries of the set, under some layout. -/
def Holds (header : IndexFileHeader) (rank : Key υ → ρ) (t : TreeState (Key υ))
    (S : Finset (Key υ)) : Prop :=
  ∃ g, WellFormed header rank t.pages g ∧
    ∀ item, Entry t.pages g item ↔ item.key ∈ S ∧ item.value = .rid item.key.rid

omit [Inhabited υ] [DecidableEq υ] [LinearOrder ρ] in
theorem hasKey_iff (hrank : Function.Injective rank) {g : Layout ρ}
    (he : ∀ item, Entry t.pages g item ↔ item.key ∈ S ∧ item.value = .rid item.key.rid)
    {key : Key υ} : HasKey rank t.pages g key ↔ key ∈ S := by
  constructor
  · rintro ⟨item, hitem, heq⟩
    exact hrank heq ▸ ((he item).mp hitem).1
  · exact fun hkey => ⟨⟨key, .rid key.rid⟩, (he _).mpr ⟨hkey, rfl⟩, rfl⟩

omit [Inhabited υ] in
theorem entries_insert {t' : TreeState (Key υ)} {g g' : Layout ρ} {userKey : υ} {rid : RID}
    (he : ∀ item, Entry t.pages g item ↔ item.key ∈ S ∧ item.value = .rid item.key.rid)
    (hins : Inserted header rank t.pages g ⟨⟨userKey, rid⟩, .rid rid⟩ t'.pages g')
    (item : Item (Key υ)) :
    Entry t'.pages g' item ↔
      item.key ∈ insert ⟨userKey, rid⟩ S ∧ item.value = .rid item.key.rid := by
  rw [hins.entries, he, Finset.mem_insert]
  constructor
  · rintro (⟨hk, hv⟩ | rfl)
    · exact ⟨Or.inr hk, hv⟩
    · exact ⟨Or.inl rfl, rfl⟩
  · rintro ⟨hk | hk, hv⟩
    · obtain ⟨key, value⟩ := item
      obtain rfl : key = ⟨userKey, rid⟩ := hk
      exact Or.inr (by rw [show value = .rid rid from hv])
    · exact Or.inl ⟨hk, hv⟩

theorem Holds.call (hcmp : RankedBy index.keyComparator rank)
    (hrank : Function.Injective rank) (hL : 4 ≤ index.fileHeader.leafMaxSize)
    (hm : 6 ≤ index.fileHeader.internalMaxSize) (hu : index.fileHeader.unique = false)
    (h : Holds index.fileHeader rank t S) {c : Call υ} (hserved : c.Served) :
    ∃ t', index.call c t = some ((c.operation.onSet S).1, t') ∧
      Holds index.fileHeader rank t' (c.operation.onSet S).2 := by
  obtain ⟨g, hw, he⟩ := h
  obtain ⟨operation, outcomes⟩ := c
  obtain rfl : outcomes = [] := hserved
  cases operation with
  | insert userKey rid isNull =>
    have hspec := insertEntry_spec userKey rid isNull hcmp
      (by omega) (by omega) hu hw
    rw [hasKey_iff hrank he] at hspec
    rcases hspec with ⟨hmem, t', ht', hp⟩ | ⟨hmem, t', g', ht', hins, -⟩
    · simp only [Operation.onSet, if_pos hmem]
      exact ⟨t', ht', g, hp ▸ hw, hp ▸ he⟩
    · simp only [Operation.onSet, if_neg hmem]
      exact ⟨t', ht', g', hins.toWellFormed, entries_insert he hins⟩
  | delete userKey rid =>
    have hspec := deleteEntry_spec (A := False) userKey rid hcmp
      (Or.inr ⟨hL, hm⟩) (by omega) hw
    rw [hasKey_iff hrank he] at hspec
    rcases hspec with ⟨hmem, t', ht', hp⟩ | ⟨hmem, t', g', ht', hw', he'⟩ | ⟨hf, -⟩
    · simp only [Operation.onSet, if_neg hmem]
      exact ⟨t', ht', g, hp ▸ hw, hp ▸ he⟩
    · simp only [Operation.onSet, if_pos hmem]
      refine ⟨t', ht', g', hw', fun item => ?_⟩
      rw [he', he, Finset.mem_erase, hrank.ne_iff]
      tauto
    · exact hf.elim

theorem Holds.runCalls (hcmp : RankedBy index.keyComparator rank)
    (hrank : Function.Injective rank) (hL : 4 ≤ index.fileHeader.leafMaxSize)
    (hm : 6 ≤ index.fileHeader.internalMaxSize) (hu : index.fileHeader.unique = false)
    (h : Holds index.fileHeader rank t S) (calls : List (Call υ))
    (hserved : ∀ c ∈ calls, c.Served) :
    ∃ t', index.runCalls calls t = some ((runOnSet (calls.map Call.operation) S).1, t') ∧
      Holds index.fileHeader rank t' (runOnSet (calls.map Call.operation) S).2 := by
  induction calls generalizing t S with
  | nil => exact ⟨t, rfl, h⟩
  | cons c calls ih =>
    obtain ⟨t₁, hcall, h₁⟩ := h.call hcmp hrank hL hm hu (hserved c List.mem_cons_self)
    obtain ⟨t', hrest, h'⟩ := ih h₁ fun c' hc' => hserved c' (List.mem_cons_of_mem _ hc')
    refine ⟨t', ?_, h'⟩
    rw [BplusTreeHandler.runCalls, hcall]
    simp only [hrest]
    rfl

/-- The entries of the leaf chain, from the left-most leaf on. -/
def leafEntries (t : TreeState (Key υ)) : Option (List (Item (Key υ))) :=
  match printLeafs (start t true []) with
  | .ok items _ => some items
  | .error _ _ => none

omit [Inhabited υ] [DecidableEq υ] in
theorem Holds.leafEntries (hcmp : RankedBy index.keyComparator rank)
    (h : Holds index.fileHeader rank t S) :
    ∃ keys : List (Key υ), leafEntries t = some (keys.map fun key => ⟨key, .rid key.rid⟩) ∧
      keys.Pairwise (fun a b => index.keyComparator a b < 0) ∧ ∀ key, key ∈ keys ↔ key ∈ S := by
  obtain ⟨g, hw, he⟩ := h
  have hspec := printLeafs_spec (E := fun _ _ => False) hw.tree (at_start t)
  unfold ObHtap.leafEntries
  cases hrun : printLeafs (start t true []) with
  | error e s => exact (hspec.error rfl hrun).elim
  | ok items s =>
    obtain ⟨⟨hsorted, hmem⟩, -⟩ := hspec.ok rfl hrun
    refine ⟨items.map Item.key, ?_, ?_, fun key => ?_⟩
    · rw [List.map_map]
      refine congrArg some ((List.map_id items).symm.trans (List.map_congr_left fun item hi => ?_))
      have hvalue := ((he item).mp ((hmem item).mp hi)).2
      cases item
      exact congrArg (Item.mk _) hvalue
    · simpa only [List.pairwise_map, hcmp.neg_iff] using hsorted
    · simp only [List.mem_map, hmem, he]
      constructor
      · rintro ⟨item, ⟨hk, -⟩, rfl⟩
        exact hk
      · exact fun hk => ⟨⟨key, .rid key.rid⟩, ⟨hk, rfl⟩, rfl⟩

end Refinement

/-! ## An index over integers -/

/-- A non-unique index over one integer column, with the capacities of its pages. -/
def intIndex : BplusTreeHandler (Key (UserKey [.ints])) :=
  ofAttrs [.ints]
    { internalMaxSize := calcInternalPageCapacity 4
      leafMaxSize := calcLeafPageCapacity 4
      unique := false }

/-- Four items a leaf. -/
def smallIndex : BplusTreeHandler (Key (UserKey [.ints])) :=
  ofAttrs [.ints] ⟨6, 4, false⟩

/-- The last of five insertions splits the root of such an index. -/
def splittingCalls : List (Call (UserKey [.ints])) :=
  (List.range 5).map fun n => ⟨.insert (intKey n) ⟨0, 0⟩ false, []⟩

theorem holds_create {υ ρ : Type} [LinearOrder ρ] (rank : Key υ → ρ) (header : IndexFileHeader) :
    Holds header rank TreeState.create ∅ :=
  ⟨Layout.empty, wellFormed_create _ _, fun item => by simp⟩

/-- As long as its page requests are served, an integer index is the finite set of its entries:
it returns what the set returns, and its leaf chain reads as the set. -/
theorem intIndex_refines_set (calls : List (Call (UserKey [.ints])))
    (hserved : ∀ c ∈ calls, c.Served) :
    ∃ (t : TreeState (Key (UserKey [.ints]))) (keys : List (Key (UserKey [.ints]))),
      intIndex.runCalls calls TreeState.create =
          some ((runOnSet (calls.map Call.operation) ∅).1, t) ∧
      leafEntries t = some (keys.map fun key => ⟨key, .rid key.rid⟩) ∧
      keys.Pairwise (fun a b => intIndex.keyComparator a b < 0) ∧
      ∀ key, key ∈ keys ↔ key ∈ (runOnSet (calls.map Call.operation) ∅).2 := by
  have hcmp := ranked_ofAttrs [.ints] intIndex.fileHeader
  have hinj := Key.rank_injective (UserKey.rank_ints_injective)
  obtain ⟨t, hrun, hholds⟩ := (holds_create _ intIndex.fileHeader).runCalls hcmp hinj (by decide)
    (by decide) rfl calls hserved
  obtain ⟨keys, hkeys⟩ := hholds.leafEntries hcmp
  exact ⟨t, keys, hrun, hkeys⟩

theorem intIndex_refines_set_two :
    ∃ (t : TreeState (Key (UserKey [.ints]))) (keys : List (Key (UserKey [.ints]))),
      intIndex.runCalls [⟨.insert (intKey 1) ⟨0, 0⟩ false, []⟩, ⟨.delete (intKey 2) ⟨0, 0⟩, []⟩]
          TreeState.create = some ([.ok (), .error .recordNotExist], t) ∧
      leafEntries t = some (keys.map fun key => ⟨key, .rid key.rid⟩) ∧
      keys.Pairwise (fun a b => intIndex.keyComparator a b < 0) ∧
      ∀ key, key ∈ keys ↔ key ∈ ({⟨intKey 1, ⟨0, 0⟩⟩} : Finset (Key (UserKey [.ints]))) :=
  intIndex_refines_set
    [⟨.insert (intKey 1) ⟨0, 0⟩ false, []⟩, ⟨.delete (intKey 2) ⟨0, 0⟩, []⟩]
    (by simp [Call.Served])

/-- An insertion that cannot read the root page does not answer as the set does. -/
theorem intIndex_refused_insert :
    ¬ ∃ t, intIndex.runCalls [⟨.insert (intKey 1) ⟨0, 0⟩ false, []⟩,
        ⟨.insert (intKey 2) ⟨0, 0⟩ false, [some .ioerrRead]⟩] TreeState.create =
      some ((runOnSet [.insert (intKey 1) ⟨0, 0⟩ false, .insert (intKey 2) ⟨0, 0⟩ false]
        (∅ : Finset (Key (UserKey [.ints])))).1, t) := by
  rintro ⟨t, ht⟩
  have hrun : (intIndex.runCalls [⟨.insert (intKey 1) ⟨0, 0⟩ false, []⟩,
      ⟨.insert (intKey 2) ⟨0, 0⟩ false, [some .ioerrRead]⟩] TreeState.create).map
      (fun r => r.1.map Except.isOk) = some [true, false] := by decide +kernel
  have hset : (runOnSet [.insert (intKey 1) ⟨0, 0⟩ false, .insert (intKey 2) ⟨0, 0⟩ false]
      (∅ : Finset (Key (UserKey [.ints])))).1.map Except.isOk = [true, true] := by decide +kernel
  rw [ht, Option.map_some, hset] at hrun
  cases hrun

end ObHtap
