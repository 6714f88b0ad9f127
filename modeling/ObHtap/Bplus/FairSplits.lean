import ObHtap.Bplus.Edits
import ObHtap.Bplus.Unique

/-!
# Minimum occupancy and the place of a node

What insertions and deletions leave of the sizes of the pages, and which deletions end the process.
-/

namespace ObHtap

/-! ## Minimum occupancy

A page of odd capacity `2 * m + 1` is split into `m` and `m + 1` items, and when the new item
enters the right half, the left one is left with `m`, one less than `min_size`.  Apart from
that, insertions and deletions keep every page but the root between `min_size` and `max_size`. -/

section

open ObHtap.Bound IndexNodeHandler BplusTreeHandler BplusTreeMiniTransaction

section Pages

variable {κ ρ : Type} [LinearOrder ρ] {rank : κ → ρ} {v : Pages κ} {g : Layout ρ}
  {header : IndexFileHeader}

/-- Every page of the tree holds at most `max_size` items, and at least `min_size` unless it is
the root. -/
structure WellFilled (header : IndexFileHeader) (v : Pages κ) : Prop where
  least : ∀ p depth, Reach v p depth → p ≠ v.rootPage →
    minSize header (v.node p) ≤ (v.node p).size
  most : ∀ p depth, Reach v p depth → (v.node p).size ≤ maxSize header (v.node p)

theorem TreeInv.wellFilled_iff_occupied (h : TreeInv rank v g none) :
    WellFilled header v ↔ Occupied header v g none := by
  constructor
  · intro hf
    refine ⟨fun x hx hxr => ?_, fun x hx => ?_⟩ <;> obtain ⟨depth, hreach⟩ := h.reach_of_dom hx
    · rw [← h.minSize_eq hx]
      exact hf.least x depth hreach (hxr.elim id fun ⟨_, hc⟩ => by simp at hc)
    · rw [← h.maxSize_eq hx]
      exact hf.most x depth hreach
  · intro hocc
    refine ⟨fun x depth hreach hxr => ?_, fun x depth hreach => ?_⟩ <;>
      obtain ⟨hx, -⟩ := h.dom_of_reach hreach
    · rw [h.minSize_eq hx]
      exact hocc.least x hx (Or.inl hxr)
    · rw [h.maxSize_eq hx]
      exact hocc.most x hx

end Pages

/-! ## The sizes in `redistribute` and `coalesce` -/

namespace BplusTreeHandler

section Checked

variable {κ : Type} [Inhabited κ] (tree : BplusTreeHandler κ)

/-- `redistribute`, ending the process where the source logs that the neighbor is smaller than
the node. -/
def redistributeChecked (kind : NodeKind) (neighborPage pageNum parentPage : PageNum)
    (index : Nat) : MtrM κ Unit := do
  let neighborNode ← readNode neighborPage
  let node ← readNode pageNum
  if neighborNode.size < node.size then throw .abort
  else redistribute kind neighborPage pageNum parentPage index

/-- `coalesce`, ending the process when the merged node does not fit in a page. -/
def coalesceChecked (kind : NodeKind) (neighborPage pageNum parentPage : PageNum)
    (index : Nat) : MtrM κ Unit := do
  let neighborNode ← readNode neighborPage
  let node ← readNode pageNum
  if maxSize tree.fileHeader node < node.size + neighborNode.size then throw .abort
  else coalesce kind neighborPage pageNum parentPage index

/-- `coalesce_or_redistribute` with these checks. -/
def coalesceOrRedistributeChecked : Nat → NodeKind → PageNum → MtrM κ Unit
  | 0, _, _ => throw .outOfFuel
  | fuel + 1, kind, pageNum => do
    let node ← readNode pageNum
    if minSize tree.fileHeader node ≤ node.size then pure ()
    else if node.parent = bpInvalidPageNum then
      if 1 < node.size then pure ()
      else ignoreRC (adjustRoot pageNum)
    else
      let parentPage := node.parent
      getPage parentPage
      let parentNode ← readNode parentPage
      let key ← keyAt pageNum (node.size - 1)
      let index := (InternalIndexNodeHandler.lookup tree.keyComparator parentNode key).1
      let child ← InternalIndexNodeHandler.valueAt parentPage index
      if child ≠ pageNum then throw .abort
      else
        let neighborPage ← InternalIndexNodeHandler.valueAt parentPage
          (if index = 0 then 1 else index - 1)
        getPage neighborPage
        let neighborNode ← readNode neighborPage
        if node.size + neighborNode.size > maxSize tree.fileHeader node then
          redistributeChecked kind neighborPage pageNum parentPage index
        else
          coalesceChecked tree kind neighborPage pageNum parentPage index
          coalesceOrRedistributeChecked fuel .internal parentPage

omit [Inhabited κ] in
theorem readNode_run {α : Type} {f : IndexNode κ → MtrM κ α} {p : PageNum} {s : Mtr κ} :
    (readNode p >>= f) s = f (s.pages.node p) s := rfl

omit [Inhabited κ] in
/-- The checks never fail, whatever the state of the pages is. -/
theorem coalesceOrRedistributeChecked_eq (fuel : Nat) (kind : NodeKind) (p : PageNum) :
    coalesceOrRedistributeChecked tree fuel kind p = coalesceOrRedistribute tree fuel kind p := by
  induction fuel generalizing kind p with
  | zero => rfl
  | succ fuel ih =>
    funext s
    rw [coalesceOrRedistributeChecked, coalesceOrRedistribute, readNode_run, readNode_run]
    split
    · rfl
    rename_i hsmall
    split
    · rfl
    -- nothing up to the two nodes changes a page
    have hsame : ∀ {s' : Mtr κ}, Edits (fun _ => False) (fun _ => False) s s' →
        s'.pages.node p = s.pages.node p := fun h => h.same id id
    have hget := fun q => getPage_edits (κ := κ) (W := fun _ => False) (K := fun _ => False) q
    have hkey := fun i => keyAt_edits (κ := κ) (W := fun _ => False) (K := fun _ => False) p i
    have hvalue := fun q i => InternalIndexNodeHandler.valueAt_edits (κ := κ)
      (W := fun _ => False) (K := fun _ => False) q i
    refine (hget _).bind_congr fun _ s₁ h₁ => ?_
    rw [readNode_run, readNode_run]
    refine (hkey _).bind_congr fun key s₂ h₂ => ?_
    refine (hvalue _ _).bind_congr fun child s₃ h₃ => ?_
    split
    · rfl
    refine (hvalue _ _).bind_congr fun q s₄ h₄ => ?_
    refine (hget q).bind_congr fun _ s₅ h₅ => ?_
    have hnode := hsame (h₁.trans (h₂.trans (h₃.trans (h₄.trans h₅))))
    rw [readNode_run, readNode_run]
    unfold minSize at hsmall
    split
    · rename_i hmore
      unfold redistributeChecked
      rw [readNode_run, readNode_run, hnode, if_neg (by omega)]
    · rename_i hfew
      have hcheck : ∀ index, coalesceChecked tree kind q p (s.pages.node p).parent index s₅ =
          coalesce kind q p (s.pages.node p).parent index s₅ := fun index => by
        unfold coalesceChecked
        rw [readNode_run, readNode_run, hnode, if_neg (by omega)]
      rw [ih]
      change EStateM.bind _ _ s₅ = EStateM.bind _ _ s₅
      unfold EStateM.bind
      rw [hcheck]

end Checked

end BplusTreeHandler

/-! ## Runs -/

section Runs

variable {υ : Type} [Inhabited υ] [DecidableEq υ]

namespace BplusTreeHandler

/-- The states that the index is in before, between and after the calls. -/
def states (index : BplusTreeHandler (Key υ)) :
    List (Call υ) → TreeState (Key υ) → List (TreeState (Key υ))
  | [], t => [t]
  | c :: calls, t => t ::
    match index.call c t with
    | none => []
    | some (_, t') => states index calls t'

/-- The calls that are made, each with the state it starts from. -/
def steps (index : BplusTreeHandler (Key υ)) :
    List (Call υ) → TreeState (Key υ) → List (Call υ × TreeState (Key υ))
  | [], _ => []
  | c :: calls, t => (c, t) ::
    match index.call c t with
    | none => []
    | some (_, t') => steps index calls t'

/-- An insertion that splits pages evenly.  A deletion splits none. -/
def StepsEvenly (index : BplusTreeHandler (Key υ)) (c : Call υ) (t : TreeState (Key υ)) : Prop :=
  match c.operation with
  | .insert userKey rid isNull => SplitsEvenly index userKey rid isNull (start t true c.outcomes)
  | .delete _ _ => True

theorem mem_states_self (index : BplusTreeHandler (Key υ)) (calls : List (Call υ))
    (t : TreeState (Key υ)) : t ∈ index.states calls t := by
  cases calls <;> exact List.mem_cons_self

end BplusTreeHandler

variable {ρ : Type} [LinearOrder ρ] {index : BplusTreeHandler (Key υ)} {rankUser : υ → ρ}
  {t : TreeState (Key υ)} {g : Layout (ρ ×ₗ (ℕ ×ₗ ℕ))}

theorem insertEntry_fills (userKey : υ) (rid : RID) (isNull : Bool)
    (hcmp : RankedBy index.keyComparator (Key.rank rankUser))
    (hL : 2 ≤ index.fileHeader.leafMaxSize) (hm : 2 ≤ index.fileHeader.internalMaxSize)
    (hw : WellFormed index.fileHeader (Key.rank rankUser) t.pages g) :
    ∃ result t' g', insertEntry index userKey rid isNull t [] = some (result, t') ∧
      WellFormed index.fileHeader (Key.rank rankUser) t'.pages g' ∧
      OccupiedWhen index.fileHeader t.pages g t'.pages g'
        (SplitsEvenly index userKey rid isNull (start t true [])) := by
  cases hu : index.fileHeader.unique with
  | false =>
    rcases insertEntry_spec userKey rid isNull hcmp hL hm hu hw with
      ⟨hkey, t', ht', hp⟩ | ⟨-, t', g', ht', hins, hocc⟩
    · refine ⟨_, t', g, ht', hp ▸ hw, fun hocc => iff_of_true (hp ▸ hocc) ?_⟩
      exact splitsEvenly_of_hasKey hcmp hw.tree (at_start t) hkey
    · exact ⟨_, t', g', ht', hins.toWellFormed, hocc⟩
  | true =>
    rcases insertEntry_unique_spec userKey rid isNull hcmp hL hm hu hw with
      ⟨hrefused, rc, t', ht', hp⟩ | ⟨-, -, t', g', ht', hins, hocc⟩
    · refine ⟨_, t', g, ht', hp ▸ hw, fun hocc => iff_of_true (hp ▸ hocc) ?_⟩
      rcases hrefused with hrej | hkey
      · exact splitsEvenly_of_rejects hcmp hL hu hw (at_start t) rfl hrej
      · exact splitsEvenly_of_hasKey hcmp hw.tree (at_start t) hkey
    · exact ⟨_, t', g', ht', hins.toWellFormed, hocc⟩

/-- One served call keeps the pages filled exactly if it splits evenly. -/
theorem call_fills (hcmp : RankedBy index.keyComparator (Key.rank rankUser))
    (hL : 2 ≤ index.fileHeader.leafMaxSize) (hm : 3 ≤ index.fileHeader.internalMaxSize)
    {c : Call υ} (hserved : c.Served)
    (hw : WellFormed index.fileHeader (Key.rank rankUser) t.pages g) :
    (index.call c t = none ∧ StepsEvenly index c t) ∨
      ∃ result t' g', index.call c t = some (result, t') ∧
        WellFormed index.fileHeader (Key.rank rankUser) t'.pages g' ∧
        OccupiedWhen index.fileHeader t.pages g t'.pages g' (StepsEvenly index c t) := by
  obtain ⟨operation, outcomes⟩ := c
  obtain rfl : outcomes = [] := hserved
  cases operation with
  | insert userKey rid isNull =>
    exact Or.inr (insertEntry_fills userKey rid isNull hcmp hL (Nat.le_of_succ_le hm) hw)
  | delete userKey rid =>
    rcases deleteEntry_cases userKey rid hcmp hm hw with
      ⟨-, -, t', ht', hp⟩ | ⟨-, -, t', g', ht', hw', -, hocc⟩ | ⟨-, -, hnone⟩
    · exact Or.inr ⟨_, t', g, ht', hp ▸ hw, fun h => iff_of_true (hp ▸ h) trivial⟩
    · exact Or.inr ⟨_, t', g', ht', hw', fun h => iff_of_true (hocc h) trivial⟩
    · exact Or.inl ⟨hnone, trivial⟩

/-- From a filled tree on, all states are filled exactly if all calls split evenly. -/
theorem states_filled_iff (hcmp : RankedBy index.keyComparator (Key.rank rankUser))
    (hL : 2 ≤ index.fileHeader.leafMaxSize) (hm : 3 ≤ index.fileHeader.internalMaxSize)
    (calls : List (Call υ)) (hserved : ∀ c ∈ calls, c.Served)
    (hw : WellFormed index.fileHeader (Key.rank rankUser) t.pages g)
    (hocc : Occupied index.fileHeader t.pages g none) :
    (∀ t' ∈ index.states calls t, WellFilled index.fileHeader t'.pages) ↔
      ∀ step ∈ index.steps calls t, StepsEvenly index step.1 step.2 := by
  have hfilled := hw.tree.wellFilled_iff_occupied.mpr hocc
  induction calls generalizing t g with
  | nil => simpa [states, steps] using hfilled
  | cons c calls ih =>
    have hrest := fun c' hc' => hserved c' (List.mem_cons_of_mem _ hc')
    rw [states, steps, List.forall_mem_cons, List.forall_mem_cons, and_iff_right hfilled]
    rcases call_fills hcmp hL hm (hserved c List.mem_cons_self) hw with
      ⟨hnone, heven⟩ | ⟨result, t', g', hcall, hw', hwhen⟩
    · simp [hnone, heven]
    · simp only [hcall]
      by_cases heven : StepsEvenly index c t
      · have hocc' := (hwhen hocc).mpr heven
        rw [and_iff_right heven]
        exact ih hrest hw' hocc' (hw'.tree.wellFilled_iff_occupied.mpr hocc')
      · -- the state after the call is not filled
        refine iff_of_false (fun h => heven ((hwhen hocc).mp ?_)) fun h => heven h.1
        exact hw'.tree.wellFilled_iff_occupied.mp (h t' (mem_states_self index calls t'))

/-- In a run from a new index all pages stay between `min_size` and `max_size` exactly if no
insertion splits a page of odd capacity in favour of its right half.  The neighbor in
`redistribute` is never smaller than the node, and the nodes merged in `coalesce` always fit in
one page. -/
theorem wellFilled_iff (attrs : List KeyAttr) (header : IndexFileHeader)
    (hL : 2 ≤ header.leafMaxSize) (hm : 3 ≤ header.internalMaxSize)
    (calls : List (Call (UserKey attrs))) (hserved : ∀ c ∈ calls, c.Served) :
    ((∀ t ∈ (ofAttrs attrs header).states calls TreeState.create, WellFilled header t.pages) ∧
        ∀ fuel kind p, coalesceOrRedistributeChecked (ofAttrs attrs header) fuel kind p =
          coalesceOrRedistribute (ofAttrs attrs header) fuel kind p) ↔
      ∀ step ∈ (ofAttrs attrs header).steps calls TreeState.create,
        StepsEvenly (ofAttrs attrs header) step.1 step.2 := by
  rw [and_iff_left fun fuel kind p => coalesceOrRedistributeChecked_eq _ fuel kind p]
  exact states_filled_iff (ranked_ofAttrs attrs header) hL hm calls hserved
    (wellFormed_create _ _) ⟨fun _ hx => hx.elim, fun _ hx => hx.elim⟩

omit [Inhabited υ] in
theorem stepsEvenly_of_even (hL : index.fileHeader.leafMaxSize % 2 = 0)
    (hm : index.fileHeader.internalMaxSize % 2 = 0) (c : Call υ) (t : TreeState (Key υ)) :
    StepsEvenly index c t := by
  unfold StepsEvenly
  split
  · intro _ _ _ _ _ _ _ _ _
    exact ⟨fun h => by have := h.1; omega, fun _ _ _ h => by have := h.1; omega⟩
  · trivial

/-- Insertions in ascending order. -/
def ascendingCalls : List (Call (UserKey [.ints])) :=
  [⟨.insert (intKey 1) ⟨0, 0⟩ false, []⟩, ⟨.insert (intKey 2) ⟨0, 0⟩ false, []⟩,
    ⟨.insert (intKey 3) ⟨0, 0⟩ false, []⟩, ⟨.insert (intKey 4) ⟨0, 0⟩ false, []⟩]

theorem wellFilled_ascending :
    (∀ t ∈ (ofAttrs [.ints] ⟨4, 2, false⟩).states ascendingCalls TreeState.create,
        WellFilled ⟨4, 2, false⟩ t.pages) ∧
      ∀ fuel kind p, coalesceOrRedistributeChecked (ofAttrs [.ints] ⟨4, 2, false⟩) fuel kind p =
        coalesceOrRedistribute (ofAttrs [.ints] ⟨4, 2, false⟩) fuel kind p :=
  (wellFilled_iff [.ints] ⟨4, 2, false⟩ (by decide) (by decide) ascendingCalls
    (by simp [ascendingCalls, Call.Served])).mpr
    fun step _ => stepsEvenly_of_even rfl rfl step.1 step.2

/-- With three items a leaf, the fourth insertion leaves one item in the left half of the root. -/
theorem ascending_not_wellFilled :
    ¬ ∀ t ∈ (ofAttrs [.ints] ⟨3, 3, false⟩).states ascendingCalls TreeState.create,
      WellFilled ⟨3, 3, false⟩ t.pages := by
  intro hall
  have hrun : ((ofAttrs [.ints] ⟨3, 3, false⟩).states ascendingCalls TreeState.create).map
      (fun t => decide (t.pages.rootPage = 4 ∧ (t.pages.node 4).isLeaf = false ∧
        (2 : PageNum) ∈ (t.pages.node 4).items.map Item.child ∧
        (t.pages.node 2).isLeaf = true ∧ (t.pages.node 2).size = 1)) =
      [false, false, false, false, true] := by decide +kernel
  have htrue : true ∈ [false, false, false, false, true] := by decide
  rw [← hrun] at htrue
  obtain ⟨t, ht, hfacts⟩ := List.mem_map.mp htrue
  obtain ⟨hroot, hleaf₄, hmem₂, hleaf₂, hsize₂⟩ := of_decide_eq_true hfacts
  obtain ⟨item, hitem, hchild⟩ := List.mem_map.mp hmem₂
  have hreach₄ : Reach t.pages 4 0 := hroot ▸ .root (by rw [hroot]; decide)
  have hreach₂ : Reach t.pages 2 1 := hchild ▸ hreach₄.child hleaf₄ hitem
  have hleast := (hall t ht).least 2 1 hreach₂ (by rw [hroot]; decide)
  rw [hsize₂, minSize, maxSize, if_pos hleaf₂] at hleast
  exact absurd hleast (by decide)

end Runs

end

/-! ## Deletions that end the process

Whether `coalesce_or_redistribute` finds the place of every node it comes to, and a neighbor of
it, told from the tree before the deletion. -/

section

open ObHtap.Bound BplusTreeHandler BplusTreeMiniTransaction

section Runs

variable {υ : Type} [Inhabited υ] [DecidableEq υ]
  {ρ : Type} [LinearOrder ρ] {index : BplusTreeHandler (Key υ)} {rankUser : υ → ρ}
  {t : TreeState (Key υ)} {g : Layout (ρ ×ₗ (ℕ ×ₗ ℕ))}

theorem wellFormed_of_mem_states (hcmp : RankedBy index.keyComparator (Key.rank rankUser))
    (hL : 2 ≤ index.fileHeader.leafMaxSize) (hm : 3 ≤ index.fileHeader.internalMaxSize)
    (calls : List (Call υ)) (hserved : ∀ c ∈ calls, c.Served)
    (hw : WellFormed index.fileHeader (Key.rank rankUser) t.pages g) {t' : TreeState (Key υ)}
    (ht' : t' ∈ index.states calls t) :
    ∃ g', WellFormed index.fileHeader (Key.rank rankUser) t'.pages g' := by
  induction calls generalizing t g with
  | nil =>
    obtain rfl := List.mem_singleton.mp ht'
    exact ⟨g, hw⟩
  | cons c calls ih =>
    rcases List.mem_cons.mp ht' with rfl | hmem
    · exact ⟨g, hw⟩
    rcases call_fills hcmp hL hm (hserved c List.mem_cons_self) hw with
      ⟨hnone, -⟩ | ⟨result, t₁, g₁, hcall, hw₁, -⟩
    · simp [hnone] at hmem
    · simp only [hcall] at hmem
      exact ih (fun c' hc' => hserved c' (List.mem_cons_of_mem _ hc')) hw₁ hmem

omit [Inhabited υ] [DecidableEq υ] in
/-- A served deletion ends exactly if every page that becomes too small in it keeps its place. -/
theorem deleteEntry_ends_iff (userKey : υ) (rid : RID)
    (hcmp : RankedBy index.keyComparator (Key.rank rankUser))
    (hm : 3 ≤ index.fileHeader.internalMaxSize)
    (hw : WellFormed index.fileHeader (Key.rank rankUser) t.pages g) :
    deleteEntry index userKey rid t [] ≠ none ↔
      DeletionLocates index userKey rid (start t true []) := by
  rcases deleteEntry_cases userKey rid hcmp hm hw with
    ⟨-, hloc, t', ht', -⟩ | ⟨-, hloc, t', g', ht', -⟩ | ⟨-, hloc, hnone⟩
  · exact iff_of_true (by simp [ht']) hloc
  · exact iff_of_true (by simp [ht']) hloc
  · exact iff_of_false (fun h => h hnone) hloc

end Runs

/-- In every tree that served calls lead to, a deletion runs into none of the checks of
`coalesce_or_redistribute` exactly if every page that becomes too small in it has a sibling, and
is a leaf that keeps an item, or an internal page that keeps two items or is not the first child
of its parent or has its first key below the separator after it. -/
theorem deleteEntry_locates_iff (attrs : List KeyAttr) (header : IndexFileHeader)
    (hL : 2 ≤ header.leafMaxSize) (hm : 3 ≤ header.internalMaxSize)
    (calls : List (Call (UserKey attrs))) (hserved : ∀ c ∈ calls, c.Served)
    (t : TreeState (Key (UserKey attrs)))
    (ht : t ∈ (ofAttrs attrs header).states calls TreeState.create) (userKey : UserKey attrs)
    (rid : RID) :
    deleteEntry (ofAttrs attrs header) userKey rid t [] ≠ none ↔
      DeletionLocates (ofAttrs attrs header) userKey rid (start t true []) := by
  have hcmp := ranked_ofAttrs attrs header
  obtain ⟨g, hw⟩ := wellFormed_of_mem_states hcmp hL hm calls hserved (wellFormed_create _ _) ht
  exact deleteEntry_ends_iff userKey rid hcmp hm hw

/-- The deletion merges the two leaves below the root. -/
theorem deleteEntry_locates_merge :
    ∃ t ∈ smallIndex.states splittingCalls TreeState.create,
      (t.pages.node t.pages.rootPage).size = 2 ∧
      DeletionLocates smallIndex (intKey 0) ⟨0, 0⟩ (start t true []) := by
  have hrun : (smallIndex.states splittingCalls TreeState.create).any (fun t =>
      (t.pages.node t.pages.rootPage).size = 2 && t.pages.rootPage = 4 &&
        (deleteEntry smallIndex (intKey 0) ⟨0, 0⟩ t []).map
          (fun r => r.2.pages.rootPage) = some 2) = true := by
    decide +kernel
  obtain ⟨t, ht, hfacts⟩ := List.any_eq_true.mp hrun
  simp only [Bool.and_eq_true, decide_eq_true_eq] at hfacts
  refine ⟨t, ht, hfacts.1.1, (deleteEntry_locates_iff [.ints] ⟨6, 4, false⟩ (by decide) (by decide)
    splittingCalls (by simp [splittingCalls, Call.Served]) t ht _ _).mp fun hnone => ?_⟩
  have hroot := hfacts.2.symm.trans (congrArg (Option.map _) hnone)
  cases hroot

/-- With the keys 1, 2 and 3 and two items a leaf, deleting the only item of the left leaf asks for
the key before its first one. -/
theorem deleteEntry_one_aborts :
    ¬ ∀ t ∈ (ofAttrs [.ints] ⟨3, 2, false⟩).states (ascendingCalls.take 3) TreeState.create,
      deleteEntry (ofAttrs [.ints] ⟨3, 2, false⟩) (intKey 1) ⟨0, 0⟩ t [] ≠ none := by
  have hrun : ((ofAttrs [.ints] ⟨3, 2, false⟩).states (ascendingCalls.take 3)
      TreeState.create).any (fun t =>
        (deleteEntry (ofAttrs [.ints] ⟨3, 2, false⟩) (intKey 1) ⟨0, 0⟩ t []).isNone) = true := by
    decide +kernel
  obtain ⟨t, ht, hnone⟩ := List.any_eq_true.mp hrun
  exact fun h => h t ht (Option.isNone_iff_eq_none.mp hnone)

end

end ObHtap
