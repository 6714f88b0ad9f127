import Mathlib.Data.List.Pairwise
import ObHtap.Library.Grouping

/-!
# Groups by two relations

The keys of the groups tell whether two relations group rows alike.
-/

namespace ObHtap

namespace Grouping

variable {K T : Type}

/-- The rows are grouped alike by relations that agree on each row and those before it. -/
theorem groupRows_congr {same eqv : K → K → Bool} {rows : List (K × T)}
    (h : rows.Pairwise fun row row' => same row'.1 row.1 = eqv row'.1 row.1) :
    groupRows same rows = groupRows eqv rows := by
  induction rows using groupRows.induct same with
  | case1 => rw [groupRows, groupRows]
  | case2 row rows ih =>
    obtain ⟨hrow, hrows⟩ := List.pairwise_cons.mp h
    simp only [List.unattach_filter, List.unattach_attach] at ih
    have hsame : (rows.filter fun row' => same row'.1 row.1) =
        rows.filter fun row' => eqv row'.1 row.1 :=
      List.filter_congr fun row' hmem => hrow row' hmem
    have hothers : (rows.filter fun row' => !same row'.1 row.1) =
        rows.filter fun row' => !eqv row'.1 row.1 :=
      List.filter_congr fun row' hmem => congrArg (!·) (hrow row' hmem)
    rw [groupRows, groupRows, hsame, ih (hrows.filter _), hothers]

/-- The first row of a group has its key. -/
theorem first_mem_of_mem_groupRows {rel : K → K → Bool} {rows : List (K × T)} {group : Group K T}
    (h : group ∈ groupRows rel rows) : (group.key, group.first) ∈ rows := by
  induction rows using groupRows.induct rel with
  | case1 =>
    rw [groupRows] at h
    cases h
  | case2 row rows ih =>
    simp only [List.unattach_filter, List.unattach_attach] at ih
    rw [groupRows] at h
    rcases List.mem_cons.mp h with rfl | h
    · exact List.mem_cons_self
    · exact List.mem_cons_of_mem row (List.mem_of_mem_filter (ih h))

/-- The keys of the groups of rows, in the order in which they appear. -/
def groupKeys (rel : K → K → Bool) (rows : List (K × T)) : List K :=
  (insertAll rel rows []).map Group.key

section

variable {rel : K → K → Bool} {rows : List (K × T)} {row : K × T}

theorem map_key_insert (row : K × T) (groups : List (Group K T)) :
    (insert rel row groups).map Group.key =
      if ∃ k ∈ groups.map Group.key, rel row.1 k = true then groups.map Group.key
      else groups.map Group.key ++ [row.1] := by
  induction groups with
  | nil => rfl
  | cons group groups ih =>
    rw [insert]
    by_cases hsame : rel row.1 group.key = true
    · rw [if_pos hsame, if_pos ⟨group.key, List.mem_cons_self, hsame⟩]
      rfl
    · rw [if_neg hsame, List.map_cons, ih, List.map_cons]
      have hiff : (∃ k ∈ group.key :: groups.map Group.key, rel row.1 k = true) ↔
          ∃ k ∈ groups.map Group.key, rel row.1 k = true := by
        simp [hsame]
      simp only [hiff]
      split_ifs <;> rfl

theorem groupKeys_concat : groupKeys rel (rows ++ [row]) =
    if ∃ k ∈ groupKeys rel rows, rel row.1 k = true then groupKeys rel rows
    else groupKeys rel rows ++ [row.1] := by
  unfold groupKeys
  rw [insertAll_concat, map_key_insert]

theorem mem_of_mem_groupKeys {k : K} (h : k ∈ groupKeys rel rows) : k ∈ rows.map Prod.fst := by
  obtain ⟨group, hgroup, rfl⟩ := List.mem_map.mp h
  obtain ⟨row, hrow, hkey⟩ := key_of_mem_insertAll hgroup
  exact List.mem_map.mpr ⟨row, hrow, hkey.symm⟩

theorem pairwise_groupKeys (rel : K → K → Bool) (rows : List (K × T)) :
    (groupKeys rel rows).Pairwise fun k k' => rel k' k = false := by
  induction rows using List.reverseRecOn with
  | nil => exact List.Pairwise.nil
  | append_singleton rows row ih =>
    rw [groupKeys_concat]
    split_ifs with hknown
    · exact ih
    · refine List.pairwise_append.mpr ⟨ih, List.pairwise_singleton _ _, fun k hk k' hk' => ?_⟩
      cases List.mem_singleton.mp hk'
      exact Bool.eq_false_iff.mpr fun hrel => hknown ⟨k, hk, hrel⟩

theorem exists_mem_groupKeys (hrefl : ∀ row ∈ rows, rel row.1 row.1 = true) :
    ∀ row ∈ rows, ∃ k ∈ groupKeys rel rows, rel row.1 k = true := by
  induction rows using List.reverseRecOn with
  | nil => nofun
  | append_singleton rows row ih =>
    have hrows := ih fun row hmem => hrefl row (List.mem_append_left _ hmem)
    intro row' hmem
    rw [groupKeys_concat]
    split_ifs with hknown
    · rcases List.mem_append.mp hmem with hmem | hmem
      · exact hrows row' hmem
      · cases List.mem_singleton.mp hmem
        exact hknown
    · rcases List.mem_append.mp hmem with hmem | hmem'
      · obtain ⟨k, hk, hrel⟩ := hrows row' hmem
        exact ⟨k, List.mem_append_left _ hk, hrel⟩
      · cases List.mem_singleton.mp hmem'
        exact ⟨row.1, List.mem_append_right _ (List.mem_singleton_self _), hrefl row hmem⟩

theorem groupKeys_goesOn : groupKeys rel rows <+: groupKeys rel (rows ++ [row]) := by
  rw [groupKeys_concat]
  split_ifs
  · exact List.prefix_refl _
  · exact List.prefix_append _ _

end

/-- A row that opens a group keeps its key in every list of keys that goes on like that. -/
theorem not_related_of_goesOn {rel : K → K → Bool} {keys all : List K} {k : K}
    (hgoesOn : keys ++ [k] <+: all) (hall : all.Pairwise fun k k' => rel k' k = false) :
    ¬ ∃ k' ∈ keys, rel k k' = true := by
  rintro ⟨k', hk', hrel⟩
  have hpair := (List.pairwise_append.mp (hall.sublist hgoesOn.sublist)).2.2 k' hk' k
    (List.mem_singleton_self k)
  cases hrel.symm.trans hpair

section

variable {same eqv : K → K → Bool} {rows : List (K × T)}

/-- Two relations that come to the same keys do so row by row. -/
theorem groupKeys_eq_of_goesOn {all : List K} (hsame : groupKeys same rows <+: all)
    (heqv : groupKeys eqv rows <+: all) (hall : all.Pairwise fun k k' => same k' k = false)
    (hall' : all.Pairwise fun k k' => eqv k' k = false) :
    groupKeys same rows = groupKeys eqv rows := by
  induction rows using List.reverseRecOn with
  | nil => rfl
  | append_singleton rows row ih =>
    have hrows := ih (groupKeys_goesOn.trans hsame) (groupKeys_goesOn.trans heqv)
    rw [groupKeys_concat] at hsame
    rw [groupKeys_concat, ← hrows] at heqv
    rw [groupKeys_concat, groupKeys_concat, ← hrows]
    split_ifs at hsame heqv ⊢ with hknown hknown' hknown'
    · rfl
    · exact absurd hknown (not_related_of_goesOn heqv hall)
    · exact absurd hknown' (not_related_of_goesOn hsame hall')
    · rfl

/-- An equivalence of the keys that the other relation does not look into. -/
structure Respects (keys : List K) (same eqv : K → K → Bool) : Prop where
  refl : ∀ k ∈ keys, eqv k k = true
  symm : ∀ k ∈ keys, ∀ k' ∈ keys, eqv k k' = eqv k' k
  trans : ∀ k ∈ keys, ∀ k' ∈ keys, ∀ k'' ∈ keys, eqv k k' = true → eqv k k'' = eqv k' k''
  same_symm : ∀ k ∈ keys, ∀ k' ∈ keys, same k k' = same k' k
  same_congr : ∀ k ∈ keys, ∀ k' ∈ keys, ∀ k'' ∈ keys, eqv k k' = true → same k k'' = same k' k''

theorem Respects.mono {keys keys' : List K} (h : Respects keys same eqv) (hsub : keys' ⊆ keys) :
    Respects keys' same eqv where
  refl k hk := h.refl k (hsub hk)
  symm k hk k' hk' := h.symm k (hsub hk) k' (hsub hk')
  trans k hk k' hk' k'' hk'' := h.trans k (hsub hk) k' (hsub hk') k'' (hsub hk'')
  same_symm k hk k' hk' := h.same_symm k (hsub hk) k' (hsub hk')
  same_congr k hk k' hk' k'' hk'' := h.same_congr k (hsub hk) k' (hsub hk') k'' (hsub hk'')

/-- Beside the keys of groups that are told apart, the two relations agree on a key that opens a
group for both or for none. -/
theorem agree_of_exists_iff {keys : List K} {k : K} (hrespects : Respects (k :: keys) same eqv)
    (hkeys : keys.Pairwise fun k k' => same k' k = false)
    (h : (∃ k' ∈ keys, same k k' = true) ↔ ∃ k' ∈ keys, eqv k k' = true) :
    ∀ k' ∈ keys, same k k' = eqv k k' := by
  have hk : k ∈ k :: keys := List.mem_cons_self
  have hmem : ∀ k' ∈ keys, k' ∈ k :: keys := fun k' => List.mem_cons_of_mem k
  have hdistinct : ∀ a ∈ keys, ∀ b ∈ keys, same a b = true → a = b := by
    intro a ha b hb hsame
    by_contra hne
    have hboth : keys.Pairwise fun k k' => same k k' = false ∧ same k' k = false :=
      hkeys.imp_of_mem fun hmem₁ hmem₂ hfalse =>
        ⟨(hrespects.same_symm _ (hmem _ hmem₁) _ (hmem _ hmem₂)).trans hfalse, hfalse⟩
    have hsymm : Std.Symm fun k k' => same k k' = false ∧ same k' k = false :=
      ⟨fun a b h => ⟨h.2, h.1⟩⟩
    have hab := hboth.forall ha hb hne
    cases hsame.symm.trans hab.1
  intro k' hk'
  rw [Bool.eq_iff_iff]
  constructor
  · intro hsame
    obtain ⟨g, hg, heqv⟩ := h.mp ⟨k', hk', hsame⟩
    have hcongr := hrespects.same_congr k hk g (hmem g hg) k' (hmem k' hk') heqv
    rwa [hdistinct g hg k' hk' (hcongr.symm.trans hsame)] at heqv
  · intro heqv
    obtain ⟨g, hg, hsame⟩ := h.mpr ⟨k', hk', heqv⟩
    have hcongr := hrespects.same_congr k hk k' (hmem k' hk') g (hmem g hg) heqv
    rwa [← hdistinct k' hk' g hg (hcongr.symm.trans hsame)] at hsame

theorem pairwise_of_goesOn {all : List K} (hrespects : Respects (rows.map Prod.fst) same eqv)
    (hsame : groupKeys same rows <+: all) (heqv : groupKeys eqv rows <+: all)
    (hall : all.Pairwise fun k k' => same k' k = false)
    (hall' : all.Pairwise fun k k' => eqv k' k = false) :
    rows.Pairwise fun row row' => same row'.1 row.1 = eqv row'.1 row.1 := by
  induction rows using List.reverseRecOn with
  | nil => exact List.Pairwise.nil
  | append_singleton rows row ih =>
    have hsub : rows.map Prod.fst ⊆ (rows ++ [row]).map Prod.fst := by
      rw [List.map_append]
      exact List.subset_append_left _ _
    have hsame' := groupKeys_goesOn.trans hsame
    have heqv' := groupKeys_goesOn.trans heqv
    have hrows := groupKeys_eq_of_goesOn hsame' heqv' hall hall'
    refine List.pairwise_append.mpr ⟨ih (hrespects.mono hsub) hsame' heqv',
      List.pairwise_singleton _ _, fun row' hrow' last hlast => ?_⟩
    cases List.mem_singleton.mp hlast
    have hboth := groupKeys_eq_of_goesOn hsame heqv hall hall'
    rw [groupKeys_concat, groupKeys_concat, ← hrows] at hboth
    have hiff : (∃ k ∈ groupKeys same rows, same row.1 k = true) ↔
        ∃ k ∈ groupKeys same rows, eqv row.1 k = true := by
      split_ifs at hboth with hknown hknown' hknown'
      · exact iff_of_true hknown hknown'
      · simp at hboth
      · simp at hboth
      · exact iff_of_false hknown hknown'
    have hrow : row.1 ∈ (rows ++ [row]).map Prod.fst := by simp
    have hkeys : row.1 :: groupKeys same rows ⊆ (rows ++ [row]).map Prod.fst :=
      List.cons_subset.mpr ⟨hrow, fun k hk => hsub (mem_of_mem_groupKeys hk)⟩
    have hagree := agree_of_exists_iff (hrespects.mono hkeys) (pairwise_groupKeys same rows) hiff
    -- the row before stands for the key of its group
    obtain ⟨k, hk, hrel⟩ := exists_mem_groupKeys
      (fun row hrow => hrespects.refl row.1 (hsub (List.mem_map_of_mem hrow))) row' hrow'
    rw [← hrows] at hk
    have hrow'' := hsub (List.mem_map_of_mem hrow')
    have hk' := hsub (mem_of_mem_groupKeys hk)
    calc same row.1 row'.1 = same row'.1 row.1 := hrespects.same_symm _ hrow _ hrow''
      _ = same k row.1 := hrespects.same_congr _ hrow'' _ hk' _ hrow hrel
      _ = same row.1 k := hrespects.same_symm _ hk' _ hrow
      _ = eqv row.1 k := hagree k hk
      _ = eqv k row.1 := hrespects.symm _ hrow _ hk'
      _ = eqv row'.1 row.1 := (hrespects.trans _ hrow'' _ hk' _ hrow hrel).symm
      _ = eqv row.1 row'.1 := hrespects.symm _ hrow'' _ hrow

/-- The groups have the keys of an equivalence exactly if no two rows are taken for equal without
being so, or the other way. -/
theorem groupKeys_eq_iff (hrespects : Respects (rows.map Prod.fst) same eqv) :
    groupKeys same rows = groupKeys eqv rows ↔
      rows.Pairwise fun row row' => same row'.1 row.1 = eqv row'.1 row.1 := by
  constructor
  · intro h
    exact pairwise_of_goesOn hrespects (List.prefix_refl _) (h ▸ List.prefix_refl _)
      (pairwise_groupKeys same rows) (h ▸ pairwise_groupKeys eqv rows)
  · intro h
    unfold groupKeys
    rw [insertAll_nil, insertAll_nil, groupRows_congr h]

end

end Grouping

end ObHtap
