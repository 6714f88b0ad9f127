import Mathlib.Data.List.Basic
import Mathlib.Data.List.Induction

/-!
# Grouping

Rows with the same key, in the order in which the keys appear, and rows that join their groups one
after the other.
-/

namespace ObHtap

namespace Grouping

/-- The rows of one key. -/
@[ext]
structure Group (K T : Type) where
  key : K
  first : T
  rest : List T

variable {K T : Type}

namespace Group

def rows (group : Group K T) : List T :=
  group.first :: group.rest

def add (group : Group K T) (row : T) : Group K T :=
  { group with rest := group.rest ++ [row] }

@[simp]
theorem rows_add (group : Group K T) (row : T) : (group.add row).rows = group.rows ++ [row] :=
  rfl

end Group

variable (same : K → K → Bool)

/-- The rows with the key of the first row, and then the groups of the others. -/
def groupRows : List (K × T) → List (Group K T)
  | [] => []
  | row :: rows =>
    ⟨row.1, row.2, (rows.filter fun row' => same row'.1 row.1).map Prod.snd⟩ ::
      groupRows (rows.filter fun row' => !same row'.1 row.1)
termination_by rows => rows.length
decreasing_by
  rw [List.length_unattach, List.length_cons]
  have hle := List.length_filter_le (fun row' => !same row'.1.1 row.1) rows.attach
  rw [List.length_attach] at hle
  exact Nat.lt_succ_of_le hle

/-- A row joins the first group with its key, or makes a new one. -/
def insert (row : K × T) : List (Group K T) → List (Group K T)
  | [] => [⟨row.1, row.2, []⟩]
  | group :: groups =>
    if same row.1 group.key then group.add row.2 :: groups else group :: insert row groups

/-- The rows one after the other. -/
def insertAll (rows : List (K × T)) (groups : List (Group K T)) : List (Group K T) :=
  rows.foldl (fun groups row => insert same row groups) groups

variable {same} {row : K × T} {rows : List (K × T)} {group : Group K T}
  {groups : List (Group K T)}

theorem insertAll_concat :
    insertAll same (rows ++ [row]) groups = insert same row (insertAll same rows groups) :=
  List.foldl_concat _ _ _ _

/-- The first group takes the rows of its key, and the others come to the groups behind it. -/
theorem insertAll_cons :
    insertAll same rows (group :: groups) =
      { group with rest := group.rest ++ (rows.filter fun row => same row.1 group.key).map Prod.snd }
        :: insertAll same (rows.filter fun row => !same row.1 group.key) groups := by
  induction rows generalizing group groups with
  | nil => simp [insertAll]
  | cons row rows ih =>
    have hstep : insertAll same (row :: rows) (group :: groups) =
        insertAll same rows (insert same row (group :: groups)) :=
      rfl
    rw [hstep, insert]
    cases hsame : same row.1 group.key with
    | true =>
      have hgroup : group.rest ++ [row.2] ++ (rows.filter fun row => same row.1 group.key).map
          Prod.snd = group.rest ++ (row :: rows.filter fun row => same row.1 group.key).map
            Prod.snd := by
        rw [List.append_assoc]
        rfl
      rw [if_pos rfl, ih, List.filter_cons_of_pos (by exact hsame),
        List.filter_cons_of_neg (by simp [hsame]), ← hgroup]
      rfl
    | false =>
      rw [if_neg nofun, ih, List.filter_cons_of_neg (by simp [hsame]),
        List.filter_cons_of_pos (by simp [hsame])]
      rfl

theorem insertAll_nil (rows : List (K × T)) : insertAll same rows [] = groupRows same rows := by
  induction rows using groupRows.induct same with
  | case1 => rw [groupRows, insertAll, List.foldl_nil]
  | case2 row rows ih =>
    have hstep : insertAll same (row :: rows) [] = insertAll same rows [⟨row.1, row.2, []⟩] := rfl
    simp only [List.unattach_filter, List.unattach_attach] at ih
    rw [hstep, insertAll_cons, groupRows, ih]
    rfl

theorem length_groupRows_le (rows : List (K × T)) : (groupRows same rows).length ≤ rows.length := by
  induction rows using groupRows.induct same with
  | case1 => simp [groupRows]
  | case2 row rows ih =>
    have hothers := rows.length_filter_le fun row' => !same row'.1 row.1
    simp only [List.unattach_filter, List.unattach_attach] at ih
    rw [groupRows, List.length_cons, List.length_cons]
    omega

/-- What holds of all rows holds of those of each group. -/
theorem forall_rows_of_forall {p : T → Prop} {rows : List (K × T)} (h : ∀ row ∈ rows, p row.2) :
    ∀ group ∈ groupRows same rows, ∀ row ∈ group.rows, p row := by
  induction rows using groupRows.induct same with
  | case1 =>
    rw [groupRows]
    nofun
  | case2 row rows ih =>
    have hrest : ∀ row' ∈ rows, p row'.2 := fun row' hmem => h row' (List.mem_cons_of_mem _ hmem)
    simp only [List.unattach_filter, List.unattach_attach] at ih
    rw [groupRows, List.forall_mem_cons]
    refine ⟨?_, ih fun row' hmem => hrest row' (List.mem_filter.mp hmem).1⟩
    rw [Group.rows, List.forall_mem_cons]
    refine ⟨h row List.mem_cons_self, ?_⟩
    intro row' hmem
    obtain ⟨found, hfound, rfl⟩ := List.mem_map.mp hmem
    exact hrest found (List.mem_filter.mp hfound).1

/-- What holds of the groups with one more row held of the groups before. -/
theorem forall_of_forall_insert {p : Group K T → Prop}
    (hadd : ∀ (group : Group K T) row, p (group.add row) → p group)
    (h : ∀ group ∈ insert same row groups, p group) : ∀ group ∈ groups, p group := by
  induction groups with
  | nil => nofun
  | cons group groups ih =>
    rw [insert] at h
    intro group' hmem
    split_ifs at h
    · rcases List.mem_cons.mp hmem with rfl | hmem
      · exact hadd _ _ (h _ List.mem_cons_self)
      · exact h _ (List.mem_cons_of_mem _ hmem)
    · rcases List.mem_cons.mp hmem with rfl | hmem
      · exact h _ List.mem_cons_self
      · exact ih (fun group hgroup => h group (List.mem_cons_of_mem _ hgroup)) _ hmem

theorem key_of_mem_insert (h : group ∈ insert same row groups) :
    group.key = row.1 ∨ ∃ group' ∈ groups, group.key = group'.key := by
  induction groups with
  | nil =>
    cases List.mem_singleton.mp h
    exact Or.inl rfl
  | cons group' groups ih =>
    rw [insert] at h
    split_ifs at h
    · rcases List.mem_cons.mp h with rfl | hmem
      · exact Or.inr ⟨group', List.mem_cons_self, rfl⟩
      · exact Or.inr ⟨group, List.mem_cons_of_mem _ hmem, rfl⟩
    · rcases List.mem_cons.mp h with rfl | hmem
      · exact Or.inr ⟨group, List.mem_cons_self, rfl⟩
      · rcases ih hmem with hrow | ⟨group'', hgroup, hkey⟩
        · exact Or.inl hrow
        · exact Or.inr ⟨group'', List.mem_cons_of_mem _ hgroup, hkey⟩

theorem key_of_mem_insertAll (h : group ∈ insertAll same rows []) :
    ∃ row ∈ rows, group.key = row.1 := by
  induction rows using List.reverseRecOn generalizing group with
  | nil => cases h
  | append_singleton rows row ih =>
    rw [insertAll_concat] at h
    rcases key_of_mem_insert h with hkey | ⟨group', hgroup, hkey⟩
    · exact ⟨row, List.mem_append_right _ (List.mem_singleton_self row), hkey⟩
    · obtain ⟨row', hrow, hkey'⟩ := ih hgroup
      exact ⟨row', List.mem_append_left _ hrow, hkey.trans hkey'⟩

end Grouping

end ObHtap
