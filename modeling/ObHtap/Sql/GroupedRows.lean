import Mathlib.Data.List.Forall2
import ObHtap.Library.Grouping
import ObHtap.Sql.SelectRows

/-!
# The groups of rows

What a grouping of rows is, and that the group-by operators give it.
-/

namespace ObHtap

namespace Sql

open Cursor

variable {F O : Type} [Floats F]

/-- The keys compare equal. -/
def sameKey (key key' : List (Value F)) : Bool :=
  decide (compareKeys key key' = .ok 0)

variable [StrLike F] [OtherExpr F O]

/-- The aggregators when they have read rows. -/
def aggregatorsOver (calls : List (AggregateCall F O)) (rows : List (Tuple F O)) :
    Except Fault (List (Aggregator F)) :=
  calls.mapM fun call =>
    rows.foldlM (fun aggregator tuple => tuple.eval call.child >>= aggregator.accumulate)
      (Aggregator.create call.aggregateType)

/-- A row for a group: its first row and its aggregates. -/
def groupTuple (calls : List (AggregateCall F O)) (rows : List (Tuple F O)) :
    Except Fault (Tuple F O) := do
  let first ← rows.head?.elim (.ok (.valueList [] [])) makeValueList
  let results ← (← aggregatorsOver calls rows).mapM Aggregator.evaluate
  .ok (.composite [first,
    .valueList (calls.map fun call => ⟨"", "", call.name⟩) (results.map Prod.fst)])

/-- The expressions to group by on a row, with the row. -/
def keyed (groupBy : List (NamedExpr F O)) (tuple : Tuple F O) :
    Except Fault (List (Value F) × Tuple F O) := do
  .ok (← groupBy.mapM fun named => tuple.eval named.expr, tuple)

/-- A row for each group of rows; without expressions to group by all rows are one group. -/
def groupedRows (groupBy : List (NamedExpr F O)) (calls : List (AggregateCall F O))
    (rows : List (Tuple F O)) : Except Fault (List (Tuple F O)) :=
  match groupBy with
  | [] => do .ok [← groupTuple calls rows]
  | groupBy => do
    let keys ← rows.mapM (keyed groupBy)
    (Grouping.groupRows sameKey keys).mapM fun group => groupTuple calls group.rows

/-! ## Aggregators -/

variable {groupBy : List (NamedExpr F O)} {calls : List (AggregateCall F O)}

/-- The arguments of the calls can be read into one `Value`. -/
def ReadsInOne (calls : List (AggregateCall F O)) (tuple : Tuple F O) : Prop :=
  tuple.readsAll .fresh (calls.map AggregateCall.child) = true

/-- One row more. -/
theorem aggregate_of_concat {rows : List (Tuple F O)} {tuple : Tuple F O}
    {aggregators : List (Aggregator F)} {shared : SharedValue}
    (h : aggregatorsOver calls (rows ++ [tuple]) = .ok aggregators)
    (hreads : tuple.readsAll shared (calls.map AggregateCall.child) = true) :
    ∃ before, aggregatorsOver calls rows = .ok before ∧
      aggregate tuple shared calls before = (.ok (), aggregators) := by
  induction calls generalizing aggregators shared with
  | nil =>
    cases h
    refine ⟨[], rfl, ?_⟩
    rw [List.map_nil, Tuple.readsAll] at hreads
    simp [aggregate, SharedValue.destroy, hreads]
  | cons call calls ih =>
    unfold aggregatorsOver at h ih ⊢
    rw [List.mapM_cons] at h
    obtain ⟨aggregator, hone, h⟩ := bind_eq_ok h
    obtain ⟨aggregators', hrest, heq⟩ := bind_eq_ok h
    cases heq
    rw [List.foldlM_append] at hone
    obtain ⟨aggregator', hrows, hone⟩ := bind_eq_ok hone
    rw [List.foldlM_cons] at hone
    obtain ⟨last, hlast, heq⟩ := bind_eq_ok hone
    cases heq
    obtain ⟨value, hvalue, haccumulate⟩ := bind_eq_ok hlast
    rw [List.map_cons, Tuple.readsAll] at hreads
    split at hreads
    next value' shared' hread =>
      cases hvalue.symm.trans (Tuple.eval_of_readInto hread)
      obtain ⟨before, hbefore, haggregate⟩ := ih hrest hreads
      refine ⟨aggregator' :: before, ?_, ?_⟩
      · rw [List.mapM_cons, hrows, hbefore]
        rfl
      · rw [aggregate, hread]
        dsimp only
        rw [haccumulate]
        dsimp only
        rw [haggregate]
    · cases hreads

/-- The aggregators before any row. -/
theorem aggregatorsOver_nil :
    aggregatorsOver calls [] = .ok (calls.map fun call => Aggregator.create call.aggregateType) := by
  induction calls with
  | nil => rfl
  | cons call calls ih =>
    unfold aggregatorsOver at ih ⊢
    rw [List.mapM_cons, ih]
    rfl

/-! ## The groups of a hash group-by -/

/-- A group of the operator that has read the rows of a group. -/
structure Represents (calls : List (AggregateCall F O)) (group : Group F O)
    (rows : Grouping.Group (List (Value F)) (Tuple F O)) : Prop where
  key : group.key = rows.key
  first : ∃ first, makeValueList rows.first = .ok first ∧ group.composite = [first]
  aggregators : aggregatorsOver calls rows.rows = .ok group.aggregators
  reads : ∀ tuple ∈ rows.rows, ReadsInOne calls tuple

/-- The rows of a group can be aggregated. -/
def Aggregates (calls : List (AggregateCall F O))
    (group : Grouping.Group (List (Value F)) (Tuple F O)) : Prop :=
  (∃ first, makeValueList group.first = .ok first) ∧
    (∃ aggregators, aggregatorsOver calls group.rows = .ok aggregators) ∧
      ∀ tuple ∈ group.rows, ReadsInOne calls tuple

theorem Aggregates.of_add {group : Grouping.Group (List (Value F)) (Tuple F O)}
    {tuple : Tuple F O} (h : Aggregates calls (group.add tuple)) : Aggregates calls group := by
  obtain ⟨hfirst, ⟨aggregators, haggregators⟩, hreads⟩ := h
  rw [Grouping.Group.rows_add] at haggregators hreads
  obtain ⟨hbefore, hlast⟩ := List.forall_mem_append.mp hreads
  obtain ⟨before, hrows, -⟩ :=
    aggregate_of_concat haggregators (hlast tuple (List.mem_singleton_self tuple))
  exact ⟨hfirst, ⟨before, hrows⟩, hbefore⟩

variable {groups : List (Group F O)}
  {rowGroups : List (Grouping.Group (List (Value F)) (Tuple F O))} {key : List (Value F)}
  {tuple : Tuple F O}

/-- A row comes into the group of its key, or there is none. -/
theorem aggregateAt_insert (hrep : List.Forall₂ (Represents calls) groups rowGroups)
    (hcompare : ∀ group ∈ rowGroups, ∃ n, compareKeys key group.key = .ok n)
    (haggregates : ∀ group ∈ Grouping.insert sameKey (key, tuple) rowGroups,
      Aggregates calls group) :
    (∃ index groups', indexOfKey key groups = .ok (some index) ∧
        aggregateAt calls tuple groups index = (.ok (), groups') ∧
        List.Forall₂ (Represents calls) groups'
          (Grouping.insert sameKey (key, tuple) rowGroups)) ∨
      indexOfKey key groups = .ok none ∧
        Grouping.insert sameKey (key, tuple) rowGroups = rowGroups ++ [⟨key, tuple, []⟩] := by
  induction hrep with
  | nil => exact Or.inr ⟨rfl, rfl⟩
  | @cons group rowGroup groups rowGroups hgroup hrest ih =>
    obtain ⟨n, hn⟩ := hcompare rowGroup List.mem_cons_self
    have hindex : indexOfKey key (group :: groups) =
        if n = 0 then .ok (some 0) else (indexOfKey key groups).map (Option.map (· + 1)) := by
      rw [indexOfKey, hgroup.key, hn]
      rfl
    rw [Grouping.insert] at haggregates ⊢
    by_cases hzero : n = 0
    · have hsame : sameKey key rowGroup.key = true := decide_eq_true (hzero ▸ hn)
      rw [if_pos hsame] at haggregates ⊢
      rw [if_pos hzero] at hindex
      left
      obtain ⟨-, ⟨aggregators, haggregators⟩, hreads⟩ := haggregates _ List.mem_cons_self
      have hlast := hreads tuple (by rw [Grouping.Group.rows_add]; exact List.mem_concat_self)
      rw [Grouping.Group.rows_add] at haggregators
      obtain ⟨before, hbefore, haggregate⟩ := aggregate_of_concat haggregators hlast
      cases hgroup.aggregators.symm.trans hbefore
      refine ⟨0, { group with aggregators } :: groups, hindex, ?_, ?_⟩
      · unfold aggregateAt
        rw [List.getElem?_cons_zero]
        dsimp only
        rw [haggregate]
        rfl
      · exact .cons ⟨hgroup.key, hgroup.first, haggregators, hreads⟩ hrest
    · have hsame : ¬sameKey key rowGroup.key = true := by
        intro hsame
        exact hzero (Except.ok.inj (hn.symm.trans (of_decide_eq_true hsame)))
      rw [if_neg hsame] at haggregates ⊢
      rw [if_neg hzero] at hindex
      rcases ih (fun group hmem => hcompare group (List.mem_cons_of_mem _ hmem))
        (fun group hmem => haggregates group (List.mem_cons_of_mem _ hmem)) with
        ⟨index, groups', hfound, hat, hrep'⟩ | ⟨hnone, hinsert⟩
      · left
        refine ⟨index + 1, group :: groups', by rw [hindex, hfound]; rfl, ?_, .cons hgroup hrep'⟩
        unfold aggregateAt at hat ⊢
        rw [List.getElem?_cons_succ]
        cases hget : groups[index]? with
        | none =>
          rw [hget] at hat
          cases hat
        | some found =>
          rw [hget] at hat
          obtain ⟨hresult, rfl⟩ := Prod.mk.inj hat
          exact Prod.ext hresult rfl
      · right
        exact ⟨by rw [hindex, hnone]; rfl, by rw [hinsert]; rfl⟩

/-- What `open` does with a row. -/
theorem step_insert {st : HashGroups F O} (hkey : keyed groupBy tuple = .ok (key, tuple))
    (hrep : List.Forall₂ (Represents calls) st.groups rowGroups)
    (hcompare : ∀ group ∈ rowGroups, ∃ n, compareKeys key group.key = .ok n)
    (haggregates : ∀ group ∈ Grouping.insert sameKey (key, tuple) rowGroups,
      Aggregates calls group) :
    ∃ st', HashGroups.step groupBy calls st tuple = (.ok (), st') ∧
      List.Forall₂ (Represents calls) st'.groups
        (Grouping.insert sameKey (key, tuple) rowGroups) := by
  obtain ⟨key', hkey', heq⟩ := bind_eq_ok hkey
  cases heq
  rcases aggregateAt_insert hrep hcompare haggregates with
    ⟨index, groups', hindex, hat, hrep'⟩ | ⟨hindex, hinsert⟩
  · refine ⟨{ st with groups := groups' }, ?_, hrep'⟩
    unfold HashGroups.step
    rw [hkey']
    dsimp only
    rw [hindex]
    dsimp only
    rw [hat]
  · rw [hinsert] at haggregates ⊢
    obtain ⟨⟨first, hfirst⟩, ⟨aggregators, haggregators⟩, hreads⟩ :=
      haggregates ⟨key, tuple, []⟩ (List.mem_append_right _ (List.mem_singleton_self _))
    have hconcat : aggregatorsOver calls ([] ++ [tuple]) = .ok aggregators := haggregators
    obtain ⟨before, hbefore, haggregate⟩ :=
      aggregate_of_concat hconcat (hreads tuple (List.mem_singleton_self _))
    cases aggregatorsOver_nil.symm.trans hbefore
    let group : Group F O :=
      ⟨key, calls.map fun call => Aggregator.create call.aggregateType, [first]⟩
    have hnew : newGroup calls key tuple = .ok group := by
      rw [newGroup, hfirst]
      rfl
    have hat : aggregateAt calls tuple (st.groups ++ [group]) st.groups.length =
        (.ok (), st.groups ++ [{ group with aggregators }]) := by
      unfold aggregateAt
      rw [List.getElem?_concat_length]
      dsimp only
      rw [haggregate, List.set_append_right _ _ (Nat.le_refl _), Nat.sub_self]
      rfl
    refine ⟨{ st with groups := st.groups ++ [{ group with aggregators }], currentGroup := none },
      ?_, ?_⟩
    · unfold HashGroups.step
      rw [hkey']
      dsimp only
      rw [hindex]
      dsimp only
      rw [hnew]
      dsimp only
      rw [hat]
    · apply List.rel_append hrep
      exact .cons ⟨rfl, ⟨first, hfirst, rfl⟩, haggregators, hreads⟩ .nil

/-- The rows are read into their groups. -/
theorem forEach_groups {rows : List (Tuple F O)} {keys : List (List (Value F) × Tuple F O)}
    (last : Fault) (hkeys : rows.mapM (keyed groupBy) = .ok keys)
    (hcompare : ∀ row ∈ keys, ∀ row' ∈ keys, ∃ n, compareKeys row.1 row'.1 = .ok n)
    (haggregates : ∀ group ∈ Grouping.insertAll sameKey keys [], Aggregates calls group) :
    ∃ st, forEachList (HashGroups.step groupBy calls) rows last ⟨[], some 0, false⟩ =
        (.inr last, st) ∧
      List.Forall₂ (Represents calls) st.groups (Grouping.insertAll sameKey keys []) := by
  induction rows using List.reverseRecOn generalizing keys with
  | nil =>
    cases hkeys
    exact ⟨_, rfl, .nil⟩
  | append_singleton rows tuple ih =>
    rw [List.mapM_append] at hkeys
    obtain ⟨keys', hkeys', hlast⟩ := bind_eq_ok hkeys
    obtain ⟨lastKeys, hone, heq⟩ := bind_eq_ok hlast
    cases heq
    rw [List.mapM_cons, List.mapM_nil] at hone
    obtain ⟨⟨key, tuple'⟩, hkey, heq⟩ := bind_eq_ok hone
    cases heq
    obtain rfl : tuple' = tuple := by
      obtain ⟨key', -, heq⟩ := bind_eq_ok hkey
      cases heq
      rfl
    rw [Grouping.insertAll_concat] at haggregates ⊢
    obtain ⟨st, hrows, hrep⟩ := ih hkeys'
      (fun row hrow row' hrow' =>
        hcompare row (List.mem_append_left _ hrow) row' (List.mem_append_left _ hrow'))
      (Grouping.forall_of_forall_insert (fun _ _ => Aggregates.of_add) haggregates)
    have hwith : ∀ group ∈ Grouping.insertAll sameKey keys' [],
        ∃ n, compareKeys key group.key = .ok n := by
      intro group hgroup
      obtain ⟨row, hrow, hgroupKey⟩ := Grouping.key_of_mem_insertAll hgroup
      rw [hgroupKey]
      exact hcompare (key, tuple') (List.mem_append_right _ (List.mem_singleton_self _)) row
        (List.mem_append_left _ hrow)
    obtain ⟨st', hstep, hrep'⟩ := step_insert hkey hrep hwith haggregates
    exact ⟨st', forEachList_concat hrows hstep, hrep'⟩

/-- A group that has read its rows, with its results. -/
theorem evaluate_of_groupTuple {group : Group F O} (rows : List (Tuple F O)) {first : Tuple F O}
    (hfirst : rows.head?.elim (.ok (.valueList [] [])) makeValueList = .ok first)
    (hcomposite : group.composite = [first])
    (haggregators : aggregatorsOver calls rows = .ok group.aggregators)
    (htuple : groupTuple calls rows = .ok tuple) :
    ∃ evaluated, group.evaluate calls = .ok evaluated ∧ .composite evaluated.composite = tuple := by
  obtain ⟨first', hfirst', htuple⟩ := bind_eq_ok htuple
  cases hfirst.symm.trans hfirst'
  obtain ⟨aggregators, haggregators', htuple⟩ := bind_eq_ok htuple
  cases haggregators.symm.trans haggregators'
  obtain ⟨results, hresults, heq⟩ := bind_eq_ok htuple
  cases heq
  refine ⟨{ group with
    aggregators := results.map Prod.snd
    composite := group.composite ++
      [.valueList (calls.map fun call => ⟨"", "", call.name⟩) (results.map Prod.fst)] }, ?_, ?_⟩
  · rw [Group.evaluate, hresults]
    rfl
  · rw [hcomposite]
    rfl

/-- The groups with their results. -/
theorem evaluate_groups (hrep : List.Forall₂ (Represents calls) groups rowGroups)
    {tuples : List (Tuple F O)}
    (htuples : rowGroups.mapM (fun group => groupTuple calls group.rows) = .ok tuples) :
    ∃ evaluated, groups.mapM (Group.evaluate calls) = .ok evaluated ∧
      evaluated.map (fun group => Tuple.composite group.composite) = tuples := by
  induction hrep generalizing tuples with
  | nil =>
    cases htuples
    exact ⟨[], rfl, rfl⟩
  | @cons group rowGroup groups rowGroups hgroup hrest ih =>
    rw [List.mapM_cons] at htuples
    obtain ⟨tuple, hone, htuples⟩ := bind_eq_ok htuples
    obtain ⟨tuples', hothers, heq⟩ := bind_eq_ok htuples
    cases heq
    obtain ⟨first, hfirst, hcomposite⟩ := hgroup.first
    obtain ⟨evaluated, hevaluated, rfl⟩ :=
      evaluate_of_groupTuple rowGroup.rows hfirst hcomposite hgroup.aggregators hone
    obtain ⟨evaluateds, hothers', rfl⟩ := ih hothers
    refine ⟨evaluated :: evaluateds, ?_, rfl⟩
    rw [List.mapM_cons, hevaluated, hothers']
    rfl

/-! ## The operators -/

/-- Groups that can be given can be aggregated. -/
theorem aggregates_of_groupTuple {group : Grouping.Group (List (Value F)) (Tuple F O)}
    (h : groupTuple calls group.rows = .ok tuple)
    (hreads : ∀ tuple ∈ group.rows, ReadsInOne calls tuple) : Aggregates calls group := by
  obtain ⟨first, hfirst, h⟩ := bind_eq_ok h
  obtain ⟨aggregators, haggregators, -⟩ := bind_eq_ok h
  exact ⟨⟨first, hfirst⟩, ⟨aggregators, haggregators⟩, hreads⟩

/-- There are no more groups than rows, but for the group of no row. -/
theorem length_groupedRows_le {rows tuples : List (Tuple F O)}
    (h : groupedRows groupBy calls rows = .ok tuples) : tuples.length ≤ max 1 rows.length := by
  cases groupBy with
  | nil =>
    obtain ⟨tuple, -, heq⟩ := bind_eq_ok h
    cases heq
    exact le_max_left _ _
  | cons named groupBy =>
    obtain ⟨keys, hkeys, hgroups⟩ := bind_eq_ok h
    rw [length_of_mapM hgroups, ← length_of_mapM hkeys]
    exact (Grouping.length_groupRows_le keys).trans (le_max_right _ _)

/-- The keys of the rows can be compared. -/
def KeysCompare (groupBy : List (NamedExpr F O)) (rows : List (Tuple F O)) : Prop :=
  ∀ keys, rows.mapM (keyed groupBy) = .ok keys →
    ∀ row ∈ keys, ∀ row' ∈ keys, ∃ n, compareKeys row.1 row'.1 = .ok n

/-- Without expressions to group by there is one key. -/
theorem keysCompare_nil (rows : List (Tuple F O)) : KeysCompare [] rows := by
  intro keys hkeys row hrow row' hrow'
  have hempty : ∀ row ∈ keys, row.1 = [] := by
    intro row hrow
    obtain ⟨tuple, -, hkeyed⟩ := of_mem_mapM hkeys hrow
    cases hkeyed
    rfl
  rw [hempty row hrow, hempty row' hrow']
  exact ⟨0, rfl⟩

/-- A hash group-by gives the groups of all rows. -/
theorem hashGroups_eq {rows tuples : List (Tuple F O)} (hne : groupBy ≠ [])
    (htuples : groupedRows groupBy calls rows = .ok tuples) (hcompare : KeysCompare groupBy rows)
    (hreads : ∀ tuple ∈ rows, ReadsInOne calls tuple) :
    ∃ groups, hashGroups groupBy calls (rows, eof) = (.ok (), groups) ∧
      groups.tuples = (tuples, eof) := by
  obtain ⟨keys, hkeys, hgroups⟩ : ∃ keys, rows.mapM (keyed groupBy) = .ok keys ∧
      (Grouping.groupRows sameKey keys).mapM (fun group => groupTuple calls group.rows) =
        .ok tuples := by
    cases groupBy with
    | nil => exact absurd rfl hne
    | cons named groupBy => exact bind_eq_ok htuples
  have hkeyReads : ∀ row ∈ keys, ReadsInOne calls row.2 := by
    intro row hrow
    obtain ⟨tuple, htuple, hkeyed⟩ := of_mem_mapM hkeys hrow
    obtain ⟨key, -, heq⟩ := bind_eq_ok hkeyed
    cases heq
    exact hreads tuple htuple
  have hgroupReads : ∀ group ∈ Grouping.groupRows sameKey keys, ∀ tuple ∈ group.rows,
      ReadsInOne calls tuple :=
    Grouping.forall_rows_of_forall hkeyReads
  rw [← Grouping.insertAll_nil] at hgroups hgroupReads
  have haggregates : ∀ group ∈ Grouping.insertAll sameKey keys [], Aggregates calls group := by
    intro group hmem
    obtain ⟨tuple, htuple⟩ := ok_of_mem_mapM hgroups hmem
    exact aggregates_of_groupTuple htuple (hgroupReads group hmem)
  obtain ⟨st, hrows, hrep⟩ := forEach_groups eof hkeys (hcompare keys hkeys) haggregates
  obtain ⟨evaluated, hevaluated, hmap⟩ := evaluate_groups hrep hgroups
  refine ⟨⟨evaluated, some 0, false⟩, ?_, ?_⟩
  · have hfinish : st.finish calls (.inr eof) = (.ok (), ⟨evaluated, some 0, false⟩) := by
      rw [eof, HashGroups.finish, hevaluated]
    unfold hashGroups
    rw [hrows]
    exact hfinish
  · rw [← hmap]
    rfl

/-- What `open` does with one more row. -/
theorem scalarGroupStep_eq {group : Group F O} {aggregators : List (Aggregator F)}
    (haggregate : aggregate tuple .fresh calls group.aggregators = (.ok (), aggregators)) :
    scalarGroupStep calls (some group) tuple = (.ok (), some { group with aggregators }) := by
  rw [scalarGroupStep]
  change ((aggregate tuple .fresh calls group.aggregators).1,
    some { group with aggregators := (aggregate tuple .fresh calls group.aggregators).2 }) = _
  rw [haggregate]

/-- The scalar group has read the rows. -/
theorem forEach_scalarGroup {rows : List (Tuple F O)} (last : Fault)
    {aggregators : List (Aggregator F)} {first : Tuple F O}
    (hfirst : makeValueList tuple = .ok first)
    (haggregators : aggregatorsOver calls (tuple :: rows) = .ok aggregators)
    (hreads : ∀ tuple' ∈ tuple :: rows, ReadsInOne calls tuple') :
    forEachList (scalarGroupStep calls) (tuple :: rows) last none =
      (.inr last, some ⟨[], aggregators, [first]⟩) := by
  induction rows using List.reverseRecOn generalizing aggregators with
  | nil =>
    have hconcat : aggregatorsOver calls ([] ++ [tuple]) = .ok aggregators := haggregators
    obtain ⟨before, hbefore, haggregate⟩ :=
      aggregate_of_concat hconcat (hreads tuple (List.mem_singleton_self tuple))
    cases aggregatorsOver_nil.symm.trans hbefore
    have hstep : scalarGroupStep calls none tuple = (.ok (), some ⟨[], aggregators, [first]⟩) := by
      have hnew : newGroup calls [] tuple = .ok ⟨[], calls.map fun call =>
          Aggregator.create call.aggregateType, [first]⟩ := by
        rw [newGroup, hfirst]
        rfl
      rw [scalarGroupStep, Option.elim_none, hnew]
      dsimp only
      rw [haggregate]
    rw [forEachList, hstep]
    rfl
  | append_singleton rows tuple' ih =>
    rw [← List.cons_append] at haggregators hreads ⊢
    obtain ⟨hrows, hlast⟩ := List.forall_mem_append.mp hreads
    obtain ⟨before, hbefore, haggregate⟩ :=
      aggregate_of_concat haggregators (hlast tuple' (List.mem_singleton_self tuple'))
    exact forEachList_concat (ih hbefore hrows) (scalarGroupStep_eq haggregate)

/-- A scalar group-by gives one group of all rows. -/
theorem scalarGroup_eq {rows tuples : List (Tuple F O)}
    (htuples : groupedRows [] calls rows = .ok tuples)
    (hreads : ∀ tuple ∈ rows, ReadsInOne calls tuple) :
    ∃ member, scalarGroup calls (rows, eof) = (.ok (), member) ∧
      scalarTuples member = (tuples, eof) := by
  obtain ⟨tuple, htuple, heq⟩ := bind_eq_ok htuples
  cases heq
  have hread : ∃ group, (forEachList (scalarGroupStep calls) rows eof none).1 = .inr eof ∧
      ((forEachList (scalarGroupStep calls) rows eof none).2.getD (emptyGroup calls)) = group ∧
      ∃ evaluated, group.evaluate calls = .ok evaluated ∧
        .composite evaluated.composite = tuple := by
    obtain ⟨first, hfirst, hrest⟩ := bind_eq_ok htuple
    obtain ⟨aggregators, haggregators, -⟩ := bind_eq_ok hrest
    cases rows with
    | nil =>
      cases aggregatorsOver_nil.symm.trans haggregators
      cases hfirst
      exact ⟨_, rfl, rfl, evaluate_of_groupTuple [] rfl rfl aggregatorsOver_nil htuple⟩
    | cons row rows =>
      have hrows := forEach_scalarGroup eof hfirst haggregators hreads
      rw [hrows]
      exact ⟨_, rfl, rfl, evaluate_of_groupTuple (row :: rows) hfirst rfl haggregators htuple⟩
  obtain ⟨group, hended, hgroup, evaluated, hevaluated, rfl⟩ := hread
  refine ⟨(some evaluated, false), ?_, rfl⟩
  unfold scalarGroup
  dsimp only
  rw [hended, eof, scalarGroupFinish, ← eof, hgroup, hevaluated]

end Sql

end ObHtap
