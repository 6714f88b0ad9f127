import ObHtap.Sql.AggregateNulls
import ObHtap.Sql.GroupedRows

/-!
# The groups that an opened hash group-by has

A hash group-by can be opened if the rows of each of its groups can be aggregated, and then it has
these groups.
-/

namespace ObHtap

namespace Sql

open Cursor

variable {F O : Type} [Floats F] [StrLike F] [OtherExpr F O] {groupBy : List (NamedExpr F O)}
  {calls : List (AggregateCall F O)} {key : List (Value F)} {tuple : Tuple F O}

/-! ## Lists -/

theorem exists_of_forall₂ {α β : Type} {R : α → β → Prop} {l : List α} {l' : List β}
    (h : List.Forall₂ R l l') {b : β} (hb : b ∈ l') : ∃ a ∈ l, R a b := by
  induction h with
  | nil => cases hb
  | cons hhead htail ih =>
    rcases List.mem_cons.mp hb with rfl | hb
    · exact ⟨_, List.mem_cons_self, hhead⟩
    · obtain ⟨a, ha, hR⟩ := ih hb
      exact ⟨a, List.mem_cons_of_mem _ ha, hR⟩

/-! ## Aggregators -/

/-- The values of an aggregate function's argument on rows. -/
def argumentsOf (call : AggregateCall F O) (rows : List (Tuple F O)) :
    Except Fault (List (Value F)) :=
  rows.mapM fun tuple => tuple.eval call.child

/-- Two aggregates of a row after the other. -/
theorem aggregatorsOver_concat {rows : List (Tuple F O)} {before after : List (Aggregator F)}
    {shared : SharedValue} (h : aggregatorsOver calls rows = .ok before)
    (haggregate : aggregate tuple shared calls before = (.ok (), after)) :
    aggregatorsOver calls (rows ++ [tuple]) = .ok after ∧
      tuple.readsAll shared (calls.map AggregateCall.child) = true := by
  induction calls generalizing before after shared with
  | nil =>
    cases h
    simp only [aggregate, SharedValue.destroy, Prod.mk.injEq] at haggregate
    obtain ⟨hreset, rfl⟩ := haggregate
    refine ⟨rfl, ?_⟩
    by_contra hnone
    have hsome : ¬ shared.reset.isSome = true := hnone
    rw [if_neg hsome] at hreset
    cases hreset
  | cons call calls ih =>
    unfold aggregatorsOver at h ih ⊢
    rw [List.mapM_cons] at h
    obtain ⟨aggregator, hone, h⟩ := bind_eq_ok h
    obtain ⟨aggregators, hrest, heq⟩ := bind_eq_ok h
    cases heq
    rw [aggregate] at haggregate
    cases hread : tuple.readInto call.child shared with
    | error fault =>
      rw [hread] at haggregate
      exact absurd (congrArg Prod.fst haggregate) (SharedValue.destroy_error shared fault)
    | ok read =>
      obtain ⟨value, shared'⟩ := read
      rw [hread] at haggregate
      dsimp only at haggregate
      cases haccumulate : aggregator.accumulate value with
      | error fault =>
        rw [haccumulate] at haggregate
        exact absurd (congrArg Prod.fst haggregate) (SharedValue.destroy_error shared' fault)
      | ok aggregator' =>
        rw [haccumulate] at haggregate
        obtain ⟨hresult, rfl⟩ := Prod.mk.inj haggregate
        obtain ⟨hothers, hreads⟩ := ih hrest (Prod.ext hresult rfl)
        refine ⟨?_, ?_⟩
        · rw [List.mapM_cons, List.foldlM_append, hone, hothers]
          change ((tuple.eval call.child >>= aggregator.accumulate) >>= _) >>= _ = _
          rw [Tuple.eval_of_readInto hread]
          change (aggregator.accumulate value >>= _) >>= _ = _
          rw [haccumulate]
          rfl
        · rw [List.map_cons, Tuple.readsAll, hread]
          exact hreads

/-! ## Rows that come into their groups -/

variable {groups groups' : List (Group F O)}
  {rowGroups : List (Grouping.Group (List (Value F)) (Tuple F O))} {index : Nat}

theorem represents_of_aggregateAt (hrep : List.Forall₂ (Represents calls) groups rowGroups)
    (hindex : indexOfKey key groups = .ok (some index))
    (hat : aggregateAt calls tuple groups index = (.ok (), groups')) :
    List.Forall₂ (Represents calls) groups' (Grouping.insert sameKey (key, tuple) rowGroups) := by
  induction hrep generalizing index groups' with
  | nil => cases hindex
  | @cons group rowGroup groups rowGroups hgroup hrest ih =>
    rw [indexOfKey, hgroup.key] at hindex
    obtain ⟨n, hn, hindex⟩ := bind_eq_ok hindex
    rw [Grouping.insert]
    split_ifs at hindex with hzero
    · cases hindex
      have hsame : sameKey key rowGroup.key = true := decide_eq_true (hzero ▸ hn)
      rw [if_pos hsame]
      unfold aggregateAt at hat
      rw [List.getElem?_cons_zero] at hat
      obtain ⟨hresult, rfl⟩ := Prod.mk.inj hat
      obtain ⟨haggregators, hreads⟩ :=
        aggregatorsOver_concat hgroup.aggregators (Prod.ext hresult rfl)
      refine .cons ⟨hgroup.key, hgroup.first, haggregators, ?_⟩ hrest
      rw [Grouping.Group.rows_add]
      exact List.forall_mem_append.mpr ⟨hgroup.reads, List.forall_mem_singleton.mpr hreads⟩
    · have hsame : ¬ sameKey key rowGroup.key = true := fun hsame =>
        hzero (Except.ok.inj (hn.symm.trans (of_decide_eq_true hsame)))
      obtain ⟨found, hfound, heq⟩ := map_eq_ok hindex
      obtain ⟨index', rfl, rfl⟩ := Option.map_eq_some_iff.mp heq
      rw [if_neg hsame]
      unfold aggregateAt at hat ih
      rw [List.getElem?_cons_succ] at hat
      cases hget : groups[index']? with
      | none =>
        rw [hget] at hat
        cases hat
      | some found =>
        rw [hget] at hat
        obtain ⟨hresult, rfl⟩ := Prod.mk.inj hat
        refine .cons hgroup (ih hfound ?_)
        rw [hget]
        exact Prod.ext hresult rfl

/-- A row with a new key. -/
theorem insert_of_indexOfKey (hrep : List.Forall₂ (Represents calls) groups rowGroups)
    (hindex : indexOfKey key groups = .ok none) :
    Grouping.insert sameKey (key, tuple) rowGroups = rowGroups ++ [⟨key, tuple, []⟩] := by
  induction hrep with
  | nil => rfl
  | @cons group rowGroup groups rowGroups hgroup hrest ih =>
    rw [indexOfKey, hgroup.key] at hindex
    obtain ⟨n, hn, hindex⟩ := bind_eq_ok hindex
    split_ifs at hindex with hzero
    · cases hindex
    · have hsame : ¬ sameKey key rowGroup.key = true := fun hsame =>
        hzero (Except.ok.inj (hn.symm.trans (of_decide_eq_true hsame)))
      obtain ⟨found, hfound, heq⟩ := map_eq_ok hindex
      obtain rfl := Option.map_eq_none_iff.mp heq
      rw [Grouping.insert, if_neg hsame, ih hfound]
      rfl

/-- What `open` has done with a row. -/
theorem represents_of_step {st st' : HashGroups F O} (hkey : keyed groupBy tuple = .ok (key, tuple))
    (hrep : List.Forall₂ (Represents calls) st.groups rowGroups)
    (hstep : HashGroups.step groupBy calls st tuple = (.ok (), st')) :
    List.Forall₂ (Represents calls) st'.groups
      (Grouping.insert sameKey (key, tuple) rowGroups) := by
  obtain ⟨key', hkey', heq⟩ := bind_eq_ok hkey
  cases heq
  unfold HashGroups.step at hstep
  rw [hkey'] at hstep
  dsimp only at hstep
  split at hstep
  · cases hstep
  next index hindex =>
    obtain ⟨hresult, rfl⟩ := Prod.mk.inj hstep
    exact represents_of_aggregateAt hrep hindex (Prod.ext hresult rfl)
  next hindex =>
    split at hstep
    · cases hstep
    next group hgroup =>
      obtain ⟨first, hfirst, heq⟩ := bind_eq_ok hgroup
      cases heq
      obtain ⟨hresult, rfl⟩ := Prod.mk.inj hstep
      rw [insert_of_indexOfKey hrep hindex]
      unfold aggregateAt at hresult ⊢
      rw [List.getElem?_concat_length] at hresult ⊢
      dsimp only at hresult ⊢
      rw [List.set_append_right _ _ (Nat.le_refl _), Nat.sub_self]
      obtain ⟨haggregators, hreads⟩ :=
        aggregatorsOver_concat aggregatorsOver_nil (Prod.ext hresult rfl)
      exact List.rel_append hrep (.cons ⟨rfl, ⟨first, hfirst, rfl⟩, haggregators,
        List.forall_mem_singleton.mpr hreads⟩ .nil)

/-- What `open` has done with all rows. -/
theorem represents_of_forEach {rows : List (Tuple F O)} {keys : List (List (Value F) × Tuple F O)}
    {st st' : HashGroups F O} {last : Fault} (hkeys : rows.mapM (keyed groupBy) = .ok keys)
    (hrep : List.Forall₂ (Represents calls) st.groups rowGroups)
    (hrows : forEachList (HashGroups.step groupBy calls) rows last st = (.inr last, st')) :
    List.Forall₂ (Represents calls) st'.groups (Grouping.insertAll sameKey keys rowGroups) := by
  induction rows generalizing keys st rowGroups with
  | nil =>
    cases hkeys
    cases hrows
    exact hrep
  | cons tuple rows ih =>
    rw [List.mapM_cons] at hkeys
    obtain ⟨⟨key, tuple'⟩, hkey, hkeys⟩ := bind_eq_ok hkeys
    obtain ⟨keys', hkeys', heq⟩ := bind_eq_ok hkeys
    cases heq
    obtain rfl : tuple' = tuple := by
      obtain ⟨key', -, heq⟩ := bind_eq_ok hkey
      cases heq
      rfl
    rw [forEachList] at hrows
    cases hstep : HashGroups.step groupBy calls st tuple' with
    | mk result st₁ =>
      rw [hstep] at hrows
      cases result with
      | error fault => cases hrows
      | ok u =>
        have hall := ih hkeys' (represents_of_step hkey hrep hstep) hrows
        exact hall

/-! ## The groups with their results -/

/-- A group of the operator with the first row of a group of rows and its aggregates. -/
structure Evaluated (calls : List (AggregateCall F O)) (group : Group F O)
    (rowGroup : Grouping.Group (List (Value F)) (Tuple F O)) : Prop where
  key : group.key = rowGroup.key
  composite : ∃ first aggregators results, makeValueList rowGroup.first = .ok first ∧
    aggregatorsOver calls rowGroup.rows = .ok aggregators ∧
    aggregators.mapM Aggregator.evaluate = .ok results ∧
    group.composite =
      [first, .valueList (calls.map fun call => ⟨"", "", call.name⟩) (results.map Prod.fst)]
  reads : ∀ tuple ∈ rowGroup.rows, ReadsInOne calls tuple

theorem evaluated_of_evaluate {group evaluated : Group F O}
    {rowGroup : Grouping.Group (List (Value F)) (Tuple F O)}
    (hrep : Represents calls group rowGroup) (h : group.evaluate calls = .ok evaluated) :
    Evaluated calls evaluated rowGroup := by
  obtain ⟨results, hresults, heq⟩ := bind_eq_ok h
  cases heq
  obtain ⟨first, hfirst, hcomposite⟩ := hrep.first
  refine ⟨hrep.key, ⟨first, group.aggregators, results, hfirst, hrep.aggregators, hresults, ?_⟩,
    hrep.reads⟩
  change group.composite ++ _ = _
  rw [hcomposite]
  rfl

theorem evaluated_of_mapM {evaluated : List (Group F O)}
    (hrep : List.Forall₂ (Represents calls) groups rowGroups)
    (h : groups.mapM (Group.evaluate calls) = .ok evaluated) :
    List.Forall₂ (Evaluated calls) evaluated rowGroups := by
  induction hrep generalizing evaluated with
  | nil =>
    cases h
    exact .nil
  | cons hgroup hrest ih =>
    rw [List.mapM_cons] at h
    obtain ⟨group', hone, h⟩ := bind_eq_ok h
    obtain ⟨groups', hothers, heq⟩ := bind_eq_ok h
    cases heq
    exact .cons (evaluated_of_evaluate hgroup hone) (ih hothers)

variable {rows : List (Tuple F O)} {keys : List (List (Value F) × Tuple F O)}

/-- An opened operator has the groups of the rows. -/
theorem evaluated_of_hashGroups {st : HashGroups F O} (hkeys : rows.mapM (keyed groupBy) = .ok keys)
    (h : hashGroups groupBy calls (rows, eof) = (.ok (), st)) :
    List.Forall₂ (Evaluated calls) st.groups (Grouping.groupRows sameKey keys) ∧
      st.tuples = (st.groups.map fun group => .composite group.composite, eof) := by
  unfold hashGroups at h
  dsimp only at h
  generalize hrows : forEachList (HashGroups.step groupBy calls) rows eof ⟨[], some 0, false⟩ =
    result at h
  obtain ⟨ended, groups⟩ := result
  cases ended with
  | inl fault => cases h
  | inr fault =>
    cases fault with
    | abort | outOfFuel => cases h
    | rc rc =>
      cases rc with
      | recordEof =>
        unfold HashGroups.finish at h
        dsimp only at h
        cases hevaluated : groups.groups.mapM (Group.evaluate calls) with
        | error fault =>
          rw [hevaluated] at h
          cases h
        | ok evaluated =>
          rw [hevaluated] at h
          cases h
          rw [← Grouping.insertAll_nil]
          exact ⟨evaluated_of_mapM (represents_of_forEach hkeys .nil hrows) hevaluated, rfl⟩
      | _ => cases h

theorem groupTuple_of_parts {rowGroup : Grouping.Group (List (Value F)) (Tuple F O)}
    {first : Tuple F O} {aggregators : List (Aggregator F)}
    {results : List (Value F × Aggregator F)}
    (hfirst : makeValueList rowGroup.first = .ok first)
    (haggregators : aggregatorsOver calls rowGroup.rows = .ok aggregators)
    (hresults : aggregators.mapM Aggregator.evaluate = .ok results) :
    groupTuple calls rowGroup.rows = .ok (.composite [first,
      .valueList (calls.map fun call => ⟨"", "", call.name⟩) (results.map Prod.fst)]) := by
  have hhead : rowGroup.rows.head?.elim (.ok (.valueList [] [])) makeValueList = .ok first := hfirst
  rw [groupTuple, hhead, haggregators]
  change (aggregators.mapM Aggregator.evaluate >>= _) = _
  rw [hresults]
  rfl

variable (calls) in
/-- The operator can be opened exactly if the rows of each group can be aggregated, and their cells
read into one `Value`. -/
theorem hashGroups_iff (hkeys : rows.mapM (keyed groupBy) = .ok keys)
    (hcompare : KeysCompare groupBy rows) :
    (∃ st, hashGroups groupBy calls (rows, eof) = (.ok (), st)) ↔
      ∀ rowGroup ∈ Grouping.groupRows sameKey keys,
        (∃ tuple, groupTuple calls rowGroup.rows = .ok tuple) ∧
          ∀ tuple ∈ rowGroup.rows, ReadsInOne calls tuple := by
  constructor
  · intro ⟨st, h⟩ rowGroup hmem
    obtain ⟨hevaluated, -⟩ := evaluated_of_hashGroups hkeys h
    obtain ⟨group, -, hgroup⟩ := exists_of_forall₂ hevaluated hmem
    obtain ⟨first, aggregators, results, hfirst, haggregators, hresults, -⟩ := hgroup.composite
    exact ⟨⟨_, groupTuple_of_parts hfirst haggregators hresults⟩, hgroup.reads⟩
  · intro h
    have hall : ∃ tuples, (Grouping.groupRows sameKey keys).mapM
        (fun rowGroup => groupTuple calls rowGroup.rows) = .ok tuples :=
      mapM_of_forall fun rowGroup hmem => (h rowGroup hmem).1
    obtain ⟨tuples, htuples⟩ := hall
    rw [← Grouping.insertAll_nil] at htuples h
    obtain ⟨st, hrows, hrep⟩ := forEach_groups eof hkeys (hcompare keys hkeys) fun group hmem =>
      (h group hmem).1.elim fun tuple htuple =>
        aggregates_of_groupTuple htuple (h group hmem).2
    obtain ⟨evaluated, hevaluated, -⟩ := evaluate_groups hrep htuples
    refine ⟨⟨evaluated, some 0, false⟩, ?_⟩
    unfold hashGroups
    dsimp only
    rw [hrows, eof, HashGroups.finish, hevaluated]

end Sql

end ObHtap
