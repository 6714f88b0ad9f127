import Mathlib.Analysis.Real.Sqrt
import ObHtap.Ivfflat.Search

/-!
# Runs of an indexed table

Records are inserted and the centroids updated.  The index then finds what the table holds exactly
if no step leaves a vector without a cluster, which the next update does not survive.
-/

namespace ObHtap

namespace Ivfflat

variable {F : Type} {dim : Nat} {operations : List (Operation F dim)}

/-- The records that are inserted. -/
def inserted : List (Operation F dim) → List (Entry F dim)
  | [] => []
  | .insert entry :: operations => entry :: inserted operations
  | .updateCentroids _ :: operations => inserted operations

/-- Every record comes with a RID of its own, and a scan finds the records of the table. -/
def ValidStep (records : List (Entry F dim)) : Operation F dim → Prop
  | .insert entry => ∀ record ∈ records, record.1 ≠ entry.1
  | .updateCentroids scanned => scanned.Perm records

def ValidFrom (records : List (Entry F dim)) : List (Operation F dim) → Prop
  | [] => True
  | operation :: operations =>
    ValidStep records operation ∧ ValidFrom (records ++ inserted [operation]) operations

theorem inserted_cons (operation : Operation F dim) (operations : List (Operation F dim)) :
    inserted (operation :: operations) = inserted [operation] ++ inserted operations := by
  cases operation <;> rfl

theorem exists_featureOf {records : List (Entry F dim)} {entry : Entry F dim}
    (h : entry ∈ records) : ∃ feature, featureOf records entry = .ok feature := by
  unfold featureOf
  split
  · exact ⟨_, rfl⟩
  · next hnone => exact absurd (decide_eq_true rfl) (List.find?_eq_none.mp hnone entry h)

/-- The lists hold the records of the table, each with a RID of its own. -/
structure Holds (table : IndexedTable F dim) : Prop where
  perm : table.records.Perm (clustered table.index ++ missed table.index)
  nodup : (table.records.map (·.1)).Nodup

theorem length_created (type : DisType) (lists probes : Nat) (random : Nat → Nat → F) :
    (created type lists probes random : IndexedTable F dim).index.centroids.length = lists := by
  rw [created, create, initCentroids, List.length_map, List.length_range]

theorem holds_created (type : DisType) (lists probes : Nat) (random : Nat → Nat → F) :
    Holds (created type lists probes random : IndexedTable F dim) := by
  refine ⟨?_, List.nodup_nil⟩
  have hnone : clustered (created type lists probes random : IndexedTable F dim).index = [] :=
    List.flatMap_eq_nil_iff.mpr fun _ _ => rfl
  rw [hnone]
  exact .refl _

variable [ExactFloats F] {table : IndexedTable F dim}

/-- A step finds a cluster for each vector that it puts into the lists. -/
def StepClusters (table : IndexedTable F dim) : Operation F dim → Prop
  | .insert entry => HasCluster table.index.type table.index.centroids entry.2
  | .updateCentroids scanned =>
    ∀ centroids, newCentroids table.records table.index = .ok centroids →
      ∀ entry ∈ scanned, HasCluster table.index.type centroids entry.2

/-- All steps do. -/
def AllClustered (table : IndexedTable F dim) : List (Operation F dim) → Prop
  | [] => True
  | operation :: operations => StepClusters table operation ∧
    ∀ table', table.step operation = .ok table' → AllClustered table' operations

theorem insertEntry_perm (index : IvfflatIndex F dim) (entry : Entry F dim) :
    (clustered (insertEntry index entry) ++ missed (insertEntry index entry)).Perm
      (entry :: (clustered index ++ missed index)) := by
  by_cases h : HasCluster index.type index.centroids entry.2
  · obtain ⟨hperm, hmissed⟩ := insertEntry_of_hasCluster h
    rw [hmissed]
    exact hperm.append_right _
  · obtain ⟨hclustered, hmissed⟩ := insertEntry_of_not_hasCluster h
    rw [hclustered, hmissed, ← List.append_assoc]
    exact List.perm_append_singleton _ _

theorem missed_insertEntry (index : IvfflatIndex F dim) (entry : Entry F dim) :
    missed (insertEntry index entry) = [] ↔
      missed index = [] ∧ HasCluster index.type index.centroids entry.2 := by
  by_cases h : HasCluster index.type index.centroids entry.2
  · rw [(insertEntry_of_hasCluster h).2, and_iff_left h]
  · rw [(insertEntry_of_not_hasCluster h).2, List.append_eq_nil_iff]
    exact iff_of_false (fun hnil => List.cons_ne_nil _ _ hnil.2) fun hboth => h hboth.2

theorem foldl_insertEntry (index : IvfflatIndex F dim) (scanned : List (Entry F dim)) :
    (scanned.foldl insertEntry index).type = index.type ∧
      (scanned.foldl insertEntry index).probes = index.probes ∧
      (scanned.foldl insertEntry index).centroids = index.centroids ∧
      (clustered (scanned.foldl insertEntry index) ++
        missed (scanned.foldl insertEntry index)).Perm
          (scanned ++ (clustered index ++ missed index)) ∧
      (missed (scanned.foldl insertEntry index) = [] ↔
        missed index = [] ∧ ∀ entry ∈ scanned, HasCluster index.type index.centroids entry.2) := by
  induction scanned generalizing index with
  | nil => exact ⟨rfl, rfl, rfl, .refl _, by simp⟩
  | cons entry scanned ih =>
    obtain ⟨htype, hprobes, hcentroids, hperm, hmissed⟩ := ih (insertEntry index entry)
    refine ⟨htype, hprobes, hcentroids, ?_, ?_⟩
    · refine hperm.trans ?_
      exact ((insertEntry_perm index entry).append_left scanned).trans List.perm_middle
    · rw [List.foldl_cons, hmissed, List.forall_mem_cons, missed_insertEntry, and_assoc]
      rfl

/-- The centroids are updated unless an entry has no cluster. -/
theorem exists_newCentroids (hholds : Holds table) (hmissed : missed table.index = []) :
    ∃ centroids, newCentroids table.records table.index = .ok centroids := by
  have hnone : table.index.invertedList (-1) = [] := hmissed
  rw [newCentroids, if_neg (not_not_intro hnone)]
  apply mapM_of_forall
  rintro ⟨centroid, i⟩ hmem
  have hi : i < table.index.centroids.length := List.snd_lt_of_mem_zipIdx hmem
  obtain ⟨features, hfeatures⟩ : ∃ features,
      (table.index.invertedList i).mapM (featureOf table.records) = .ok features := by
    apply mapM_of_forall
    intro entry hentry
    have hrecord : entry ∈ table.records := by
      rw [hholds.perm.mem_iff, List.mem_append]
      exact .inl (List.mem_flatMap.mpr ⟨i, List.mem_range.mpr hi, hentry⟩)
    exact exists_featureOf hrecord
  simp only [newCentroid, hfeatures, ok_bind]
  exact ⟨_, rfl⟩

theorem length_newCentroids {centroids : List (Vector F dim)}
    (h : newCentroids table.records table.index = .ok centroids) :
    centroids.length = table.index.centroids.length ∧ missed table.index = [] := by
  rw [newCentroids] at h
  split_ifs at h with hmissed
  exact ⟨(length_of_mapM h).trans List.length_zipIdx, not_not.mp hmissed⟩

theorem step_updateCentroids {scanned : List (Entry F dim)} {table' : IndexedTable F dim}
    (h : table.step (.updateCentroids scanned) = .ok table') :
    ∃ centroids, newCentroids table.records table.index = .ok centroids ∧
      table' = ⟨table.records, scanned.foldl insertEntry
        { table.index with centroids := centroids, invertedList := fun _ => [] }⟩ := by
  obtain ⟨index, hindex, rfl⟩ := map_eq_ok h
  obtain ⟨centroids, hcentroids, hrest⟩ := bind_eq_ok hindex
  exact ⟨centroids, hcentroids, congrArg _ (Except.ok.inj hrest).symm⟩

/-- A step keeps the lists complete, and says by what it misses whether it finds all clusters. -/
theorem Holds.step {operation : Operation F dim} {table' : IndexedTable F dim}
    (hholds : Holds table) (hvalid : ValidStep table.records operation)
    (h : table.step operation = .ok table') :
    Holds table' ∧ table'.records = table.records ++ inserted [operation] ∧
      table'.index.type = table.index.type ∧ table'.index.probes = table.index.probes ∧
      table'.index.centroids.length = table.index.centroids.length ∧
      (missed table'.index = [] ↔ missed table.index = [] ∧ StepClusters table operation) := by
  cases operation with
  | insert entry =>
    cases h
    refine ⟨⟨?_, ?_⟩, rfl, rfl, rfl, rfl, missed_insertEntry table.index entry⟩
    · refine (List.perm_append_singleton _ _).trans ((hholds.perm.cons entry).trans ?_)
      exact (insertEntry_perm table.index entry).symm
    · rw [List.map_append, List.nodup_append]
      refine ⟨hholds.nodup, List.nodup_singleton _, ?_⟩
      rintro rid hrid rid' hrid' rfl
      obtain ⟨record, hrecord, heq⟩ := List.mem_map.mp hrid
      exact hvalid record hrecord (heq.trans (List.mem_singleton.mp hrid'))
  | updateCentroids scanned =>
    obtain ⟨centroids, hcentroids, rfl⟩ := step_updateCentroids h
    obtain ⟨hlength, hnone⟩ := length_newCentroids hcentroids
    obtain ⟨htype, hprobes, hsame, hperm, hmissed⟩ := foldl_insertEntry
      { table.index with centroids := centroids, invertedList := fun _ => [] } scanned
    have hempty : clustered ({ table.index with
        centroids := centroids, invertedList := fun _ => [] } : IvfflatIndex F dim) = [] :=
      List.flatMap_eq_nil_iff.mpr fun _ _ => rfl
    refine ⟨⟨?_, hholds.nodup⟩, (List.append_nil _).symm, htype, hprobes, ?_, ?_⟩
    · refine hvalid.symm.trans (hperm.trans ?_).symm
      rw [hempty]
      exact .of_eq (List.append_nil scanned)
    · rw [← hlength]
      exact congrArg List.length hsame
    · rw [hmissed]
      constructor
      · rintro ⟨-, hall⟩
        refine ⟨hnone, fun centroids' hcentroids' => ?_⟩
        cases hcentroids.symm.trans hcentroids'
        exact hall
      · rintro ⟨-, hall⟩
        exact ⟨rfl, hall centroids hcentroids⟩

theorem run_cons (table : IndexedTable F dim) (operation : Operation F dim)
    (operations : List (Operation F dim)) :
    table.run (operation :: operations) =
      table.step operation >>= fun table' => table'.run operations :=
  List.foldlM_cons

theorem Holds.run {table' : IndexedTable F dim} (hholds : Holds table)
    (hvalid : ValidFrom table.records operations) (h : table.run operations = .ok table') :
    Holds table' ∧ table'.records = table.records ++ inserted operations ∧
      table'.index.type = table.index.type ∧ table'.index.probes = table.index.probes ∧
      table'.index.centroids.length = table.index.centroids.length ∧
      (missed table'.index = [] ↔ missed table.index = [] ∧ AllClustered table operations) := by
  induction operations generalizing table with
  | nil =>
    cases h
    exact ⟨hholds, (List.append_nil _).symm, rfl, rfl, rfl, by simp [AllClustered]⟩
  | cons operation operations ih =>
    rw [run_cons] at h
    obtain ⟨middle, hstep, hrest⟩ := bind_eq_ok h
    obtain ⟨hvalid, hvalids⟩ := hvalid
    obtain ⟨hmiddle, hrecords, htype, hprobes, hlength, hmissed⟩ := hholds.step hvalid hstep
    rw [← hrecords] at hvalids
    obtain ⟨hend, hrecords', htype', hprobes', hlength', hmissed'⟩ := ih hmiddle hvalids hrest
    refine ⟨hend, ?_, htype'.trans htype, hprobes'.trans hprobes, hlength'.trans hlength, ?_⟩
    · rw [hrecords', hrecords, List.append_assoc, ← inserted_cons]
    · rw [hmissed', hmissed, and_assoc, AllClustered]
      refine and_congr_right fun _ => and_congr_right fun _ => ?_
      constructor
      · intro hall other hother
        cases hstep.symm.trans hother
        exact hall
      · exact fun hall => hall middle hstep

theorem exists_run (hholds : Holds table) (hvalid : ValidFrom table.records operations)
    (hmissed : missed table.index = []) (hall : AllClustered table operations) :
    ∃ table', table.run operations = .ok table' := by
  induction operations generalizing table with
  | nil => exact ⟨table, rfl⟩
  | cons operation operations ih =>
    obtain ⟨hclusters, hlater⟩ := hall
    obtain ⟨hvalid, hvalids⟩ := hvalid
    obtain ⟨middle, hstep⟩ : ∃ middle, table.step operation = .ok middle := by
      cases operation with
      | insert entry => exact ⟨_, rfl⟩
      | updateCentroids scanned =>
        obtain ⟨centroids, hcentroids⟩ := exists_newCentroids hholds hmissed
        simp only [IndexedTable.step, updateCentroids, hcentroids, ok_bind]
        exact ⟨_, rfl⟩
    obtain ⟨hmiddle, hrecords, -, -, -, hnone⟩ := hholds.step hvalid hstep
    rw [← hrecords] at hvalids
    obtain ⟨table', hrun⟩ := ih hmiddle hvalids (hnone.mpr ⟨hmissed, hclusters⟩)
      (hlater middle hstep)
    exact ⟨table', by rw [run_cons, hstep]; exact hrun⟩

/-! ## Exact searches -/

/-- The RIDs of the nearest records, by increasing distance. -/
structure Nearest (records : List (Entry F dim)) (dist : Vector F dim → Option F) (limit : Nat)
    (rids : List RID) : Prop where
  length : rids.length = min limit records.length
  stored : ∀ rid ∈ rids, ∃ record ∈ records, record.1 = rid
  nodup : rids.Nodup
  ordered : rids.Pairwise fun rid rid' => ∀ record ∈ records, ∀ record' ∈ records,
    record.1 = rid → record'.1 = rid' → ¬ Nearer dist record'.2 record.2
  nearest : ∀ record ∈ records, ∀ record' ∈ records, record.1 ∈ rids → record'.1 ∉ rids →
    ¬ Nearer dist record'.2 record.2

/-- A search answers, and whatever it answers are the nearest records by the SQL function. -/
def SearchesExactly (table : IndexedTable F dim) (query : Vector F dim) (limit : Nat) : Prop :=
  (∃ answer, Search table.index query limit answer) ∧
    ∀ answer, Search table.index query limit answer → ∃ rids, answer = .ok rids ∧
      Nearest table.records (executeVec table.index.type query) limit rids

variable {query : Vector F dim} {limit : Nat} {found dropped : List (Entry F dim)}

/-- What is found in lists that miss nothing are the nearest records. -/
theorem FindsNearest.nearest_records (hholds : Holds table) (hmissed : missed table.index = [])
    (hdist : ∀ record ∈ table.records, ∀ record' ∈ table.records,
      Nearer (executeVec table.index.type query) record.2 record'.2 →
        Nearer (euclideanDistance table.index.type query) record.2 record'.2)
    (h : FindsNearest table.index query limit found dropped) :
    Nearest table.records (executeVec table.index.type query) limit (found.map (·.1)) := by
  have hperm : table.records.Perm (found ++ dropped) := by
    have hall := hholds.perm
    rw [hmissed, List.append_nil] at hall
    exact hall.trans h.perm
  have hstored : ∀ entry ∈ found, entry ∈ table.records := fun entry hentry =>
    hperm.mem_iff.mpr (List.mem_append_left dropped hentry)
  have hsame : ∀ record ∈ table.records, ∀ entry ∈ found, record.1 = entry.1 → record = entry :=
    fun record hrecord entry hentry =>
      List.inj_on_of_nodup_map hholds.nodup hrecord (hstored entry hentry)
  constructor
  case length =>
    have hlength := hholds.perm.length_eq
    rw [hmissed, List.append_nil] at hlength
    rw [List.length_map, h.length, hlength]
  case stored =>
    rintro rid hrid
    obtain ⟨entry, hentry, rfl⟩ := List.mem_map.mp hrid
    exact ⟨entry, hstored entry hentry, rfl⟩
  case nodup =>
    have hnodup := (hperm.map (·.1)).nodup_iff.mp hholds.nodup
    rw [List.map_append] at hnodup
    exact hnodup.of_append_left
  case ordered =>
    rw [List.pairwise_map]
    refine h.ordered.imp_of_mem fun hentry hentry' hnearer => ?_
    rintro record hrecord record' hrecord' heq heq' hsql
    obtain rfl := hsame record hrecord _ hentry heq
    obtain rfl := hsame record' hrecord' _ hentry' heq'
    exact hnearer (hdist _ hrecord' _ hrecord hsql)
  case nearest =>
    rintro record hrecord record' hrecord' hrid hrid' hsql
    obtain ⟨entry, hentry, heq⟩ := List.mem_map.mp hrid
    obtain rfl := hsame record hrecord entry hentry heq.symm
    have hdropped : record' ∈ dropped :=
      (List.mem_append.mp (hperm.mem_iff.mp hrecord')).resolve_left fun hfound =>
        hrid' (List.mem_map_of_mem hfound)
    exact h.nearest record hentry record' hdropped (hdist _ hrecord' _ hrecord hsql)

/-- Where the cosine gives no order, the entries come in any. -/
theorem search_of_perm (query : Vector F dim) {index : IvfflatIndex F dim}
    (htype : index.type = .cosine)
    (hprobes : index.centroids.length ≤ index.probes) (hperm : found.Perm (clustered index))
    (hpos : 0 < found.length) : Search index query found.length (.ok (found.map (·.1))) := by
  obtain ⟨ids, hids⟩ := exists_assignsClusters query hprobes
  obtain ⟨_, hok, hrange⟩ := hids.perm hprobes
  cases hok
  obtain ⟨answer, hall⟩ :=
    exists_offersAll distanceLess found.length (candidates index query ids) []
  obtain ⟨queue, rest, rfl, hkeeps⟩ := hall.smallest (comparesKeys index query) hpos
    (fun _ => mem_candidates hrange)
  have hcandidates := candidates_perm query hrange
  have hlength := hcandidates.length_eq
  rw [List.length_map, ← hperm.length_eq] at hlength
  have hrest : rest = [] := by
    have hsplit := hkeeps.perm.length_eq
    rw [List.length_append, hkeeps.length, hlength, Nat.min_self] at hsplit
    exact List.eq_nil_of_length_eq_zero (by omega)
  have hqueue : queue.Perm (found.map (candidate index query)) := by
    have hall := hkeeps.perm
    rw [hrest, List.append_nil] at hall
    exact hall.symm.trans (hcandidates.trans (hperm.symm.map _))
  have hdrains : Drains distanceLess queue (found.map (candidate index query)).reverse := by
    refine drains_iff.mpr ⟨hqueue.trans (List.reverse_perm _).symm, ?_⟩
    refine List.pairwise_of_forall_mem_list fun x hx y hy => ?_
    obtain ⟨entry, -, rfl⟩ := List.mem_map.mp (List.mem_reverse.mp hx)
    obtain ⟨entry', -, rfl⟩ := List.mem_map.mp (List.mem_reverse.mp hy)
    unfold distanceLess candidate
    rw [htype]
    rcases euclideanDistance_cosine query entry.2 with h | h <;>
      rcases euclideanDistance_cosine query entry'.2 with h' | h' <;> simp [h, h', lessThan]
  have hsearch := Search.ok hids hall hdrains
  rw [← List.map_reverse, List.reverse_reverse, List.map_map] at hsearch
  exact hsearch

/-- Without room for an answer, a search looks at the top of an empty queue. -/
theorem searchesExactly_zero (table : IndexedTable F dim)
    (hprobes : table.index.centroids.length ≤ table.index.probes) :
    SearchesExactly table query 0 ↔ clustered table.index = [] := by
  constructor
  · rintro ⟨⟨answer, hanswer⟩, hall⟩
    obtain ⟨rids, rfl, -⟩ := hall answer hanswer
    cases hanswer with
    | @ok ids _ _ hids hoffers _ =>
      obtain ⟨_, hok, hrange⟩ := hids.perm hprobes
      cases hok
      by_contra hne
      have hcandidates : candidates table.index query ids ≠ [] := by
        intro hnil
        have hall := candidates_perm query hrange
        rw [hnil] at hall
        exact hne (List.map_eq_nil_iff.mp hall.symm.eq_nil)
      cases hoffers.none_of_zero hcandidates
  · rintro hnone
    refine ⟨exists_search query 0 hprobes, fun answer hanswer => ?_⟩
    have hempty (ids : List Nat) (hids : AssignsClusters table.index query (.ok ids)) :
        candidates table.index query ids = [] := by
      obtain ⟨_, hok, hrange⟩ := hids.perm hprobes
      cases hok
      have hall := candidates_perm query hrange
      rw [hnone] at hall
      exact hall.eq_nil
    cases hanswer with
    | fails hids =>
      obtain ⟨_, hok, -⟩ := hids.perm hprobes
      cases hok
    | @emptyTop ids hids hoffers =>
      rw [hempty ids hids] at hoffers
      cases hoffers
    | @ok ids queue drained hids hoffers hdrains =>
      rw [hempty ids hids] at hoffers
      cases hoffers
      cases hdrains with
      | nil =>
        refine ⟨[], rfl, (Nat.zero_min _).symm, ?_, .nil, .nil, ?_⟩
        · exact fun rid hrid => absurd hrid List.not_mem_nil
        · exact fun _ _ _ _ hrid => absurd hrid List.not_mem_nil
      | cons hpop _ => exact absurd hpop.perm.symm.eq_nil (List.cons_ne_nil _ _)

/-- The lists of a table are searched exactly when they miss nothing, and for the cosine when no
record is nearer than another. -/
theorem Holds.searchesExactly_iff (hholds : Holds table)
    (hprobes : table.index.centroids.length ≤ table.index.probes) :
    (∀ limit, 0 < limit → SearchesExactly table query limit) ↔
      missed table.index = [] ∧ (table.index.type = .cosine →
        ∀ record ∈ table.records, ∀ record' ∈ table.records,
          ¬ Nearer (executeVec .cosine query) record.2 record'.2) := by
  constructor
  · intro hall
    have hmissed : missed table.index = [] := by
      obtain ⟨⟨answer, hanswer⟩, hexact⟩ := hall (table.records.length + 1) (Nat.succ_pos _)
      obtain ⟨rids, rfl, hnearest⟩ := hexact answer hanswer
      obtain ⟨found, dropped, hfound, hfinds⟩ := hanswer.findsNearest hprobes (Nat.succ_pos _)
      cases hfound
      have hlength := hnearest.length
      have hclustered := hholds.perm.length_eq
      rw [List.length_map, hfinds.length] at hlength
      rw [List.length_append] at hclustered
      exact List.eq_nil_of_length_eq_zero (by omega)
    refine ⟨hmissed, fun htype record hrecord record' hrecord' hnearer => ?_⟩
    -- an answer with the record in front that is farther
    have hperm := hholds.perm
    rw [hmissed, List.append_nil] at hperm
    obtain ⟨front, back, hsplit⟩ := List.append_of_mem (hperm.mem_iff.mp hrecord')
    have hfound : (record' :: (front ++ back)).Perm (clustered table.index) := by
      rw [hsplit]
      exact List.perm_middle.symm
    have hmem : record ∈ front ++ back := by
      refine (List.mem_cons.mp (hfound.mem_iff.mpr (hperm.mem_iff.mp hrecord))).resolve_left ?_
      rintro rfl
      exact not_lessThan_self _ hnearer
    have hsearch := search_of_perm query htype hprobes hfound (Nat.succ_pos _)
    obtain ⟨rids, hrids, hnearest⟩ := (hall _ (Nat.succ_pos _)).2 _ hsearch
    cases hrids
    have hordered := (List.pairwise_cons.mp hnearest.ordered).1 record.1 (List.mem_map_of_mem hmem)
    rw [htype] at hordered
    exact hordered record' hrecord' record hrecord rfl rfl hnearer
  · rintro ⟨hmissed, hcosine⟩ limit hlimit
    refine ⟨exists_search query limit hprobes, fun answer hanswer => ?_⟩
    obtain ⟨found, dropped, rfl, hfinds⟩ := hanswer.findsNearest hprobes hlimit
    refine ⟨_, rfl, hfinds.nearest_records hholds hmissed fun record hrecord record' hrecord' => ?_⟩
    by_cases htype : table.index.type = .cosine
    · rw [htype]
      exact fun hnearer => absurd hnearer (hcosine htype record hrecord record' hrecord')
    · exact Nearer.index htype

/-- When searches with all lists probed are exact: after which runs, and without a limit. -/
theorem ivfflatExact_iff (type : DisType) {lists probes : Nat} (hprobes : lists ≤ probes)
    (random : Nat → Nat → F) {operations : List (Operation F dim)}
    (hvalid : ValidFrom [] operations) (query : Vector F dim) :
    ((∃ table, (created type lists probes random).run operations = .ok table ∧
        ∀ limit, 0 < limit → SearchesExactly table query limit) ↔
      AllClustered (created type lists probes random) operations ∧ (type = .cosine →
        ∀ record ∈ inserted operations, ∀ record' ∈ inserted operations,
          ¬ Nearer (executeVec .cosine query) record.2 record'.2)) ∧
    ∀ table, (created type lists probes random).run operations = .ok table →
      (SearchesExactly table query 0 ↔ clustered table.index = []) := by
  have hstart : Holds (created type lists probes random : IndexedTable F dim) :=
    holds_created type lists probes random
  have hprobed {table : IndexedTable F dim}
      (hrun : (created type lists probes random).run operations = .ok table) :
      table.index.centroids.length ≤ table.index.probes := by
    obtain ⟨-, -, -, hsame, hlength, -⟩ := hstart.run hvalid hrun
    rw [hlength, length_created, hsame]
    exact hprobes
  refine ⟨⟨?_, ?_⟩, fun table hrun => searchesExactly_zero table (hprobed hrun)⟩
  · rintro ⟨table, hrun, hexact⟩
    obtain ⟨hholds, hrecords, htype, -, -, hmissed⟩ := hstart.run hvalid hrun
    have hconditions := (hholds.searchesExactly_iff (hprobed hrun)).mp hexact
    rw [hmissed, hrecords, htype] at hconditions
    exact ⟨hconditions.1.2, hconditions.2⟩
  · rintro ⟨hall, hcosine⟩
    obtain ⟨table, hrun⟩ := exists_run hstart hvalid (rfl) hall
    obtain ⟨hholds, hrecords, htype, -, -, hmissed⟩ := hstart.run hvalid hrun
    refine ⟨table, hrun, (hholds.searchesExactly_iff (hprobed hrun)).mpr ⟨?_, ?_⟩⟩
    · exact hmissed.mpr ⟨rfl, hall⟩
    · rw [hrecords, htype]
      exact hcosine

noncomputable instance : ExactFloats ℝ where
  sqrt := Real.sqrt
  sqrt_nonneg := Real.sqrt_nonneg
  sqrt_mul_sqrt _ h := Real.mul_self_sqrt h

/-- Two records, a scan that meets the second of them first, and a third record. -/
def threeInserts : List (Operation ℝ 2) :=
  [.insert (⟨1, 0⟩, #v[1, 0]), .insert (⟨1, 1⟩, #v[0, 1]),
    .updateCentroids [(⟨1, 1⟩, #v[0, 1]), (⟨1, 0⟩, #v[1, 0])], .insert (⟨1, 2⟩, #v[1, 1])]

theorem validFrom_threeInserts : ValidFrom [] threeInserts := by
  refine ⟨?_, ?_, List.Perm.swap _ _ _, ?_, trivial⟩
  · exact fun _ h => absurd h List.not_mem_nil
  · simp [ValidStep, inserted]
  · simp [ValidStep, inserted]

theorem ivfflatExact_threeInserts :
    ((∃ table, (created .l2 2 2 fun _ _ => 0).run threeInserts = .ok table ∧
        ∀ limit, 0 < limit → SearchesExactly table #v[0, 0] limit) ↔
      AllClustered (created .l2 2 2 fun _ _ => 0) threeInserts ∧ (DisType.l2 = .cosine →
        ∀ record ∈ inserted threeInserts, ∀ record' ∈ inserted threeInserts,
          ¬ Nearer (executeVec .cosine #v[0, 0]) record.2 record'.2)) ∧
    ∀ table, (created .l2 2 2 fun _ _ => 0).run threeInserts = .ok table →
      (SearchesExactly table #v[0, 0] 0 ↔ clustered table.index = []) :=
  ivfflatExact_iff .l2 (Nat.le_refl 2) _ validFrom_threeInserts #v[0, 0]

/-- With a record in a list, a search with limit zero looks at the top of an empty queue. -/
theorem not_ivfflatExact_zero :
    ¬ ∀ operations : List (Operation ℝ 1), ValidFrom [] operations →
      ∀ table, (created .l2 1 1 fun _ _ => 0).run operations = .ok table →
        ∀ query limit, SearchesExactly table query limit := by
  intro h
  let index : IvfflatIndex ℝ 1 := create .l2 1 1 fun _ _ => 0
  let entry : Entry ℝ 1 := (⟨1, 0⟩, #v[0])
  have hcluster : HasCluster index.type index.centroids entry.2 := by
    refine ⟨Vector.ofFn fun _ => 0, List.mem_singleton_self _, lessThan_iff.mpr ?_⟩
    refine ⟨_, floatMax, rfl, rfl, ?_⟩
    simp only [sumUp, floatMax]
    norm_num [entry]
  have hnone : clustered (insertEntry index entry) = [] :=
    (searchesExactly_zero ⟨[entry], insertEntry index entry⟩ (Nat.le_refl 1)).mp
      (h [.insert entry] ⟨fun _ hmem => absurd hmem List.not_mem_nil, trivial⟩ _ rfl #v[0] 0)
  have hperm := (insertEntry_of_hasCluster hcluster).1
  rw [hnone] at hperm
  exact List.cons_ne_nil _ _ hperm.symm.eq_nil

end Ivfflat

end ObHtap
