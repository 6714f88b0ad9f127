import Mathlib.Data.List.Perm.Lattice
import Mathlib.Tactic.Linarith
import ObHtap.Ivfflat.Index
import ObHtap.Library.Loop

/-!
# Searching all clusters

With as many probes as there are lists, `search` sees every entry that has a cluster.  What it
misses are the entries that `assign_cluster` found none for, and what it compares is the distance of
the SQL function only up to an increasing function, and not at all for the cosine.
-/

namespace ObHtap

namespace Ivfflat

variable {F : Type} [ExactFloats F] {dim : Nat} {type : DisType}

/-! ## Distances -/

theorem sqrt_le_sqrt {x y : F} (hx : 0 ≤ x) (h : x ≤ y) :
    ExactFloats.sqrt x ≤ ExactFloats.sqrt y := by
  by_contra hlt
  have hlt := not_le.mp hlt
  have hsquare := mul_self_lt_mul_self (ExactFloats.sqrt_nonneg y) hlt
  rw [ExactFloats.sqrt_mul_sqrt x hx, ExactFloats.sqrt_mul_sqrt y (hx.trans h)] at hsquare
  exact absurd h (not_le.mpr hsquare)

theorem roundAway_mono {x y : F} (h : x ≤ y) : roundAway x ≤ roundAway y := by
  unfold roundAway
  split_ifs with hx hy hy
  · exact neg_le_neg (Int.floor_le_floor (by linarith))
  · have hleft : (0 : Int) ≤ ⌊-x + 1 / 2⌋ := Int.floor_nonneg.mpr (by linarith)
    have hright : (0 : Int) ≤ ⌊y + 1 / 2⌋ := Int.floor_nonneg.mpr (by linarith)
    omega
  · exact absurd (h.trans_lt hy) hx
  · exact Int.floor_le_floor (by linarith)

/-- The distance of a vector is nearer. -/
def Nearer (dist : Vector F dim → Option F) (v w : Vector F dim) : Prop :=
  lessThan (dist v) (dist w) = true

theorem rounded_mono {x y : F} (h : x ≤ y) : rounded x ≤ rounded y := by
  have hround : roundAway (x * 100) ≤ roundAway (y * 100) := roundAway_mono (by linarith)
  exact div_le_div_of_nonneg_right (Int.cast_le.mpr hround) (by norm_num)

/-- The index orders vectors as the function does, which rounds. -/
theorem Nearer.index {query v w : Vector F dim} (htype : type ≠ .cosine)
    (h : Nearer (executeVec type query) v w) : Nearer (euclideanDistance type query) v w := by
  cases type with
  | l2 =>
    rw [Nearer, executeVec_l2, executeVec_l2] at h
    have hlt := of_decide_eq_true h
    refine decide_eq_true (lt_of_not_ge fun hle => ?_)
    have hroot := sqrt_le_sqrt (sumUp_nonneg fun i => mul_self_nonneg _) hle
    exact absurd (rounded_mono hroot) (not_le.mpr hlt)
  | inner =>
    have hlt := of_decide_eq_true h
    exact decide_eq_true (lt_of_not_ge fun hle => absurd (rounded_mono hle) (not_le.mpr hlt))
  | cosine => exact absurd rfl htype

/-- The index has no two distances for the cosine. -/
theorem euclideanDistance_cosine (a b : Vector F dim) :
    euclideanDistance .cosine a b = none ∨ euclideanDistance .cosine a b = some 0 := by
  simp only [euclideanDistance]
  generalize (sumUp fun i => a[i] * b[i]) = product
  by_cases hneg : product < 0
  · simp [sqrtf, hneg]
  have hsquare := ExactFloats.sqrt_mul_sqrt product (not_lt.mp hneg)
  rw [sqrtf, if_neg hneg]
  simp only [Option.bind_eq_bind, Option.bind_some, hsquare]
  by_cases hzero : product = 0
  · simp [quotient, hzero]
  · simp [quotient, hzero]

/-! ## Clusters -/

/-- Some centroid has a distance that is a number below the largest `float`. -/
def HasCluster (type : DisType) (centroids : List (Vector F dim)) (vector : Vector F dim) : Prop :=
  ∃ centroid ∈ centroids,
    lessThan (euclideanDistance type vector centroid) (some floatMax) = true

/-- The loop ends with the cluster it starts with or with one that it comes across. -/
theorem assignLoop_range (type : DisType) (vector : Vector F dim) (centroids : List (Vector F dim))
    (i : Nat) (best : Int × Option F) :
    (assignLoop type vector centroids i best).1 = best.1 ∨
      ∃ k < centroids.length, (assignLoop type vector centroids i best).1 = (i + k : Nat) := by
  induction centroids generalizing i best with
  | nil => exact .inl rfl
  | cons centroid centroids ih =>
    rw [assignLoop]
    rcases ih (i + 1) (if lessThan (euclideanDistance type vector centroid) best.2 then
      ((i : Int), euclideanDistance type vector centroid) else (best.1, best.2)) with
      hsame | ⟨k, hk, hlater⟩
    · rw [hsame]
      split_ifs with hless
      · exact .inr ⟨0, Nat.succ_pos _, rfl⟩
      · exact .inl rfl
    · refine .inr ⟨k + 1, Nat.succ_lt_succ hk, ?_⟩
      rw [hlater, Nat.add_right_comm, Nat.add_assoc]

theorem assignLoop_found {vector : Vector F dim} {centroids : List (Vector F dim)}
    {bound : Option F} (i : Nat) (closest : Int)
    (h : ∃ centroid ∈ centroids, lessThan (euclideanDistance type vector centroid) bound = true) :
    ∃ k < centroids.length,
      (assignLoop type vector centroids i (closest, bound)).1 = (i + k : Nat) := by
  induction centroids generalizing i with
  | nil =>
    obtain ⟨_, hmem, -⟩ := h
    exact absurd hmem List.not_mem_nil
  | cons centroid centroids ih =>
    rw [assignLoop]
    by_cases hless : lessThan (euclideanDistance type vector centroid) bound = true
    · rw [if_pos hless]
      rcases assignLoop_range type vector centroids (i + 1)
        (i, euclideanDistance type vector centroid) with hsame | ⟨k, hk, hlater⟩
      · exact ⟨0, Nat.succ_pos _, hsame⟩
      · refine ⟨k + 1, Nat.succ_lt_succ hk, ?_⟩
        rw [hlater, Nat.add_right_comm, Nat.add_assoc]
    · rw [if_neg hless]
      obtain ⟨c, hmem, hc⟩ := h
      have hlater : c ∈ centroids :=
        (List.mem_cons.mp hmem).resolve_left fun heq => hless (heq ▸ hc)
      obtain ⟨k, hk, hfound⟩ := ih (i + 1) ⟨c, hlater, hc⟩
      refine ⟨k + 1, Nat.succ_lt_succ hk, ?_⟩
      rw [hfound, Nat.add_right_comm, Nat.add_assoc]

theorem assignLoop_of_none {vector : Vector F dim} {centroids : List (Vector F dim)}
    {bound : Option F} (i : Nat) (closest : Int)
    (h : ∀ centroid ∈ centroids, ¬ lessThan (euclideanDistance type vector centroid) bound = true) :
    (assignLoop type vector centroids i (closest, bound)).1 = closest := by
  induction centroids generalizing i with
  | nil => rfl
  | cons centroid centroids ih =>
    obtain ⟨hhead, htail⟩ := List.forall_mem_cons.mp h
    rw [assignLoop, if_neg hhead]
    exact ih (i + 1) htail

theorem assignCluster_of_hasCluster {index : IvfflatIndex F dim} {vector : Vector F dim}
    (h : HasCluster index.type index.centroids vector) :
    ∃ k < index.centroids.length, assignCluster index vector = k := by
  obtain ⟨k, hk, hfound⟩ := assignLoop_found 0 (-1) h
  rw [Nat.zero_add] at hfound
  exact ⟨k, hk, hfound⟩

theorem assignCluster_of_not_hasCluster {index : IvfflatIndex F dim} {vector : Vector F dim}
    (h : ¬ HasCluster index.type index.centroids vector) : assignCluster index vector = -1 := by
  exact assignLoop_of_none 0 (-1) fun centroid hmem hless => h ⟨centroid, hmem, hless⟩

/-! ## What the lists hold -/

/-- The entries in the lists of all clusters. -/
def clustered (index : IvfflatIndex F dim) : List (Entry F dim) :=
  (List.range index.centroids.length).flatMap fun i : Nat => index.invertedList i

/-- The entries of no cluster. -/
def missed (index : IvfflatIndex F dim) : List (Entry F dim) :=
  index.invertedList (-1)

theorem flatMap_update {α : Type*} {lists : Int → List α} {k n : Nat} (hk : k < n) (entry : α) :
    ((List.range n).flatMap fun i : Nat =>
        Function.update lists (k : Int) (lists k ++ [entry]) (i : Int)).Perm
      (entry :: (List.range n).flatMap fun i : Nat => lists i) := by
  obtain ⟨front, back, hsplit⟩ := List.append_of_mem (List.mem_range.mpr hk)
  have hnodup : (front ++ k :: back).Nodup := hsplit ▸ List.nodup_range
  have hother (l : List Nat) (hl : k ∉ l) :
      (l.flatMap fun i : Nat => Function.update lists (k : Int) (lists k ++ [entry]) (i : Int)) =
        l.flatMap fun i : Nat => lists i := by
    refine List.flatMap_congr fun i hi => Function.update_of_ne ?_ _ _
    rw [Ne, Nat.cast_inj]
    rintro rfl
    exact hl hi
  have hfront : k ∉ front := fun hmem =>
    (List.nodup_append.mp hnodup).2.2 k hmem k List.mem_cons_self rfl
  have hback : k ∉ back := (List.nodup_cons.mp (List.nodup_append.mp hnodup).2.1).1
  rw [hsplit, List.flatMap_append, List.flatMap_append, List.flatMap_cons, List.flatMap_cons,
    hother front hfront, hother back hback, Function.update_self, List.append_assoc,
    List.singleton_append]
  exact (List.perm_middle.append_left _).trans List.perm_middle

/-- An entry comes to the lists of the clusters, or to the others. -/
theorem insertEntry_of_hasCluster {index : IvfflatIndex F dim} {entry : Entry F dim}
    (h : HasCluster index.type index.centroids entry.2) :
    (clustered (insertEntry index entry)).Perm (entry :: clustered index) ∧
      missed (insertEntry index entry) = missed index := by
  obtain ⟨k, hk, hcluster⟩ := assignCluster_of_hasCluster h
  simp only [clustered, missed, insertEntry, hcluster]
  exact ⟨flatMap_update hk entry, Function.update_of_ne (by omega) _ _⟩

theorem insertEntry_of_not_hasCluster {index : IvfflatIndex F dim} {entry : Entry F dim}
    (h : ¬ HasCluster index.type index.centroids entry.2) :
    clustered (insertEntry index entry) = clustered index ∧
      missed (insertEntry index entry) = missed index ++ [entry] := by
  simp only [clustered, missed, insertEntry, assignCluster_of_not_hasCluster h]
  refine ⟨List.flatMap_congr fun i _ => Function.update_of_ne (by omega) _ _, ?_⟩
  exact Function.update_self _ _ _

/-! ## Searches -/

theorem lessThan_iff {x y : Option F} :
    lessThan x y = true ↔ ∃ d e, x = some d ∧ y = some e ∧ d < e := by
  cases x <;> cases y <;> simp [lessThan]

theorem lessThan_trans {x y z : Option F} (hxy : lessThan x y = true) (hyz : lessThan y z = true) :
    lessThan x z = true := by
  obtain ⟨d, e, rfl, rfl, hde⟩ := lessThan_iff.mp hxy
  obtain ⟨_, f, ⟨⟩, rfl, hef⟩ := lessThan_iff.mp hyz
  exact lessThan_iff.mpr ⟨d, f, rfl, rfl, hde.trans hef⟩

theorem not_lessThan_self (x : Option F) : ¬ lessThan x x = true := by
  rw [lessThan_iff]
  rintro ⟨d, e, rfl, ⟨⟩, hlt⟩
  exact lt_irrefl d hlt

instance : IsStrictOrder (Option F × RID) distanceLess where
  irrefl x := not_lessThan_self x.1
  trans _ _ _ := lessThan_trans

instance (type : DisType) : IsStrictOrder (Option F × Nat) (pairLess type) where
  irrefl := by
    rintro x ⟨-, hless | ⟨-, hless⟩⟩
    · exact not_lessThan_self x.1 hless
    · exact lt_irrefl x.2 hless
  trans := by
    rintro x y z ⟨htype, hxy | ⟨hxy, hless⟩⟩ ⟨-, hyz | ⟨hyz, hless'⟩⟩
    · exact ⟨htype, .inl (lessThan_trans hxy hyz)⟩
    · exact ⟨htype, .inl (hyz ▸ hxy)⟩
    · exact ⟨htype, .inl (hxy ▸ hyz)⟩
    · exact ⟨htype, .inr ⟨hxy.trans hyz, hless.trans hless'⟩⟩

theorem probesAll_iff {less : Option F × Nat → Option F × Nat → Prop} {probes : Nat}
    {pairs queue : List (Option F × Nat)} {answer : Except Fault (List (Option F × Nat))}
    (hroom : queue.length + pairs.length ≤ probes) :
    ProbesAll less probes pairs queue answer ↔ answer = .ok (pairs.reverse ++ queue) := by
  induction pairs generalizing queue with
  | nil =>
    constructor
    · rintro ⟨⟩
      rfl
    · rintro rfl
      exact .nil
  | cons pair pairs ih =>
    rw [List.length_cons] at hroom
    have hlength : (pair :: queue).length + pairs.length ≤ probes := by
      rw [List.length_cons]
      omega
    have hhere : queue.length < probes := by omega
    rw [List.reverse_cons, List.append_assoc, List.singleton_append, ← ih hlength]
    constructor
    · rintro (_ | hprobe | ⟨hprobe, hrest⟩)
      · cases hprobe
        omega
      · cases hprobe with
        | room _ => exact hrest
        | closer hfull _ _ _ => exact absurd hhere hfull
        | farther hfull _ _ => exact absurd hhere hfull
    · exact .cons (.room hhere)

variable {index : IvfflatIndex F dim} {query : Vector F dim} {limit : Nat}

theorem centroidDistances_map (index : IvfflatIndex F dim) (query : Vector F dim) :
    (centroidDistances index query).map (·.2) = List.range index.centroids.length := by
  rw [centroidDistances, List.map_map, List.range_eq_range']
  exact List.zipIdx_map_snd 0 index.centroids

theorem length_centroidDistances (index : IvfflatIndex F dim) (query : Vector F dim) :
    (centroidDistances index query).length = index.centroids.length := by
  rw [centroidDistances, List.length_map, List.length_zipIdx]

/-- The numbers of all clusters come, in some order. -/
theorem AssignsClusters.perm {answer : Except Fault (List Nat)}
    (hprobes : index.centroids.length ≤ index.probes) (h : AssignsClusters index query answer) :
    ∃ ids, answer = .ok ids ∧ ids.Perm (List.range index.centroids.length) := by
  have hroom : ([] : List (Option F × Nat)).length + (centroidDistances index query).length ≤
      index.probes := by
    rwa [List.length_nil, Nat.zero_add, length_centroidDistances]
  cases h with
  | @ok queue drained hall hdrains =>
    have hqueue := Except.ok.inj ((probesAll_iff hroom).mp hall)
    have hperm := (drains_iff.mp hdrains).1
    rw [hqueue, List.append_nil] at hperm
    refine ⟨_, rfl, ?_⟩
    rw [← centroidDistances_map index query]
    refine (List.reverse_perm _).trans (hperm.symm.map _ |>.trans ?_)
    exact (List.reverse_perm _).map _
  | error hall => cases (probesAll_iff hroom).mp hall

theorem exists_assignsClusters (query : Vector F dim)
    (hprobes : index.centroids.length ≤ index.probes) :
    ∃ ids, AssignsClusters index query (.ok ids) := by
  have hroom : ([] : List (Option F × Nat)).length + (centroidDistances index query).length ≤
      index.probes := by
    rwa [List.length_nil, Nat.zero_add, length_centroidDistances]
  obtain ⟨drained, hdrains⟩ := exists_drains (pairLess index.type)
    ((centroidDistances index query).reverse ++ [])
  exact ⟨_, .ok ((probesAll_iff hroom).mpr rfl) hdrains⟩

/-- An entry as a search sees it. -/
def candidate (index : IvfflatIndex F dim) (query : Vector F dim) (entry : Entry F dim) :
    Option F × RID :=
  (euclideanDistance index.type query entry.2, entry.1)

theorem candidates_perm (query : Vector F dim) {ids : List Nat}
    (h : ids.Perm (List.range index.centroids.length)) :
    (candidates index query ids).Perm ((clustered index).map (candidate index query)) := by
  rw [clustered, List.map_flatMap]
  exact h.flatMap_right _

theorem mem_candidates {ids : List Nat} (h : ids.Perm (List.range index.centroids.length))
    {x : Option F × RID} (hx : x ∈ candidates index query ids) :
    ∃ entry, x = candidate index query entry := by
  obtain ⟨entry, -, hentry⟩ := List.mem_map.mp ((candidates_perm query h).mem_iff.mp hx)
  exact ⟨entry, hentry.symm⟩

/-- Distances that are numbers are compared as such, and the cosine has one at most. -/
theorem comparesKeys (index : IvfflatIndex F dim) (query : Vector F dim) :
    ComparesKeys distanceLess (fun x : Option F × RID => x.1.getD 0)
      {x | ∃ entry, x = candidate index query entry} := by
  rintro _ ⟨entry, rfl⟩ _ ⟨entry', rfl⟩
  have hnumber (d e : F) : lessThan (some d) (some e) = true ↔ d < e := decide_eq_true_iff
  unfold distanceLess candidate
  cases index.type with
  | l2 | inner => exact hnumber _ _
  | cosine =>
    rcases euclideanDistance_cosine query entry.2 with h | h <;>
      rcases euclideanDistance_cosine query entry'.2 with h' | h' <;> simp [h, h', lessThan]

/-- What a search may answer: nearest entries of the clusters, which come in order. -/
structure FindsNearest (index : IvfflatIndex F dim) (query : Vector F dim) (limit : Nat)
    (found dropped : List (Entry F dim)) : Prop where
  perm : (clustered index).Perm (found ++ dropped)
  length : found.length = min limit (clustered index).length
  ordered : found.Pairwise fun entry entry' =>
    ¬ Nearer (euclideanDistance index.type query) entry'.2 entry.2
  nearest : ∀ entry ∈ found, ∀ entry' ∈ dropped,
    ¬ Nearer (euclideanDistance index.type query) entry'.2 entry.2

theorem Search.findsNearest {answer : Except Fault (List RID)}
    (hprobes : index.centroids.length ≤ index.probes) (hlimit : 0 < limit)
    (h : Search index query limit answer) :
    ∃ found dropped, answer = .ok (found.map (·.1)) ∧
      FindsNearest index query limit found dropped := by
  cases h with
  | fails herror =>
    obtain ⟨_, hok, -⟩ := herror.perm hprobes
    cases hok
  | @emptyTop ids hids hall =>
    obtain ⟨_, hok, hperm⟩ := hids.perm hprobes
    cases hok
    obtain ⟨_, _, hsome, -⟩ := hall.smallest (comparesKeys index query) hlimit
      (fun _ => mem_candidates hperm)
    cases hsome
  | @ok ids queue drained hids hall hdrains =>
    obtain ⟨_, hok, hperm⟩ := hids.perm hprobes
    cases hok
    obtain ⟨_, rest, hsome, hkeeps⟩ := hall.smallest (comparesKeys index query) hlimit
      (fun _ => mem_candidates hperm)
    cases hsome
    have hcandidates := candidates_perm query hperm
    obtain ⟨hqueue, hsorted⟩ := drains_iff.mp hdrains
    have hsplit : (drained.reverse ++ rest).Perm ((clustered index).map (candidate index query)) :=
      ((List.reverse_perm drained).trans hqueue.symm).append_right rest |>.trans
        (hkeeps.perm.symm.trans hcandidates)
    obtain ⟨entries, hentries, hclustered⟩ :=
      (congrFun₂ (List.eq_map_comp_perm (candidate index query)) _ _).mpr hsplit
    obtain ⟨found, dropped, rfl, hfound, hdropped⟩ := List.append_eq_map_iff.mp hentries
    refine ⟨found, dropped, ?_, hclustered.symm, ?_, ?_, fun entry hentry entry' hentry' => ?_⟩
    · rw [← List.map_reverse, ← hfound, List.map_map]
      rfl
    · have hlength := congrArg List.length hfound
      rw [List.length_map, List.length_reverse, ← hqueue.length_eq, hkeeps.length,
        hcandidates.length_eq, List.length_map] at hlength
      exact hlength
    · rw [← List.pairwise_reverse, ← hfound, List.pairwise_map] at hsorted
      exact hsorted
    · have hmem : candidate index query entry ∈ queue := by
        rw [hqueue.mem_iff, ← List.mem_reverse, ← hfound]
        exact List.mem_map_of_mem hentry
      have hmem' : candidate index query entry' ∈ rest := hdropped ▸ List.mem_map_of_mem hentry'
      have hcompare := comparesKeys index query _ ⟨entry', rfl⟩ _ ⟨entry, rfl⟩
      exact mt hcompare.mp (not_lt.mpr (hkeeps.smallest _ hmem _ hmem'))

theorem exists_search (query : Vector F dim) (limit : Nat)
    (hprobes : index.centroids.length ≤ index.probes) :
    ∃ answer, Search index query limit answer := by
  obtain ⟨ids, hids⟩ := exists_assignsClusters query hprobes
  obtain ⟨answer, hall⟩ := exists_offersAll distanceLess limit (candidates index query ids) []
  cases answer with
  | none => exact ⟨_, .emptyTop hids hall⟩
  | some queue =>
    obtain ⟨drained, hdrains⟩ := exists_drains distanceLess queue
    exact ⟨_, .ok hids hall hdrains⟩

end Ivfflat

end ObHtap
