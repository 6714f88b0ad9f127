import Mathlib.Algebra.Order.Floor.Ring
import ObHtap.Bplus.Key
import ObHtap.Common.RC
import ObHtap.Library.PriorityQueue

/-!
# The IVF index of a vector column

`KMeans` and `IvfflatIndex`.  `float` is taken as an ordered field with square roots; what is no
number there is `none`.
-/

namespace ObHtap

/-- Exact arithmetic in place of `float`. -/
class ExactFloats (F : Type) extends
    Field F, LinearOrder F, IsStrictOrderedRing F, FloorRing F where
  sqrt : F → F
  sqrt_nonneg : ∀ x, 0 ≤ sqrt x
  sqrt_mul_sqrt : ∀ x, 0 ≤ x → sqrt x * sqrt x = x

/-- `dis_type`. -/
inductive DisType where
  | l2
  | inner
  | cosine
  deriving DecidableEq

namespace Ivfflat

variable {F : Type} [ExactFloats F] {dim : Nat}

/-! ## Distances -/

/-- `std::numeric_limits<float>::max()`. -/
def floatMax : F :=
  (2 ^ 24 - 1) * 2 ^ 104

/-- A loop that adds up what it computes of each component. -/
def sumUp (term : Fin dim → F) : F :=
  (List.finRange dim).foldl (fun sum i => sum + term i) 0

/-- `sqrtf`. -/
def sqrtf (x : F) : Option F :=
  if x < 0 then none else some (ExactFloats.sqrt x)

/-- A quotient whose numerator is zero when the denominator is. -/
def quotient (x y : F) : Option F :=
  if y = 0 then none else some (x / y)

/-- `<`, which is false for what is no number. -/
def lessThan : Option F → Option F → Bool
  | some x, some y => x < y
  | _, _ => false

/-- `euclidean_distance`.  The moduli of the cosine are those of the product. -/
def euclideanDistance (type : DisType) (a b : Vector F dim) : Option F :=
  match type with
  | .l2 => some (sumUp fun i => (a[i] - b[i]) * (a[i] - b[i]))
  | .cosine => do
    let innerP := sumUp fun i => a[i] * b[i]
    let mod1 ← sqrtf (sumUp fun i => a[i] * b[i])
    let mod2 ← sqrtf (sumUp fun i => a[i] * b[i])
    return 1 - (← quotient innerP (mod1 * mod2))
  | .inner => some (sumUp fun i => a[i] * b[i])

/-- `std::round`. -/
def roundAway (x : F) : Int :=
  if x < 0 then -⌊-x + 1 / 2⌋ else ⌊x + 1 / 2⌋

/-- `FunctionExpr::execute_vec`. -/
def executeVec (type : DisType) (v1 v2 : Vector F dim) : Option F := do
  let fResult ← match type with
    | .l2 => sqrtf (sumUp fun i => (v1[i] - v2[i]) * (v1[i] - v2[i]))
    | .cosine => do
      let innerP := sumUp fun i => v1[i] * v2[i]
      let mod1 ← sqrtf (sumUp fun i => v1[i] * v1[i])
      let mod2 ← sqrtf (sumUp fun i => v2[i] * v2[i])
      return 1 - (← quotient innerP (mod1 * mod2))
    | .inner => some (sumUp fun i => v1[i] * v2[i])
  return roundAway (fResult * 100) / 100

/-- Two decimals are kept. -/
def rounded (x : F) : F :=
  roundAway (x * 100) / 100

theorem sumUp_nonneg {term : Fin dim → F} (h : ∀ i, 0 ≤ term i) : 0 ≤ sumUp term := by
  have hfold (l : List (Fin dim)) (sum : F) (hsum : 0 ≤ sum) :
      0 ≤ l.foldl (fun sum i => sum + term i) sum := by
    induction l generalizing sum with
    | nil => exact hsum
    | cons i l ih => exact ih _ (add_nonneg hsum (h i))
  exact hfold _ 0 le_rfl

theorem executeVec_l2 (v w : Vector F dim) :
    executeVec .l2 v w =
      some (rounded (ExactFloats.sqrt (sumUp fun i => (v[i] - w[i]) * (v[i] - w[i])))) := by
  have hsum : ¬ (sumUp fun i => (v[i] - w[i]) * (v[i] - w[i])) < 0 :=
    not_lt.mpr (sumUp_nonneg fun i => mul_self_nonneg _)
  simp only [executeVec, sqrtf, if_neg hsum]
  rfl

/-! ## The index -/

/-- A record: where it is, and its vector. -/
abbrev Entry (F : Type) (dim : Nat) : Type :=
  RID × Vector F dim

/-- `IvfflatIndex` with its `KMeans`.  A cluster that `inverted_list` has no list for has no
entries. -/
structure IvfflatIndex (F : Type) (dim : Nat) where
  type : DisType
  probes : Nat
  centroids : List (Vector F dim)
  invertedList : Int → List (Entry F dim)

/-- The index, and the records of its table. -/
structure IndexedTable (F : Type) (dim : Nat) where
  records : List (Entry F dim)
  index : IvfflatIndex F dim

/-- `KMeans::init`, with the numbers that `rand` gives. -/
def initCentroids (numClusters : Nat) (random : Nat → Nat → F) : List (Vector F dim) :=
  (List.range numClusters).map fun i => Vector.ofFn fun j => random i j

/-- `create`. -/
def create (type : DisType) (lists probes : Nat) (random : Nat → Nat → F) : IvfflatIndex F dim where
  type := type
  probes := probes
  centroids := initCentroids lists random
  invertedList _ := []

/-- An empty table with a new index. -/
def created (type : DisType) (lists probes : Nat) (random : Nat → Nat → F) : IndexedTable F dim :=
  ⟨[], create type lists probes random⟩

/-- The loop of `assign_cluster`. -/
def assignLoop (type : DisType) (vector : Vector F dim) :
    List (Vector F dim) → Nat → Int × Option F → Int × Option F
  | [], _, best => best
  | centroid :: centroids, i, (closest, closestDist) =>
    let dist := euclideanDistance type vector centroid
    assignLoop type vector centroids (i + 1)
      (if lessThan dist closestDist then ((i : Int), dist) else (closest, closestDist))

/-- `assign_cluster`. -/
def assignCluster (index : IvfflatIndex F dim) (vector : Vector F dim) : Int :=
  (assignLoop index.type vector index.centroids 0 (-1, some floatMax)).1

/-- `insert_entry`. -/
def insertEntry (index : IvfflatIndex F dim) (entry : Entry F dim) : IvfflatIndex F dim :=
  let clusterId := assignCluster index entry.2
  { index with
    invertedList := Function.update index.invertedList clusterId
      (index.invertedList clusterId ++ [entry]) }

/-- The vector that `get_record` reads for an entry. -/
def featureOf (records : List (Entry F dim)) (entry : Entry F dim) :
    Except Fault (Vector F dim) :=
  match records.find? fun record => record.1 = entry.1 with
  | some record => .ok record.2
  | none => .error .abort

/-- `KMeans::update_centroids` for one cluster. -/
def newCentroid (records : List (Entry F dim)) (entries : List (Entry F dim))
    (centroid : Vector F dim) : Except Fault (Vector F dim) := do
  let features ← entries.mapM (featureOf records)
  return if 0 < features.length then
      Vector.ofFn fun j => features.foldl (fun sum feature => sum + feature[j]) 0 / features.length
    else centroid

/-- `KMeans::update_centroids`.  An entry without a cluster is counted in front of the arrays. -/
def newCentroids (records : List (Entry F dim)) (index : IvfflatIndex F dim) :
    Except Fault (List (Vector F dim)) :=
  if index.invertedList (-1) ≠ [] then .error .abort
  else (index.centroids.zipIdx).mapM fun (centroid, i) =>
    newCentroid records (index.invertedList i) centroid

/-- `update_centroids`, for the records as the scan finds them. -/
def updateCentroids (records : List (Entry F dim)) (scanned : List (Entry F dim))
    (index : IvfflatIndex F dim) : Except Fault (IvfflatIndex F dim) := do
  let centroids ← newCentroids records index
  return scanned.foldl insertEntry
    { index with centroids := centroids, invertedList := fun _ => [] }

/-- What happens to an indexed table.  The scan of `update_centroids` finds the records in some
order. -/
inductive Operation (F : Type) (dim : Nat) where
  | insert (entry : Entry F dim)
  | updateCentroids (scanned : List (Entry F dim))

def IndexedTable.step (table : IndexedTable F dim) :
    Operation F dim → Except Fault (IndexedTable F dim)
  | .insert entry => .ok ⟨table.records ++ [entry], insertEntry table.index entry⟩
  | .updateCentroids scanned =>
    (updateCentroids table.records scanned table.index).map (⟨table.records, ·⟩)

def IndexedTable.run (table : IndexedTable F dim) (operations : List (Operation F dim)) :
    Except Fault (IndexedTable F dim) :=
  operations.foldlM IndexedTable.step table

/-! ## Searches -/

/-- The order of the pairs of distances and clusters.  With the cosine, whose distances need not be
numbers, it is none, and any pair may be on top. -/
def pairLess (type : DisType) (x y : Option F × Nat) : Prop :=
  type ≠ .cosine ∧ (lessThan x.1 y.1 = true ∨ x.1 = y.1 ∧ x.2 < y.2)

/-- A round of the loop of `assign_cluster_with_probes`. -/
inductive Probes (less : Option F × Nat → Option F × Nat → Prop) (probes : Nat)
    (pair : Option F × Nat) :
    List (Option F × Nat) → Except Fault (List (Option F × Nat)) → Prop where
  | room {queue} : queue.length < probes → Probes less probes pair queue (.ok (pair :: queue))
  | empty : probes = 0 → Probes less probes pair [] (.error .abort)
  | closer {queue top rest x rest'} : ¬ queue.length < probes → PopsTop less queue top rest →
      lessThan pair.1 top.1 = true → PopsTop less (pair :: queue) x rest' →
      Probes less probes pair queue (.ok rest')
  | farther {queue top rest} : ¬ queue.length < probes → PopsTop less queue top rest →
      lessThan pair.1 top.1 = false → Probes less probes pair queue (.ok queue)

/-- The loop of `assign_cluster_with_probes`. -/
inductive ProbesAll (less : Option F × Nat → Option F × Nat → Prop) (probes : Nat) :
    List (Option F × Nat) → List (Option F × Nat) →
      Except Fault (List (Option F × Nat)) → Prop where
  | nil {queue} : ProbesAll less probes [] queue (.ok queue)
  | fails {pair pairs queue fault} : Probes less probes pair queue (.error fault) →
      ProbesAll less probes (pair :: pairs) queue (.error fault)
  | cons {pair pairs queue queue' answer} : Probes less probes pair queue (.ok queue') →
      ProbesAll less probes pairs queue' answer → ProbesAll less probes (pair :: pairs) queue answer

/-- The distances of the centroids. -/
def centroidDistances (index : IvfflatIndex F dim) (query : Vector F dim) :
    List (Option F × Nat) :=
  index.centroids.zipIdx.map fun (centroid, i) =>
    (euclideanDistance index.type query centroid, i)

/-- `assign_cluster_with_probes`. -/
inductive AssignsClusters (index : IvfflatIndex F dim) (query : Vector F dim) :
    Except Fault (List Nat) → Prop where
  | ok {queue drained} :
      ProbesAll (pairLess index.type) index.probes (centroidDistances index query) [] (.ok queue) →
      Drains (pairLess index.type) queue drained →
      AssignsClusters index query (.ok (drained.map (·.2)).reverse)
  | error {fault} :
      ProbesAll (pairLess index.type) index.probes (centroidDistances index query) []
        (.error fault) → AssignsClusters index query (.error fault)

/-- `CompareDistanceAndRID`. -/
def distanceLess (x y : Option F × RID) : Prop :=
  lessThan x.1 y.1 = true

/-- The distances of the entries of some clusters. -/
def candidates (index : IvfflatIndex F dim) (query : Vector F dim) (clusterIds : List Nat) :
    List (Option F × RID) :=
  clusterIds.flatMap fun i : Nat => (index.invertedList i).map fun entry =>
    (euclideanDistance index.type query entry.2, entry.1)

/-- `search`. -/
inductive Search (index : IvfflatIndex F dim) (query : Vector F dim) (limit : Nat) :
    Except Fault (List RID) → Prop where
  | fails {fault} : AssignsClusters index query (.error fault) →
      Search index query limit (.error fault)
  | emptyTop {clusterIds} : AssignsClusters index query (.ok clusterIds) →
      OffersAll distanceLess limit (candidates index query clusterIds) [] none →
      Search index query limit (.error .abort)
  | ok {clusterIds queue drained} : AssignsClusters index query (.ok clusterIds) →
      OffersAll distanceLess limit (candidates index query clusterIds) [] (some queue) →
      Drains distanceLess queue drained →
      Search index query limit (.ok (drained.map (·.2)).reverse)

end Ivfflat

end ObHtap
