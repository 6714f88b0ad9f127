import ObHtap.Sql.Value

/-!
# The hash table with linear probing

`LinearProbingAggregateHashTable` (`aggregate_hash_table.h`, `aggregate_hash_table.cpp`): lookups,
and the rehashing into a table of twice the capacity.
-/

namespace ObHtap

namespace Sql

/-- `EMPTY_KEY`, which is `0xffffffff` as an `int`. -/
def emptyKey : Int32 :=
  -1

structure LinearProbingTable (V : Type) where
  keys : List Int32
  values : List V
  size : Int32
  capacity : Int32

namespace LinearProbingTable

variable {V : Type}

/-- The table as its constructor leaves it. -/
def create [Zero V] (capacity : Int32) : LinearProbingTable V where
  keys := List.replicate capacity.toInt.toNat emptyKey
  values := List.replicate capacity.toInt.toNat 0
  size := 0
  capacity

/-- An element of a vector at an `int`. -/
def elementAt {α : Type} (elems : List α) (index : Int32) : Except Fault α :=
  if index < 0 then .error .abort
  else (elems[index.toInt.toNat]?).elim (.error .abort) .ok

/-- `index % capacity`, which the machine has for no capacity of zero. -/
def remainder (index capacity : Int32) : Except Fault Int32 :=
  if capacity = 0 then .error .abort else .ok (index % capacity)

/-- `(key % capacity + capacity) % capacity`. -/
def homeSlot (key capacity : Int32) : Except Fault Int32 := do
  let sum ← Value.checkedInt ((← remainder key capacity).toInt + capacity.toInt)
  remainder sum capacity

/-- `(index + 1) % capacity`. -/
def nextSlot (index capacity : Int32) : Except Fault Int32 := do
  remainder (← Value.checkedInt (index.toInt + 1)) capacity

/-- The loop of `get`, in so many rounds at most. -/
def getFrom (t : LinearProbingTable V) (key : Int32) : Nat → Int32 → Int32 → Except Fault V
  | 0, _, _ => .error .outOfFuel
  | rounds + 1, index, iterateCnt => do
    let slot ← elementAt t.keys index
    if slot = emptyKey then .error (.rc .notExist)
    else if slot = key then elementAt t.values index
    else do
      let index ← nextSlot index t.capacity
      let iterateCnt ← Value.checkedInt (iterateCnt.toInt + 1)
      if t.capacity < iterateCnt then .error (.rc .notExist) else getFrom t key rounds index iterateCnt

/-- `get`, whose loop counts its rounds. -/
def get (t : LinearProbingTable V) (key : Int32) : Except Fault V := do
  getFrom t key (t.capacity.toInt.toNat + 1) (← homeSlot key t.capacity) 0

/-! ## `resize` -/

/-- The inner loop of `resize`, in so many rounds at most: the first slot that is not taken. -/
def freeSlot (newKeys : List Int32) (capacity : Int32) : Nat → Int32 → Except Fault Int32
  | 0, _ => .error .outOfFuel
  | rounds + 1, index => do
    if (← elementAt newKeys index) ≠ emptyKey then
      freeSlot newKeys capacity rounds (← nextSlot index capacity)
    else .ok index

/-- A round of the outer loop of `resize`, with a key and its value. -/
def rehash (capacity : Int32) (rounds : Nat) (new : List Int32 × List V) (entry : Int32 × V) :
    Except Fault (List Int32 × List V) :=
  if entry.1 ≠ emptyKey then do
    let index ← freeSlot new.1 capacity rounds (← homeSlot entry.1 capacity)
    .ok (new.1.set index.toInt.toNat entry.1, new.2.set index.toInt.toNat entry.2)
  else .ok new

/-- `resize`.  The elements of a new vector are zeros. -/
def resize [Zero V] (t : LinearProbingTable V) (rounds : Nat) :
    Except Fault (LinearProbingTable V) := do
  let capacity ← Value.checkedInt (t.capacity.toInt * 2)
  let n := capacity.toInt.toNat
  let (keys, values) ←
    (t.keys.zip t.values).foldlM (rehash capacity rounds) (List.replicate n 0, List.replicate n 0)
  .ok ⟨keys, values, t.size, capacity⟩

/-! ## Slots -/

/-- The vectors have as many elements as the capacity says. -/
structure IsTable (t : LinearProbingTable V) : Prop where
  keys_length : (t.keys.length : Int) = t.capacity.toInt
  values_length : t.values.length = t.keys.length

/-- The keys that are stored. -/
def storedKeys (t : LinearProbingTable V) : List Int32 :=
  t.keys.filter (· ≠ emptyKey)

theorem isTable_create [Zero V] {capacity : Int32} (h : 0 ≤ capacity.toInt) :
    (create capacity : LinearProbingTable V).IsTable := by
  constructor
  · simp only [create, List.length_replicate]
    omega
  · simp only [create, List.length_replicate]

section

variable {α : Type} {elems : List α} {elem : α} {key index capacity : Int32}

theorem mem_of_elementAt (h : elementAt elems index = .ok elem) : elem ∈ elems := by
  unfold elementAt at h
  split_ifs at h
  cases hget : elems[index.toInt.toNat]? with
  | none =>
    rw [hget] at h
    cases h
  | some elem' =>
    rw [hget] at h
    rw [← Except.ok.inj h]
    exact List.mem_of_getElem? hget

/-- An index of a slot. -/
def InTable (capacity index : Int32) : Prop :=
  0 ≤ index.toInt ∧ index.toInt < capacity.toInt

theorem exists_elementAt (hlen : (elems.length : Int) = capacity.toInt)
    (h : InTable capacity index) : ∃ elem, elementAt elems index = .ok elem := by
  obtain ⟨hnonneg, hlt⟩ := h
  have hin : index.toInt.toNat < elems.length := by omega
  have hneg : ¬ index < 0 := by
    rw [Int32.lt_iff_toInt_lt]
    exact not_lt.mpr hnonneg
  refine ⟨elems[index.toInt.toNat], ?_⟩
  rw [elementAt, if_neg hneg, List.getElem?_eq_getElem hin]
  rfl

/-- What is left of a number that is not negative is an index of a slot. -/
theorem exists_remainder (hcap : 0 < capacity.toInt) (h : 0 ≤ index.toInt) :
    ∃ slot, remainder index capacity = .ok slot ∧ InTable capacity slot := by
  have hne : capacity ≠ 0 := by
    rintro rfl
    exact absurd hcap (by decide)
  refine ⟨index % capacity, if_neg hne, ?_⟩
  rw [InTable, Int32.toInt_mod]
  exact ⟨Int.tmod_nonneg _ h, Int.tmod_lt_of_pos _ hcap⟩

theorem exists_nextSlot (h : InTable capacity index) :
    ∃ slot, nextSlot index capacity = .ok slot ∧ InTable capacity slot := by
  have hle := capacity.toInt_lt
  obtain ⟨hnonneg, hlt⟩ := h
  rw [nextSlot, checkedInt_of (by omega), ok_bind]
  apply exists_remainder (by omega)
  rw [toInt_ofInt (by omega)]
  omega

/-- A negative key is brought among the slots by the second `%`. -/
theorem exists_homeSlot (key : Int32) (hcap : 0 < capacity.toInt) (hle : capacity.toInt ≤ 2 ^ 30) :
    ∃ slot, homeSlot key capacity = .ok slot ∧ InTable capacity slot := by
  have hne : capacity ≠ 0 := by
    rintro rfl
    exact absurd hcap (by decide)
  have hlow := Int.lt_tmod_of_pos key.toInt hcap
  have hhigh := Int.tmod_lt_of_pos key.toInt hcap
  rw [homeSlot, remainder, if_neg hne, ok_bind, Int32.toInt_mod, checkedInt_of (by omega), ok_bind]
  apply exists_remainder hcap
  rw [toInt_ofInt (by omega)]
  omega

end

/-! ## No slot of a new vector is free -/

section

variable {newKeys : List Int32} {capacity : Int32} {rounds : Nat} {new new' : List Int32 × List V}
  {entries : List (Int32 × V)}

theorem freeSlot_ne_ok (h : emptyKey ∉ newKeys) (index slot : Int32) :
    freeSlot newKeys capacity rounds index ≠ .ok slot := by
  induction rounds generalizing index with
  | zero => exact fun hok => by cases hok
  | succ rounds ih =>
    intro hok
    rw [freeSlot] at hok
    obtain ⟨key, hkey, hok⟩ := bind_eq_ok hok
    have hne : key ≠ emptyKey := fun heq => h (heq ▸ mem_of_elementAt hkey)
    rw [if_pos hne] at hok
    obtain ⟨next, -, hok⟩ := bind_eq_ok hok
    exact ih next hok

/-- Among taken slots the inner loop goes on for ever. -/
theorem freeSlot_outOfFuel (h : emptyKey ∉ newKeys)
    (hlen : (newKeys.length : Int) = capacity.toInt) {index : Int32}
    (hindex : InTable capacity index) :
    freeSlot newKeys capacity rounds index = .error .outOfFuel := by
  induction rounds generalizing index with
  | zero => rfl
  | succ rounds ih =>
    obtain ⟨key, hkey⟩ := exists_elementAt hlen hindex
    obtain ⟨next, hnext, hin⟩ := exists_nextSlot hindex
    have hne : key ≠ emptyKey := fun heq => h (heq ▸ mem_of_elementAt hkey)
    rw [freeSlot, hkey, ok_bind, if_pos hne, hnext, ok_bind]
    exact ih hin

/-- The outer loop gets past the slots without a key, and past no other. -/
theorem foldlM_rehash_eq_ok (h : emptyKey ∉ new.1) :
    entries.foldlM (rehash capacity rounds) new = .ok new' ↔
      (∀ entry ∈ entries, entry.1 = emptyKey) ∧ new' = new := by
  induction entries with
  | nil =>
    constructor
    · intro hok
      exact ⟨fun entry hentry => (List.not_mem_nil hentry).elim, (Except.ok.inj hok).symm⟩
    · rintro ⟨-, rfl⟩
      rfl
  | cons entry entries ih =>
    rw [List.foldlM_cons, List.forall_mem_cons]
    by_cases hkey : entry.1 = emptyKey
    · rw [rehash, if_neg (not_not.mpr hkey), ok_bind, ih]
      simp only [hkey, true_and]
    · simp only [hkey, false_and, iff_false]
      intro hok
      obtain ⟨after, hrehash, -⟩ := bind_eq_ok hok
      rw [rehash, if_pos hkey] at hrehash
      obtain ⟨slot, -, hrehash⟩ := bind_eq_ok hrehash
      obtain ⟨free, hfree, -⟩ := bind_eq_ok hrehash
      exact freeSlot_ne_ok h slot free hfree

theorem foldlM_rehash_outOfFuel (h : emptyKey ∉ new.1)
    (hlen : (new.1.length : Int) = capacity.toInt) (hcap : 0 < capacity.toInt)
    (hsmall : capacity.toInt ≤ 2 ^ 30) (hkey : ∃ entry ∈ entries, entry.1 ≠ emptyKey) :
    entries.foldlM (rehash capacity rounds) new = .error .outOfFuel := by
  induction entries with
  | nil => exact absurd hkey (by simp)
  | cons entry entries ih =>
    rw [List.foldlM_cons]
    by_cases hhead : entry.1 = emptyKey
    · rw [rehash, if_neg (not_not.mpr hhead), ok_bind]
      apply ih
      rw [List.exists_mem_cons_iff] at hkey
      exact hkey.resolve_left (not_not.mpr hhead)
    · obtain ⟨slot, hslot, hin⟩ := exists_homeSlot entry.1 hcap hsmall
      rw [rehash, if_pos hhead, hslot, ok_bind, freeSlot_outOfFuel h hlen hin]
      rfl

end

/-! ## What `resize` does -/

theorem emptyKey_notMem_replicate (n : Nat) : emptyKey ∉ List.replicate n (0 : Int32) := by
  intro hmem
  exact absurd (List.eq_of_mem_replicate hmem) (by decide)

section

variable {t t' : LinearProbingTable V}

theorem storedKeys_eq_nil : t.storedKeys = [] ↔ ∀ key ∈ t.keys, key = emptyKey := by
  simp only [storedKeys, List.filter_eq_nil_iff, decide_eq_true_eq, not_not]

theorem forall_mem_zip (ht : t.IsTable) :
    (∀ entry ∈ t.keys.zip t.values, entry.1 = emptyKey) ↔ t.storedKeys = [] := by
  have hfst : (t.keys.zip t.values).map Prod.fst = t.keys :=
    List.map_fst_zip ht.values_length.ge
  rw [storedKeys_eq_nil]
  conv_rhs => rw [← hfst]
  rw [List.forall_mem_map]

variable [Zero V]

/-- The table with twice the slots, all of which have the key zero. -/
def zeroed (t : LinearProbingTable V) : LinearProbingTable V :=
  let n := (t.capacity.toInt * 2).toNat
  ⟨List.replicate n 0, List.replicate n 0, t.size, Int32.ofInt (t.capacity.toInt * 2)⟩

/-- `resize` comes to an end only for a table without keys, and gives one whose slots all have the
key zero. -/
theorem resize_eq_ok (ht : t.IsTable) (rounds : Nat) :
    t.resize rounds = .ok t' ↔
      t.storedKeys = [] ∧ t.capacity.toInt * 2 ≤ 2147483647 ∧ t' = t.zeroed := by
  have hnonneg : 0 ≤ t.capacity.toInt := by have := ht.keys_length; omega
  rw [← forall_mem_zip ht]
  by_cases hle : t.capacity.toInt * 2 ≤ 2147483647
  · have hcap : (Int32.ofInt (t.capacity.toInt * 2)).toInt = t.capacity.toInt * 2 :=
      toInt_ofInt (by omega)
    simp only [hle, true_and]
    rw [resize, checkedInt_of (by omega), ok_bind]
    simp only [hcap]
    constructor
    · intro hok
      obtain ⟨new, hfold, hok⟩ := bind_eq_ok hok
      obtain ⟨hempty, rfl⟩ := (foldlM_rehash_eq_ok (emptyKey_notMem_replicate _)).mp hfold
      exact ⟨hempty, (Except.ok.inj hok).symm⟩
    · rintro ⟨hempty, rfl⟩
      rw [(foldlM_rehash_eq_ok (emptyKey_notMem_replicate _)).mpr ⟨hempty, rfl⟩]
      rfl
  · have hover : Value.checkedInt (t.capacity.toInt * 2) = .error .abort :=
      if_neg fun h => hle h.2
    rw [resize, hover]
    simp only [hle, false_and, and_false, iff_false]
    exact fun hok => by cases hok

/-- With a key in the table the loop never ends, however many rounds it is given. -/
theorem resize_outOfFuel (ht : t.IsTable) (hsmall : t.capacity.toInt ≤ 2 ^ 29)
    (hstored : t.storedKeys ≠ []) (rounds : Nat) : t.resize rounds = .error .outOfFuel := by
  have hkey : ∃ entry ∈ t.keys.zip t.values, entry.1 ≠ emptyKey := by
    rw [Ne, ← forall_mem_zip ht] at hstored
    push Not at hstored
    exact hstored
  have hpos : 0 < t.capacity.toInt := by
    obtain ⟨entry, hentry, -⟩ := hkey
    have hmem := (List.of_mem_zip hentry).1
    rw [← ht.keys_length]
    exact_mod_cast List.length_pos_of_mem hmem
  have hcap : (Int32.ofInt (t.capacity.toInt * 2)).toInt = t.capacity.toInt * 2 :=
    toInt_ofInt (by omega)
  have hloop : (t.keys.zip t.values).foldlM (rehash (Int32.ofInt (t.capacity.toInt * 2)) rounds)
      (List.replicate (t.capacity.toInt * 2).toNat 0,
        List.replicate (t.capacity.toInt * 2).toNat 0) = .error .outOfFuel := by
    apply foldlM_rehash_outOfFuel (emptyKey_notMem_replicate _) _ (by omega) (by omega) hkey
    rw [List.length_replicate]
    omega
  rw [resize, checkedInt_of (by omega), ok_bind]
  simp only [hcap, hloop]
  rfl

/-- What `resize` is for: it ends, a key that was there is found with its value, one that was not
is not found, and the slots without a key are marked. -/
def ResizePreserves (t : LinearProbingTable V) : Prop :=
  ∃ rounds t', t.resize rounds = .ok t' ∧ (∀ key, key ≠ emptyKey → t'.get key = t.get key) ∧
    ∀ slot ∈ t'.keys, slot ∉ t.storedKeys → slot = emptyKey

/-- `resize` does so for no table with a slot to spare. -/
theorem not_resizePreserves (ht : t.IsTable)
    (hfree : (t.storedKeys.length : Int) < t.capacity.toInt) : ¬ t.ResizePreserves := by
  rintro ⟨rounds, t', hresize, -, hmarked⟩
  obtain ⟨hempty, -, rfl⟩ := (resize_eq_ok ht rounds).mp hresize
  -- the new slots hold a key that was not there, and none of them is marked
  have hzero : (0 : Int32) ∈ t.zeroed.keys := by
    apply List.mem_replicate.mpr
    exact ⟨by omega, rfl⟩
  have hnot : (0 : Int32) ∉ t.storedKeys := by
    rw [hempty]
    exact List.not_mem_nil
  exact absurd (hmarked 0 hzero hnot) (by decide)

/-- A table with the keys 5 and 6, and two slots to spare. -/
def twoKeys : LinearProbingTable Int where
  keys := [emptyKey, 5, 6, emptyKey]
  values := [0, 7, 8, 0]
  size := 2
  capacity := 4

theorem not_resizePreserves_twoKeys :
    twoKeys.get 5 = .ok 7 ∧ twoKeys.get 6 = .ok 8 ∧ ¬ twoKeys.ResizePreserves :=
  ⟨by decide, by decide, not_resizePreserves ⟨rfl, rfl⟩ (by decide)⟩

/-- A table with the key 5. -/
def oneKey : LinearProbingTable Int where
  keys := [emptyKey, 5]
  values := [0, 7]
  size := 1
  capacity := 2

/-- The key is found before, and `resize` does not end. -/
theorem oneKey_resize :
    oneKey.IsTable ∧ (oneKey.storedKeys.length : Int) < oneKey.capacity.toInt ∧
      oneKey.get 5 = .ok 7 ∧ (∀ rounds, oneKey.resize rounds = .error .outOfFuel) ∧
        ¬ oneKey.ResizePreserves := by
  have htable : oneKey.IsTable := ⟨rfl, rfl⟩
  have hloops := resize_outOfFuel htable (by decide) (by decide)
  refine ⟨htable, by decide, by decide, hloops, ?_⟩
  rintro ⟨rounds, t', hresize, -, -⟩
  rw [hloops rounds] at hresize
  cases hresize

end

end LinearProbingTable

end Sql

end ObHtap
