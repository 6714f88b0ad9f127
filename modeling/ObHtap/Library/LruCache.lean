import Mathlib.Data.List.AList
import Mathlib.Data.List.Basic
import Mathlib.Data.List.Pairwise
import Mathlib.Data.List.Perm.Basic

/-!
# Caches in the order of use

Caches as lists of entries, the most recently used first, and what their calls alone say of the
entries.
-/

namespace ObHtap

/-! ## Caches in the order of use

The entries of a cache are a list without duplicate keys, the most recently used first.  An
entry that is used goes to the front, which is what `AList.insert` does with it. -/

section

/-- The entries are in the order of their use. -/
abbrev LruCache (κ ν : Type) := AList fun _ : κ => ν

namespace LruCache

variable {κ ν : Type} [DecidableEq κ] {cache : LruCache κ ν} {key other : κ} {value : ν}

/-- Changes the values in place. -/
def mapValues (cache : LruCache κ ν) (f : κ → ν → ν) : LruCache κ ν where
  entries := cache.entries.map fun e => ⟨e.1, f e.1 e.2⟩
  nodupKeys := by
    have hkeys : (cache.entries.map fun e => (⟨e.1, f e.1 e.2⟩ : Sigma fun _ : κ => ν)).keys =
        cache.entries.keys := by
      simp [List.keys, Function.comp_def]
    rw [List.NodupKeys, hkeys]
    exact cache.keys_nodup

/-- Changes the value of one key in place. -/
def modify (cache : LruCache κ ν) (key : κ) (f : ν → ν) : LruCache κ ν :=
  cache.mapValues fun k value => if k = key then f value else value

/-- The entry that has not been used for the longest time, of those that `p` accepts. -/
def oldest? (cache : LruCache κ ν) (p : ν → Bool) : Option (Sigma fun _ : κ => ν) :=
  cache.entries.reverse.find? fun e => p e.2

@[simp] theorem lookup_mapValues (cache : LruCache κ ν) (f : κ → ν → ν) (key : κ) :
    (cache.mapValues f).lookup key = (cache.lookup key).map (f key) :=
  List.dlookup_map₂ key

@[simp] theorem lookup_modify_self (cache : LruCache κ ν) (key : κ) (f : ν → ν) :
    (cache.modify key f).lookup key = (cache.lookup key).map f := by
  simp [modify]

theorem lookup_modify_of_ne (h : other ≠ key) (f : ν → ν) :
    (cache.modify key f).lookup other = cache.lookup other := by
  simp [modify, h]

theorem lookup_iff_mem : cache.lookup key = some value ↔ ⟨key, value⟩ ∈ cache.entries := by
  rw [← AList.mem_lookup_iff]
  rfl

theorem lookup_of_oldest? {p : ν → Bool} {e : Sigma fun _ : κ => ν}
    (h : cache.oldest? p = some e) : cache.lookup e.1 = some e.2 ∧ p e.2 = true := by
  have hmem := List.mem_reverse.mp (List.mem_of_find?_eq_some h)
  have hp := List.find?_some (p := fun e : Sigma fun _ : κ => ν => p e.2) h
  exact ⟨lookup_iff_mem.mpr hmem, hp⟩

theorem modify_modify (cache : LruCache κ ν) (key : κ) (f g : ν → ν) :
    (cache.modify key f).modify key g = cache.modify key (g ∘ f) := by
  apply AList.ext
  simp only [modify, mapValues, List.map_map]
  apply List.map_congr_left
  intro e _
  simp only [Function.comp_apply]
  split_ifs <;> rfl

theorem modify_self (cache : LruCache κ ν) (key : κ) :
    (cache.modify key fun v => v) = cache := by
  apply AList.ext
  simp [modify, mapValues]

/-- A change in place that `p` does not see. -/
theorem oldest?_modify {p : ν → Bool} {f : ν → ν} (hp : ∀ v, p (f v) = p v)
    (cache : LruCache κ ν) (key : κ) :
    (cache.modify key f).oldest? p =
      (cache.oldest? p).map fun e => ⟨e.1, if e.1 = key then f e.2 else e.2⟩ := by
  unfold oldest? modify mapValues
  rw [← List.map_reverse, List.find?_map]
  congr 2
  funext e
  simp only [Function.comp_apply]
  split_ifs
  · exact hp e.2
  · rfl

end LruCache

end

/-! ## The order of use

What the entries of a cache are after its calls, and what the calls alone say of them: the value
that a key has been given last, and when it has been touched last.  Keys that are equal count as
one. -/

section

/-- The calls of a cache.  A callback answers to the entries that it has been shown so far. -/
inductive CacheCall (κ ν : Type) where
  | get (key : κ)
  | put (key : κ) (value : ν)
  | remove (key : κ)
  | foreach (func : List (κ × ν) → Bool)
  | foreachReverse (func : List (κ × ν) → Bool)
  | destroy

namespace UseOrder

variable {κ ν : Type}

/-- What is shown to a callback that ends the walk with the answer `false`. -/
def shown (func : List (κ × ν) → Bool) : List (κ × ν) → List (κ × ν) → List (κ × ν)
  | seen, [] => seen
  | seen, entry :: rest =>
    if func (seen ++ [entry]) then shown func (seen ++ [entry]) rest else seen ++ [entry]

theorem sublist_split (l₁ l₂ : List (κ × ν)) (entry : κ × ν) :
    (l₁ ++ l₂).Sublist (l₁ ++ entry :: l₂) :=
  (List.Sublist.refl l₁).append (List.sublist_cons_self entry l₂)

variable [BEq κ]

/-- The entry of a key. -/
def entryOf (entries : List (κ × ν)) (key : κ) : Option (κ × ν) :=
  entries.find? fun entry => key == entry.1

/-- The other entries. -/
def without (entries : List (κ × ν)) (key : κ) : List (κ × ν) :=
  entries.eraseP fun entry => key == entry.1

/-- What a call makes of the entries, the most recently used first. -/
def step (entries : List (κ × ν)) : CacheCall κ ν → List (κ × ν)
  | .get key =>
    match entryOf entries key with
    | some entry => entry :: without entries key
    | none => entries
  | .put key value =>
    match entryOf entries key with
    | some entry => (entry.1, value) :: without entries key
    | none => (key, value) :: entries
  | .remove key => without entries key
  | .foreach _ | .foreachReverse _ => entries
  | .destroy => []

/-- The value that a key has been given last, unless it has been removed since.  The last call
comes first. -/
def held : List (CacheCall κ ν) → κ → Option ν
  | [], _ => none
  | .put key value :: past, other => if key == other then some value else held past other
  | .remove key :: past, other => if key == other then none else held past other
  | .destroy :: _, _ => none
  | .get _ :: past, other | .foreach _ :: past, other | .foreachReverse _ :: past, other =>
    held past other

/-- A call touches the key that it puts, or that it gets and finds. -/
def touches (past : List (CacheCall κ ν)) (call : CacheCall κ ν) (key : κ) : Bool :=
  match call with
  | .get other => other == key && (held past key).isSome
  | .put other _ => other == key
  | _ => false

/-- The number of the call that has touched a key last, and zero if none has. -/
def lastTouch : List (CacheCall κ ν) → κ → Nat
  | [], _ => 0
  | call :: past, key => if touches past call key then past.length + 1 else lastTouch past key

theorem lastTouch_le (past : List (CacheCall κ ν)) (key : κ) : lastTouch past key ≤ past.length := by
  induction past with
  | nil => exact Nat.le_refl 0
  | cons call past ih =>
    rw [lastTouch, List.length_cons]
    split_ifs <;> omega

/-- The entries have different keys. -/
def Distinct (entries : List (κ × ν)) : Prop :=
  entries.Pairwise fun entry entry' => (entry.1 == entry'.1) = false

/-- The entries are what the calls say: each key with its last value, and the key that has been
touched last in front. -/
structure InUseOrder (past : List (CacheCall κ ν)) (entries : List (κ × ν)) : Prop where
  distinct : Distinct entries
  held : ∀ key, (entryOf entries key).map Prod.snd = held past key
  recent : entries.Pairwise fun entry entry' => lastTouch past entry'.1 < lastTouch past entry.1

/-! ## Entries and their keys -/

section

variable {entries l₁ l₂ : List (κ × ν)} {entry : κ × ν} {key : κ}

theorem entryOf_cons (entry : κ × ν) (entries : List (κ × ν)) (key : κ) :
    entryOf (entry :: entries) key = if key == entry.1 then some entry else entryOf entries key := by
  by_cases h : key == entry.1
  · rw [if_pos h]
    exact List.find?_cons_of_pos (p := fun entry : κ × ν => key == entry.1) h
  · rw [if_neg h]
    exact List.find?_cons_of_neg (p := fun entry : κ × ν => key == entry.1) h

theorem entryOf_append (l₁ l₂ : List (κ × ν)) (key : κ) :
    entryOf (l₁ ++ l₂) key = (entryOf l₁ key).or (entryOf l₂ key) :=
  List.find?_append

theorem entryOf_of_not (h : ∀ entry ∈ entries, (key == entry.1) = false) :
    entryOf entries key = none := by
  apply List.find?_eq_none.mpr
  intro entry hentry
  exact Bool.eq_false_iff.mp (h entry hentry)

theorem without_of_not (h : ∀ entry ∈ entries, (key == entry.1) = false) :
    without entries key = entries := by
  apply List.eraseP_of_forall_not
  intro entry hentry
  exact Bool.eq_false_iff.mp (h entry hentry)

/-- Either a key has an entry, or it has none. -/
theorem split_or_not (entries : List (κ × ν)) (key : κ) :
    (∃ l₁ entry l₂, entries = l₁ ++ entry :: l₂ ∧ key == entry.1) ∨
      ∀ entry ∈ entries, (key == entry.1) = false := by
  by_cases h : ∃ entry ∈ entries, key == entry.1
  · obtain ⟨entry, hentry, hkey⟩ := h
    obtain ⟨l₁, l₂, rfl⟩ := List.append_of_mem hentry
    exact .inl ⟨l₁, entry, l₂, rfl, hkey⟩
  · push Not at h
    exact .inr fun entry hentry => Bool.eq_false_iff.mpr (h entry hentry)

variable [EquivBEq κ]

theorem not_beq_of {k other : κ} (h : key == k) (hother : (k == other) = false) :
    (key == other) = false := by
  rw [Bool.eq_false_iff] at hother ⊢
  exact fun hkey => hother (BEq.trans (BEq.symm h) hkey)

/-- There is one entry of a key at most. -/
theorem not_beq_of_split (hdistinct : Distinct (l₁ ++ entry :: l₂)) (hkey : key == entry.1) :
    ∀ other ∈ l₁ ++ l₂, (key == other.1) = false := by
  obtain ⟨-, hrest, hbefore⟩ := List.pairwise_append.mp hdistinct
  intro other hother
  apply not_beq_of hkey
  rcases List.mem_append.mp hother with hmem | hmem
  · rw [BEq.comm]
    exact hbefore other hmem entry List.mem_cons_self
  · exact (List.pairwise_cons.mp hrest).1 other hmem

theorem entryOf_split (hdistinct : Distinct (l₁ ++ entry :: l₂)) (key : κ) :
    entryOf (l₁ ++ entry :: l₂) key =
      if key == entry.1 then some entry else entryOf (l₁ ++ l₂) key := by
  rw [entryOf_append, entryOf_append, entryOf_cons]
  split_ifs with hkey
  · rw [entryOf_of_not, Option.none_or]
    intro other hother
    exact not_beq_of_split hdistinct hkey other (List.mem_append_left l₂ hother)
  · rfl

theorem without_split (hdistinct : Distinct (l₁ ++ entry :: l₂)) (hkey : key == entry.1) :
    without (l₁ ++ entry :: l₂) key = l₁ ++ l₂ := by
  have hnot (other : κ × ν) (hother : other ∈ l₁) : ¬ (key == other.1) = true :=
    Bool.eq_false_iff.mp
      (not_beq_of_split hdistinct hkey other (List.mem_append_left l₂ hother))
  rw [without, List.eraseP_append_right _ hnot,
    List.eraseP_cons_of_pos (p := fun entry : κ × ν => key == entry.1) hkey]

end

/-! ## A call -/

section

variable {past : List (CacheCall κ ν)} {call : CacheCall κ ν} {entries kept : List (κ × ν)}
  {entry : κ × ν} {key k : κ} {value : ν}

theorem lastTouch_of_not (h : touches past call key = false) :
    lastTouch (call :: past) key = lastTouch past key :=
  if_neg (Bool.eq_false_iff.mp h)

theorem recent_kept
    (h : kept.Pairwise fun entry entry' => lastTouch past entry'.1 < lastTouch past entry.1)
    (hnot : ∀ entry ∈ kept, touches past call entry.1 = false) :
    kept.Pairwise fun entry entry' =>
      lastTouch (call :: past) entry'.1 < lastTouch (call :: past) entry.1 := by
  apply h.imp_of_mem
  intro entry entry' hentry hentry' hlt
  rw [lastTouch_of_not (hnot entry hentry), lastTouch_of_not (hnot entry' hentry')]
  exact hlt

theorem recent_toFront (call : CacheCall κ ν)
    (h : kept.Pairwise fun entry entry' => lastTouch past entry'.1 < lastTouch past entry.1)
    (hnot : ∀ entry ∈ kept, touches past call entry.1 = false)
    (htouch : touches past call entry.1 = true) :
    (entry :: kept).Pairwise fun entry entry' =>
      lastTouch (call :: past) entry'.1 < lastTouch (call :: past) entry.1 := by
  apply List.Pairwise.cons _ (recent_kept h hnot)
  intro entry' hentry'
  have hle := lastTouch_le past entry'.1
  rw [lastTouch_of_not (hnot entry' hentry'), lastTouch, if_pos htouch]
  omega

/-- A call that touches nothing and changes no value leaves the entries as they are. -/
theorem InUseOrder.idle (h : InUseOrder past entries)
    (hheld : ∀ key, UseOrder.held (call :: past) key = UseOrder.held past key)
    (hnot : ∀ entry ∈ entries, touches past call entry.1 = false) :
    InUseOrder (call :: past) entries where
  distinct := h.distinct
  held key := by rw [hheld, h.held]
  recent := recent_kept h.recent hnot

theorem inUseOrder_nil : InUseOrder ([] : List (CacheCall κ ν)) [] :=
  ⟨List.Pairwise.nil, fun _ => rfl, List.Pairwise.nil⟩

variable [EquivBEq κ]

theorem InUseOrder.get (h : InUseOrder past entries) (key : κ) :
    InUseOrder (.get key :: past) (step entries (.get key)) := by
  rcases split_or_not entries key with ⟨l₁, entry, l₂, rfl, hkey⟩ | hnot
  · have hother := not_beq_of_split h.distinct hkey
    have hentry := entryOf_split h.distinct key
    rw [if_pos hkey] at hentry
    have hstep : step (l₁ ++ entry :: l₂) (.get key) = entry :: (l₁ ++ l₂) := by
      simp only [step, hentry, without_split h.distinct hkey]
    have hheld : (UseOrder.held past entry.1).isSome := by
      rw [← h.held, entryOf_split h.distinct, if_pos BEq.rfl]
      rfl
    rw [hstep]
    constructor
    · apply List.Pairwise.cons _ (h.distinct.sublist (sublist_split l₁ l₂ entry))
      exact not_beq_of_split h.distinct BEq.rfl
    · intro other
      rw [UseOrder.held, ← h.held, entryOf_split h.distinct, entryOf_cons]
    · apply recent_toFront _ (h.recent.sublist (sublist_split l₁ l₂ entry))
      · intro other hmem
        rw [touches, hother other hmem, Bool.false_and]
      · rw [touches, hkey, hheld, Bool.and_true]
  · have hstep : step entries (.get key) = entries := by simp only [step, entryOf_of_not hnot]
    rw [hstep]
    apply h.idle (fun _ => rfl)
    intro other hmem
    rw [touches, hnot other hmem, Bool.false_and]

/-- A key that is put stands in front of the entries of the other keys. -/
theorem inUseOrder_put (hkey : key == k) (hdistinct : Distinct kept)
    (hnot : ∀ entry ∈ kept, (key == entry.1) = false)
    (hheld : ∀ other, (key == other) = false → (entryOf kept other).map Prod.snd = held past other)
    (hrecent : kept.Pairwise fun entry entry' =>
      lastTouch past entry'.1 < lastTouch past entry.1) :
    InUseOrder (.put key value :: past) ((k, value) :: kept) := by
  constructor
  · apply List.Pairwise.cons _ hdistinct
    intro entry hentry
    exact not_beq_of (BEq.symm hkey) (hnot entry hentry)
  · intro other
    have hsame : (other == k) = (key == other) := by
      rw [Bool.eq_iff_iff]
      exact ⟨fun h => BEq.trans hkey (BEq.symm h), fun h => BEq.trans (BEq.symm h) hkey⟩
    rw [held, entryOf_cons, hsame]
    split_ifs with hother
    · rfl
    · exact hheld other (Bool.eq_false_iff.mpr hother)
  · exact recent_toFront (.put key value) hrecent hnot hkey

theorem InUseOrder.put (h : InUseOrder past entries) (key : κ) (value : ν) :
    InUseOrder (.put key value :: past) (step entries (.put key value)) := by
  rcases split_or_not entries key with ⟨l₁, entry, l₂, rfl, hkey⟩ | hnot
  · have hentry := entryOf_split h.distinct key
    rw [if_pos hkey] at hentry
    have hstep : step (l₁ ++ entry :: l₂) (.put key value) = (entry.1, value) :: (l₁ ++ l₂) := by
      simp only [step, hentry, without_split h.distinct hkey]
    rw [hstep]
    apply inUseOrder_put hkey (h.distinct.sublist (sublist_split l₁ l₂ entry))
      (not_beq_of_split h.distinct hkey)
    · intro other hother
      have hne : ¬ (other == entry.1) = true := by
        intro heq
        rw [BEq.trans hkey (BEq.symm heq)] at hother
        exact Bool.false_ne_true hother.symm
      rw [← h.held, entryOf_split h.distinct, if_neg hne]
    · exact h.recent.sublist (sublist_split l₁ l₂ entry)
  · have hstep : step entries (.put key value) = (key, value) :: entries := by
      simp only [step, entryOf_of_not hnot]
    rw [hstep]
    exact inUseOrder_put BEq.rfl h.distinct hnot (fun other _ => h.held other) h.recent

theorem InUseOrder.remove (h : InUseOrder past entries) (key : κ) :
    InUseOrder (.remove key :: past) (step entries (.remove key)) := by
  rw [step]
  rcases split_or_not entries key with ⟨l₁, entry, l₂, rfl, hkey⟩ | hnot
  · rw [without_split h.distinct hkey]
    constructor
    · exact h.distinct.sublist (sublist_split l₁ l₂ entry)
    · intro other
      rw [UseOrder.held, ← h.held, entryOf_split h.distinct]
      by_cases hother : key == other
      · have hnone : entryOf (l₁ ++ l₂) other = none := by
          apply entryOf_of_not
          exact not_beq_of_split h.distinct (BEq.trans (BEq.symm hother) hkey)
        rw [if_pos hother, hnone]
        rfl
      · have hne : ¬ (other == entry.1) = true :=
          fun heq => hother (BEq.trans hkey (BEq.symm heq))
        rw [if_neg hother, if_neg hne]
    · exact recent_kept (h.recent.sublist (sublist_split l₁ l₂ entry)) fun _ _ => rfl
  · rw [without_of_not hnot]
    constructor
    · exact h.distinct
    · intro other
      rw [UseOrder.held, ← h.held]
      split_ifs with hother
      · rw [entryOf_of_not, Option.map_none]
        intro entry hentry
        exact not_beq_of (BEq.symm hother) (hnot entry hentry)
      · rfl
    · exact recent_kept h.recent fun _ _ => rfl

theorem InUseOrder.step (h : InUseOrder past entries) (call : CacheCall κ ν) :
    InUseOrder (call :: past) (UseOrder.step entries call) := by
  cases call with
  | get key => exact h.get key
  | put key value => exact h.put key value
  | remove key => exact h.remove key
  | foreach func => exact h.idle (fun _ => rfl) fun _ _ => rfl
  | foreachReverse func => exact h.idle (fun _ => rfl) fun _ _ => rfl
  | destroy => exact ⟨List.Pairwise.nil, fun _ => rfl, List.Pairwise.nil⟩

end

end UseOrder

/-! ## The calls of an association list -/

namespace LruCache

variable {κ ν : Type}

/-- The keys with their values. -/
def toPairs (cache : LruCache κ ν) : List (κ × ν) :=
  cache.entries.map fun e => (e.1, e.2)

variable [DecidableEq κ]

/-- What a call makes of the cache. -/
def after (cache : LruCache κ ν) : CacheCall κ ν → LruCache κ ν
  | .get key =>
    match cache.lookup key with
    | some value => cache.insert key value
    | none => cache
  | .put key value => cache.insert key value
  | .remove key => cache.erase key
  | .foreach _ | .foreachReverse _ => cache
  | .destroy => ∅

theorem entryOf_toPairs (cache : LruCache κ ν) (key : κ) :
    UseOrder.entryOf cache.toPairs key = (cache.lookup key).map fun value => (key, value) := by
  unfold toPairs AList.lookup
  induction cache.entries with
  | nil => rfl
  | cons e entries ih =>
    rw [List.map_cons, UseOrder.entryOf_cons]
    by_cases h : key = e.1
    · subst h
      rw [if_pos BEq.rfl, List.dlookup_cons_eq]
      rfl
    · rw [if_neg (by simpa using h), ih, List.dlookup_cons_ne entries e h]

theorem without_toPairs (cache : LruCache κ ν) (key : κ) :
    UseOrder.without cache.toPairs key = toPairs (cache.erase key) :=
  List.eraseP_map

theorem toPairs_insert (cache : LruCache κ ν) (key : κ) (value : ν) :
    toPairs (cache.insert key value) = (key, value) :: UseOrder.without cache.toPairs key := by
  rw [without_toPairs]
  rfl

/-- The association list goes with the order of use. -/
theorem toPairs_after (cache : LruCache κ ν) (call : CacheCall κ ν) :
    (cache.after call).toPairs = UseOrder.step cache.toPairs call := by
  cases call with
  | get key =>
    rw [UseOrder.step, after, entryOf_toPairs]
    cases cache.lookup key with
    | none => rfl
    | some value => exact toPairs_insert cache key value
  | put key value =>
    rw [UseOrder.step, after, entryOf_toPairs, toPairs_insert]
    cases h : cache.lookup key with
    | none =>
      have hnone : UseOrder.entryOf cache.toPairs key = none := by rw [entryOf_toPairs, h]; rfl
      have hnot := List.find?_eq_none.mp hnone
      rw [UseOrder.without_of_not fun entry hentry => Bool.eq_false_iff.mpr (hnot entry hentry)]
      rfl
    | some old => rfl
  | remove key => exact (without_toPairs cache key).symm
  | foreach func => rfl
  | foreachReverse func => rfl
  | destroy => rfl

end LruCache

end

end ObHtap
