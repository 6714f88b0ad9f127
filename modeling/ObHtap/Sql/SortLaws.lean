import ObHtap.Library.LexComparison
import ObHtap.Sql.GroupYield
import ObHtap.Sql.ValueOrder

/-!
# What ORDER BY sorts by

The comparator of `SortPhysicalOperator` goes through the keys; a vector is compared element by
element, so each of its elements is a key of its own.  Floats within `EPSILON` of each other are
the same to it, and that is not transitive.
-/

namespace ObHtap

namespace Sql

variable {r : Rounding}

/-! ## The types of a key -/

/-- A type with values that can be compared. -/
inductive KeyType where
  | ints
  | floats
  | dates
  | chars
  | vectors (dimension : Nat)

/-- A value of the type, or NULL. -/
inductive HasKeyType {F : Type} : KeyType → Value F → Prop where
  | nulls (t : KeyType) : HasKeyType t .nulls
  | ints (v : Int32) : HasKeyType .ints (.ints v)
  | floats (v : F) : HasKeyType .floats (.floats v)
  | dates (v : Int32) : HasKeyType .dates (.dates v)
  | chars (pointer : Option (List UInt8)) : HasKeyType .chars (.chars pointer)
  | vectors (elems : List F) : HasKeyType (.vectors elems.length) (.vectors elems)

section

variable {F : Type}

def Value.ints? : Value F → Option Int32
  | .ints v => some v
  | _ => none

def Value.floats? : Value F → Option F
  | .floats v => some v
  | _ => none

def Value.dates? : Value F → Option Int32
  | .dates v => some v
  | _ => none

def Value.chars? : Value F → Option (List UInt8)
  | .chars pointer => some (pointer.getD [])
  | _ => none

def Value.vectors? : Value F → Option (List F)
  | .vectors elems => some elems
  | _ => none

/-- What `Value::get_string` prints for a string or NULL. -/
def Value.text? : Value F → Option (List UInt8)
  | .chars pointer => some (pointer.getD [])
  | .nulls => some "null".toUTF8.toList
  | _ => none

/-- NULL is below everything else. -/
def nullCompare (left right : Value F) : Int :=
  if left.isNull = right.isNull then 0 else if left.isNull then -1 else 1

/-- The comparisons that decide between two values of a type, one after the other. -/
def keyCompares [Floats F] (t : KeyType) : List (Value F → Value F → Int) :=
  nullCompare :: match t with
    | .ints => [partialCompare Value.ints? compareInt]
    | .floats => [partialCompare Value.floats? compareFloat]
    | .dates => [partialCompare Value.dates? compareInt]
    | .chars => [partialCompare Value.chars? compareString]
    | .vectors dimension =>
      (listCompares compareFloat dimension).map (partialCompare Value.vectors?)

theorem strictCompare_nullCompare : StrictCompare (nullCompare : Value F → Value F → Int) where
  swap x y := by
    unfold nullCompare
    cases x.isNull <;> cases y.isNull <;> decide
  trans x y z := by
    unfold nullCompare
    cases x.isNull <;> cases y.isNull <;> cases z.isNull <;> decide

end

theorem strictCompare_of_ranked {κ ρ : Type} [LinearOrder ρ] {f : κ → κ → Int} {rank : κ → ρ}
    (h : RankedBy f rank) : StrictCompare f where
  swap x y := (h.neg_iff x y).trans (h.pos_iff y x).symm
  trans x y z hxy hyz :=
    (h.neg_iff x z).mpr (((h.neg_iff x y).mp hxy).trans ((h.neg_iff y z).mp hyz))

theorem strictCompare_compareFloat :
    StrictCompare (compareFloat : RoundedFloat r → RoundedFloat r → Int) where
  swap x y := by
    have hswap := Value.compareFloat_swap x y
    omega
  trans x y z hxy hyz := by
    have hxy' := (Value.compareFloat_iff x y).2.1.mp hxy
    have hyz' := (Value.compareFloat_iff y z).2.1.mp hyz
    have hle : x.toRat ≤ y.toRat := by
      by_contra hlt
      have hround := r.monotone (sub_nonneg.mpr (not_le.mp hlt).le)
      rw [Value.round_zero] at hround
      linarith
    have hround := r.monotone (sub_le_sub_right hle z.toRat)
    exact (Value.compareFloat_iff x z).2.1.mpr (hround.trans_lt hyz')

theorem strictCompare_keyCompares (t : KeyType) :
    ∀ c ∈ (keyCompares t : List (Value (RoundedFloat r) → Value (RoundedFloat r) → Int)),
      StrictCompare c := by
  refine List.forall_mem_cons.mpr ⟨strictCompare_nullCompare, ?_⟩
  cases t with
  | ints =>
    exact List.forall_mem_singleton.mpr
      (strictCompare_of_ranked Value.ranked_compareInt).partialCompare
  | floats => exact List.forall_mem_singleton.mpr strictCompare_compareFloat.partialCompare
  | dates =>
    exact List.forall_mem_singleton.mpr
      (strictCompare_of_ranked Value.ranked_compareInt).partialCompare
  | chars =>
    exact List.forall_mem_singleton.mpr
      (strictCompare_of_ranked Value.ranked_compareString).partialCompare
  | vectors dimension =>
    intro c hc
    obtain ⟨c', hc', rfl⟩ := List.mem_map.mp hc
    exact (strictCompare_listCompares strictCompare_compareFloat dimension c' hc').partialCompare

/-! ## What `Value::compare` says of two values of a type -/

/-- Vectors of one length are compared up to the first elements that differ. -/
theorem compareVectors_sign (xs ys : List (RoundedFloat r)) (h : xs.length = ys.length) :
    ∃ n, Value.compareVectors xs ys = .ok n ∧
      HasSign (listCompares compareFloat xs.length) xs ys n := by
  induction xs generalizing ys with
  | nil => exact ⟨0, rfl, hasSign_nil⟩
  | cons x xs ih =>
    cases ys with
    | nil => cases h
    | cons y ys =>
      obtain ⟨n, hn, hsign⟩ := ih ys (Nat.succ.inj h)
      have htail : HasSign ((listCompares compareFloat xs.length).map
          fun c xs ys => c xs.tail ys.tail) (x :: xs) (y :: ys) n := hsign.comap
      have hfirst : StrictCompare (partialCompare List.head?
          (compareFloat : RoundedFloat r → RoundedFloat r → Int)) :=
        strictCompare_compareFloat.partialCompare
      rw [Value.compareVectors]
      split_ifs with hzero
      · exact ⟨n, hn, htail.cons hfirst hzero⟩
      · exact ⟨_, rfl, hasSign_of_first hfirst hzero Iff.rfl Iff.rfl⟩

theorem HasKeyType.null_or {t : KeyType} {v : Value (RoundedFloat r)} (hv : HasKeyType t v) :
    v = .nulls ∨ v.isNull = false ∧ (Value.nulls.compare v = .ok (-int32Max)) ∧
      v.compare .nulls = .ok int32Max := by
  cases hv with
  | nulls => exact Or.inl rfl
  | _ => exact Or.inr ⟨rfl, rfl, rfl⟩

/-- Two values of a type, neither of them NULL. -/
theorem HasKeyType.compare_of_not_null {t : KeyType} {v w : Value (RoundedFloat r)}
    (hv : HasKeyType t v) (hw : HasKeyType t w) (hnv : v.isNull = false) (hnw : w.isNull = false) :
    ∃ n, v.compare w = .ok n ∧ HasSign (keyCompares t).tail v w n := by
  cases hv with
  | nulls => cases hnv
  | vectors elems =>
    generalize hlength : elems.length = dimension at hw
    cases hw with
    | nulls => cases hnw
    | vectors elems' =>
      obtain ⟨n, hn, hsign⟩ := compareVectors_sign elems elems' hlength
      exact ⟨n, hn, (hlength ▸ hsign).partialCompare rfl rfl⟩
  | ints v =>
    cases hw with
    | nulls => cases hnw
    | ints w =>
      exact ⟨_, rfl,
        hasSign_partialCompare (strictCompare_of_ranked Value.ranked_compareInt) rfl rfl⟩
  | floats v =>
    cases hw with
    | nulls => cases hnw
    | floats w =>
      exact ⟨_, rfl, hasSign_partialCompare strictCompare_compareFloat rfl rfl⟩
  | dates v =>
    cases hw with
    | nulls => cases hnw
    | dates w =>
      exact ⟨_, rfl,
        hasSign_partialCompare (strictCompare_of_ranked Value.ranked_compareInt) rfl rfl⟩
  | chars pointer =>
    cases hw with
    | nulls => cases hnw
    | chars pointer' =>
      exact ⟨_, rfl,
        hasSign_partialCompare (strictCompare_of_ranked Value.ranked_compareString) rfl rfl⟩

/-- NULL tells nothing apart but itself from the other values. -/
theorem keyCompares_null (t : KeyType) :
    ∀ c ∈ (keyCompares t : List (Value (RoundedFloat r) → Value (RoundedFloat r) → Int)),
      c .nulls .nulls = 0 := by
  refine List.forall_mem_cons.mpr ⟨rfl, ?_⟩
  cases t with
  | vectors dimension =>
    intro c hc
    obtain ⟨c', -, rfl⟩ := List.mem_map.mp hc
    rfl
  | _ => exact List.forall_mem_singleton.mpr rfl

/-- Values of a type, or NULL, can be compared, with the sign of the comparisons of the type. -/
theorem HasKeyType.compare {t : KeyType} {v w : Value (RoundedFloat r)} (hv : HasKeyType t v)
    (hw : HasKeyType t w) : ∃ n, v.compare w = .ok n ∧ HasSign (keyCompares t) v w n := by
  rcases hv.null_or with rfl | ⟨hnv, -, hright⟩ <;> rcases hw.null_or with rfl | ⟨hnw, hleft, -⟩
  · have hzero := keyCompares_null (r := r) t
    exact ⟨0, rfl, iff_of_false (not_before_of_equal hzero) (by decide),
      iff_of_false (not_before_of_equal hzero) (by decide), iff_of_true hzero rfl⟩
  · have hfirst : nullCompare (.nulls : Value (RoundedFloat r)) w = -1 := by
      rw [nullCompare, hnw]
      rfl
    refine ⟨_, hleft, hasSign_of_first strictCompare_nullCompare ?_ ?_ ?_⟩ <;> rw [hfirst] <;>
      decide
  · have hfirst : nullCompare v (.nulls : Value (RoundedFloat r)) = 1 := by
      rw [nullCompare, hnv]
      rfl
    refine ⟨_, hright, hasSign_of_first strictCompare_nullCompare ?_ ?_ ?_⟩ <;> rw [hfirst] <;>
      decide
  · obtain ⟨n, hn, hsign⟩ := hv.compare_of_not_null hw hnv hnw
    refine ⟨n, hn, hsign.cons strictCompare_nullCompare ?_⟩
    rw [nullCompare, hnv, hnw]
    rfl

/-! ## The keys of a row -/

/-- An ORDER BY item, with the type that its expression has. -/
structure SortKey (F O : Type) where
  expr : Expression F O
  direction : OrderByType
  type : KeyType

section

variable {F O : Type} [Floats F] [StrLike F] [OtherExpr F O]

def SortKey.item (key : SortKey F O) : Expression F O × OrderByType :=
  (key.expr, key.direction)

/-- The value of the expression on a tuple. -/
def SortKey.valueOf (key : SortKey F O) (tuple : Tuple F O) : Value F :=
  match tuple.eval key.expr with
  | .ok value => value
  | .error _ => .undefined

/-- The expression has a value of its type on the tuple. -/
def SortKey.HasValue (key : SortKey F O) (tuple : Tuple F O) : Prop :=
  ∃ value, tuple.eval key.expr = .ok value ∧ HasKeyType key.type value

/-- The comparisons of a key; those of a descending one are turned around. -/
def SortKey.compares (key : SortKey F O) : List (Tuple F O → Tuple F O → Int) :=
  let compares : List (Value F → Value F → Int) :=
    match key.direction with
    | .ascSort => keyCompares key.type
    | .descSort => (keyCompares key.type).map fun c v w => -c v w
  compares.map fun c x y => c (key.valueOf x) (key.valueOf y)

/-- The comparisons that ORDER BY makes, one key after the other. -/
def rowCompares (keys : List (SortKey F O)) : List (Tuple F O → Tuple F O → Int) :=
  keys.flatMap SortKey.compares

end

section

variable {O : Type} [StrLike (RoundedFloat r)] [OtherExpr (RoundedFloat r) O]
  {key : SortKey (RoundedFloat r) O} {keys : List (SortKey (RoundedFloat r) O)}
  {x y : Tuple (RoundedFloat r) O}

theorem SortKey.strictCompare_compares (key : SortKey (RoundedFloat r) O) :
    ∀ c ∈ key.compares, StrictCompare c := by
  intro c hc
  obtain ⟨c', hc', rfl⟩ := List.mem_map.mp hc
  have hkeys := strictCompare_keyCompares (r := r) key.type
  have hc'' : StrictCompare c' := by
    cases hdirection : key.direction with
    | ascSort =>
      rw [hdirection] at hc'
      exact hkeys c' hc'
    | descSort =>
      rw [hdirection] at hc'
      obtain ⟨c'', hmem, rfl⟩ := List.mem_map.mp hc'
      exact (hkeys c'' hmem).neg
  exact hc''.comap key.valueOf

theorem strictCompare_rowCompares (keys : List (SortKey (RoundedFloat r) O)) :
    ∀ c ∈ rowCompares keys, StrictCompare c := by
  intro c hc
  obtain ⟨key, -, hc⟩ := List.mem_flatMap.mp hc
  exact key.strictCompare_compares c hc

/-- A key of two rows: its value is compared with the sign that its comparisons have. -/
theorem SortKey.HasValue.compare (hx : key.HasValue x) (hy : key.HasValue y) :
    ∃ n, (key.valueOf x).compare (key.valueOf y) = .ok n ∧
      HasSign key.compares x y (if key.direction = .ascSort then n else -n) := by
  obtain ⟨v, hv, htype⟩ := hx
  obtain ⟨w, hw, htype'⟩ := hy
  have hvx : key.valueOf x = v := by rw [valueOf, hv]
  have hwy : key.valueOf y = w := by rw [valueOf, hw]
  obtain ⟨n, hn, hsign⟩ := htype.compare htype'
  refine ⟨n, by rw [hvx, hwy, hn], ?_⟩
  rw [← hvx, ← hwy] at hsign
  unfold compares
  cases key.direction with
  | ascSort => exact hsign.comap
  | descSort => exact (hsign.map_neg (strictCompare_keyCompares key.type)).comap

theorem SortKey.HasValue.orUndefined_eval (hx : key.HasValue x) :
    orUndefined (x.eval key.expr) = .ok (key.valueOf x) := by
  obtain ⟨v, hv, -⟩ := hx
  rw [valueOf, hv]
  rfl

/-- The comparator says whether the comparisons put the first row before the second. -/
theorem comesBefore_eq (hx : ∀ key ∈ keys, key.HasValue x) (hy : ∀ key ∈ keys, key.HasValue y) :
    comesBefore x y (keys.map SortKey.item) = .ok (decide (Before (rowCompares keys) x y)) := by
  induction keys with
  | nil => rfl
  | cons key keys ih =>
    obtain ⟨hkx, hx⟩ := List.forall_mem_cons.mp hx
    obtain ⟨hky, hy⟩ := List.forall_mem_cons.mp hy
    obtain ⟨n, hn, hlt, -, heq⟩ := hkx.compare hky
    have hbefore : Before (rowCompares (key :: keys)) x y ↔
        (if key.direction = .ascSort then n < 0 else 0 < n) ∨
          n = 0 ∧ Before (rowCompares keys) x y := by
      rw [rowCompares, List.flatMap_cons, before_append, hlt, heq]
      split_ifs
      · rfl
      · rw [neg_lt_zero, neg_eq_zero]
        rfl
    rw [List.map_cons, SortKey.item, comesBefore, hkx.orUndefined_eval, hky.orUndefined_eval]
    simp only [bind, Except.bind, hn, hbefore]
    rcases eq_or_ne n 0 with rfl | hne
    · rw [ih hx hy]
      simp
    · by_cases hasc : key.direction = .ascSort <;> simp [hne, hasc]

/-- NULL beside another value of a key decides between two rows. -/
theorem SortKey.HasValue.before_null {key : SortKey (RoundedFloat r) O} (hx : key.HasValue x)
    (hy : key.HasValue y) (hnull : (key.valueOf x).isNull = true)
    (hnot : (key.valueOf y).isNull = false) :
    (Before key.compares x y ↔ key.direction = .ascSort) ∧
      (Before key.compares y x ↔ key.direction = .descSort) ∧
      (¬ ∀ c ∈ key.compares, c x y = 0) := by
  obtain ⟨n, hn, hlt, hgt, heq⟩ := hx.compare hy
  obtain ⟨v, hv, htype⟩ := hx
  obtain ⟨w, hw, htype'⟩ := hy
  have hvx : key.valueOf x = v := by rw [valueOf, hv]
  have hwy : key.valueOf y = w := by rw [valueOf, hw]
  rw [hvx] at hnull hn
  rw [hwy] at hnot hn
  obtain rfl : v = .nulls := htype.null_or.resolve_right fun h => by
    rw [h.1] at hnull
    cases hnull
  rcases htype'.null_or with rfl | ⟨-, hleft, -⟩
  · cases hnot
  · cases hn.symm.trans hleft
    rw [hlt, hgt, heq]
    cases key.direction <;> decide

/-- NULL beside another value in one key decides between two rows that the keys in front of it do
not tell apart. -/
theorem before_null {front back : List (SortKey (RoundedFloat r) O)}
    {key : SortKey (RoundedFloat r) O} (hx : key.HasValue x) (hy : key.HasValue y)
    (hequal : ∀ c ∈ rowCompares front, c x y = 0) (hnull : (key.valueOf x).isNull = true)
    (hnot : (key.valueOf y).isNull = false) :
    (Before (rowCompares (front ++ key :: back)) x y ↔ key.direction = .ascSort) ∧
      (Before (rowCompares (front ++ key :: back)) y x ↔ key.direction = .descSort) := by
  have hequal' : ∀ c ∈ rowCompares front, c y x = 0 := fun c hc =>
    ((strictCompare_rowCompares front c hc).zero_comm).mp (hequal c hc)
  obtain ⟨hxy, hyx, hne⟩ := hx.before_null hy hnull hnot
  have hne' : ¬ ∀ c ∈ key.compares, c y x = 0 := fun hzero =>
    hne fun c hc => ((key.strictCompare_compares c hc).zero_comm).mp (hzero c hc)
  have happend : rowCompares (front ++ key :: back) =
      rowCompares front ++ (key.compares ++ rowCompares back) := by
    simp only [rowCompares, List.flatMap_append, List.flatMap_cons]
  have hfront := not_before_of_equal hequal
  have hfront' := not_before_of_equal hequal'
  rw [happend, before_append, before_append, before_append, before_append, hxy, hyx]
  rw [or_iff_right hfront, or_iff_right hfront', and_iff_right hequal, and_iff_right hequal',
    or_iff_left fun hzero => hne hzero.1, or_iff_left fun hzero => hne' hzero.1]
  exact ⟨Iff.rfl, Iff.rfl⟩

section

variable {rows : List (Tuple (RoundedFloat r) O)} (hkeys : ∀ key ∈ keys, ∀ x ∈ rows, key.HasValue x)
include hkeys

theorem comesBefore_rows (hx : x ∈ rows) (hy : y ∈ rows) :
    comesBefore x y (keys.map SortKey.item) = .ok (decide (Before (rowCompares keys) x y)) :=
  comesBefore_eq (fun key hkey => hkeys key hkey x hx) fun key hkey => hkeys key hkey y hy

theorem comesBefore_iff (hx : x ∈ rows) (hy : y ∈ rows) :
    comesBefore x y (keys.map SortKey.item) = .ok true ↔ Before (rowCompares keys) x y := by
  rw [comesBefore_rows hkeys hx hy, Except.ok.injEq, decide_eq_true_eq]

/-- The comparator is a strict weak order on typed rows exactly if no three of them are tangled. -/
theorem strictWeak_iff :
    IsStrictWeakOrder {x // x ∈ rows}
        (fun x y => comesBefore x.1 y.1 (keys.map SortKey.item) = .ok true) ↔
      ∀ x ∈ rows, ∀ y ∈ rows, ∀ z ∈ rows, ¬ Tangled (rowCompares keys) x y z := by
  let compares : List ({x // x ∈ rows} → {x // x ∈ rows} → Int) :=
    (rowCompares keys).map fun c x y => c x.1 y.1
  have hcompares : ∀ c ∈ compares, StrictCompare c := by
    intro c hc
    obtain ⟨c', hc', rfl⟩ := List.mem_map.mp hc
    exact (strictCompare_rowCompares keys c' hc').comap Subtype.val
  have hless : (fun x y : {x // x ∈ rows} =>
      comesBefore x.1 y.1 (keys.map SortKey.item) = .ok true) = Before compares := by
    funext x y
    rw [comesBefore_iff hkeys x.2 y.2, before_comap]
  rw [hless, isStrictWeakOrder_before_iff hcompares]
  simp only [compares, tangled_comap, Subtype.forall]

end

end

/-! ## What a sort must do -/

/-- What is asked of `std::sort`: it compares nothing but the elements, and by a strict weak order
it sorts them. -/
class LawfulStdSort (T : Type) [StdSort T] : Prop where
  error : ∀ (before : T → T → Except Fault Bool) (xs : List T) (fault : Fault),
    StdSort.sort before xs = .error fault → ∃ x ∈ xs, ∃ y ∈ xs, before x y = .error fault
  sorted : ∀ (before : T → T → Except Fault Bool) (xs : List T),
    (∀ x ∈ xs, ∀ y ∈ xs, ∃ b, before x y = .ok b) →
    IsStrictWeakOrder {x // x ∈ xs} (fun x y => before x.1 y.1 = .ok true) →
    ∃ ys, StdSort.sort before xs = .ok ys ∧ ys.Perm xs ∧
      ys.Pairwise fun x y => before y x ≠ .ok true

section

variable {T : Type}

/-- An element in front of the first one that does not come before it. -/
def insertInto (before : T → T → Except Fault Bool) (x : T) : List T → Except Fault (List T)
  | [] => .ok [x]
  | y :: ys => do if ← before y x then .ok (y :: (← insertInto before x ys)) else .ok (x :: y :: ys)

def insertionSort (before : T → T → Except Fault Bool) : List T → Except Fault (List T)
  | [] => .ok []
  | x :: xs => do insertInto before x (← insertionSort before xs)

variable {before : T → T → Except Fault Bool} {x : T} {xs ys zs : List T} {fault : Fault}

theorem insertInto_cons {y : T} : insertInto before x (y :: ys) =
    match before y x with
    | .error fault => .error fault
    | .ok true => (insertInto before x ys).map (y :: ·)
    | .ok false => .ok (x :: y :: ys) := by
  rw [insertInto]
  cases before y x with
  | error fault => rfl
  | ok b =>
    cases b with
    | true => cases insertInto before x ys <;> rfl
    | false => rfl

theorem insertInto_perm (h : insertInto before x ys = .ok zs) : zs.Perm (x :: ys) := by
  induction ys generalizing zs with
  | nil =>
    cases h
    exact .refl _
  | cons y ys ih =>
    rw [insertInto_cons] at h
    split at h
    · cases h
    · cases hrest : insertInto before x ys with
      | error fault =>
        rw [hrest] at h
        cases h
      | ok rest =>
        rw [hrest] at h
        cases h
        exact ((ih hrest).cons y).trans (.swap x y ys)
    · cases h
      exact .refl _

theorem insertInto_error (h : insertInto before x ys = .error fault) :
    ∃ y ∈ ys, before y x = .error fault := by
  induction ys with
  | nil => cases h
  | cons y ys ih =>
    rw [insertInto_cons] at h
    split at h
    next hbefore =>
      cases h
      exact ⟨y, List.mem_cons_self .., hbefore⟩
    next =>
      cases hrest : insertInto before x ys with
      | error fault' =>
        rw [hrest] at h
        cases h
        obtain ⟨y', hmem, hbefore⟩ := ih hrest
        exact ⟨y', List.mem_cons_of_mem y hmem, hbefore⟩
      | ok rest =>
        rw [hrest] at h
        cases h
    next => cases h

/-- What does not come before a second one that does not come before a third one does not come
before that. -/
theorem insertInto_pairwise (hasymm : ∀ y ∈ ys, before y x = .ok true → before x y ≠ .ok true)
    (hneg : ∀ y ∈ ys, ∀ z ∈ ys, before z y ≠ .ok true → before y x ≠ .ok true →
      before z x ≠ .ok true)
    (hys : ys.Pairwise fun x y => before y x ≠ .ok true) (h : insertInto before x ys = .ok zs) :
    zs.Pairwise fun x y => before y x ≠ .ok true := by
  induction ys generalizing zs with
  | nil =>
    cases h
    exact List.pairwise_singleton ..
  | cons y ys ih =>
    obtain ⟨hy, hys⟩ := List.pairwise_cons.mp hys
    rw [insertInto_cons] at h
    split at h
    next => cases h
    next hbefore =>
      cases hrest : insertInto before x ys with
      | error fault =>
        rw [hrest] at h
        cases h
      | ok rest =>
        rw [hrest] at h
        cases h
        refine List.pairwise_cons.mpr ⟨fun z hz => ?_, ?_⟩
        · rcases List.mem_cons.mp ((insertInto_perm hrest).mem_iff.mp hz) with rfl | hz
          · exact hasymm y (List.mem_cons_self ..) hbefore
          · exact hy z hz
        · exact ih (fun y' hy' => hasymm y' (List.mem_cons_of_mem y hy'))
            (fun y' hy' z hz => hneg y' (List.mem_cons_of_mem y hy') z (List.mem_cons_of_mem y hz))
            hys hrest
    next hbefore =>
      cases h
      have hnot : before y x ≠ .ok true := by
        rw [hbefore]
        exact nofun
      refine List.pairwise_cons.mpr ⟨List.forall_mem_cons.mpr ⟨hnot, fun z hz => ?_⟩,
        List.pairwise_cons.mpr ⟨hy, hys⟩⟩
      exact hneg y (List.mem_cons_self ..) z (List.mem_cons_of_mem y hz) (hy z hz) hnot

theorem insertionSort_perm (h : insertionSort before xs = .ok ys) : ys.Perm xs := by
  induction xs generalizing ys with
  | nil =>
    cases h
    exact .refl _
  | cons x xs ih =>
    rw [insertionSort] at h
    cases hrest : insertionSort before xs with
    | error fault =>
      rw [hrest] at h
      cases h
    | ok rest =>
      rw [hrest] at h
      exact (insertInto_perm h).trans ((ih hrest).cons x)

theorem insertionSort_error (h : insertionSort before xs = .error fault) :
    ∃ x ∈ xs, ∃ y ∈ xs, before x y = .error fault := by
  induction xs with
  | nil => cases h
  | cons x xs ih =>
    rw [insertionSort] at h
    cases hrest : insertionSort before xs with
    | error fault' =>
      rw [hrest] at h
      cases h
      obtain ⟨y, hy, z, hz, hbefore⟩ := ih hrest
      exact ⟨y, List.mem_cons_of_mem x hy, z, List.mem_cons_of_mem x hz, hbefore⟩
    | ok rest =>
      rw [hrest] at h
      obtain ⟨y, hy, hbefore⟩ := insertInto_error h
      exact ⟨y, List.mem_cons_of_mem x ((insertionSort_perm hrest).mem_iff.mp hy), x,
        List.mem_cons_self .., hbefore⟩

theorem insertionSort_pairwise
    (hasymm : ∀ x ∈ xs, ∀ y ∈ xs, before y x = .ok true → before x y ≠ .ok true)
    (hneg : ∀ x ∈ xs, ∀ y ∈ xs, ∀ z ∈ xs, before z y ≠ .ok true → before y x ≠ .ok true →
      before z x ≠ .ok true)
    (h : insertionSort before xs = .ok ys) : ys.Pairwise fun x y => before y x ≠ .ok true := by
  induction xs generalizing ys with
  | nil =>
    cases h
    exact .nil
  | cons x xs ih =>
    have hsub (y : T) (hy : y ∈ xs) : y ∈ x :: xs := List.mem_cons_of_mem x hy
    rw [insertionSort] at h
    cases hrest : insertionSort before xs with
    | error fault =>
      rw [hrest] at h
      cases h
    | ok rest =>
      rw [hrest] at h
      have hmem (y : T) (hy : y ∈ rest) : y ∈ x :: xs :=
        hsub y ((insertionSort_perm hrest).mem_iff.mp hy)
      have hx : x ∈ x :: xs := List.mem_cons_self ..
      refine insertInto_pairwise (fun y hy => hasymm x hx y (hmem y hy))
        (fun y hy z hz => hneg x hx y (hmem y hy) z (hmem z hz)) ?_ h
      exact ih (fun y hy z hz => hasymm y (hsub y hy) z (hsub z hz))
        (fun y hy z hz w hw => hneg y (hsub y hy) z (hsub z hz) w (hsub w hw)) hrest

end

instance : StdSort (Tuple (RoundedFloat r) Empty) :=
  ⟨insertionSort⟩

/-- In a strict weak order, what a second element hides from a third one hides the first. -/
theorem not_before_trans {ι : Type} {less : ι → ι → Prop} (h : IsStrictWeakOrder ι less)
    {x y z : ι} (hxy : ¬ less x y) (hyz : ¬ less y z) : ¬ less x z := by
  intro hxz
  have hyx : ¬ less y x := fun hyx => hyz (h.trans y x z hyx hxz)
  have hzy : ¬ less z y := fun hzy => hxy (h.trans x z y hxz hzy)
  exact (h.incomp_trans x y z ⟨hxy, hyx⟩ ⟨hyz, hzy⟩).1 hxz

instance : LawfulStdSort (Tuple (RoundedFloat r) Empty) where
  error _ _ _ := insertionSort_error
  sorted before xs htotal horder := by
    cases hsort : (StdSort.sort before xs : Except Fault (List (Tuple (RoundedFloat r) Empty))) with
    | error fault =>
      obtain ⟨x, hx, y, hy, hbefore⟩ := insertionSort_error hsort
      obtain ⟨b, hb⟩ := htotal x hx y hy
      cases hbefore.symm.trans hb
    | ok ys =>
      refine ⟨ys, rfl, insertionSort_perm hsort, insertionSort_pairwise ?_ ?_ hsort⟩
      · exact fun x hx y hy hyx hxy =>
          horder.irrefl ⟨x, hx⟩ (horder.trans ⟨x, hx⟩ ⟨y, hy⟩ ⟨x, hx⟩ hxy hyx)
      · exact fun x hx y hy z hz hzy hyx =>
          not_before_trans (x := ⟨z, hz⟩) (y := ⟨y, hy⟩) (z := ⟨x, hx⟩) horder hzy hyx

/-! ## ORDER BY -/

section

variable {O : Type} [StrLike (RoundedFloat r)] [OtherExpr (RoundedFloat r) O]
  [StdSort (Tuple (RoundedFloat r) O)]

/-- What ORDER BY promises for the rows of its child. -/
structure Sorts (keys : List (SortKey (RoundedFloat r) O))
    (child : PhysicalOperator (RoundedFloat r) O) (rows : List (Tuple (RoundedFloat r) O)) :
    Prop where
  /-- The comparator is a strict weak order on the rows. -/
  strictWeak : IsStrictWeakOrder {x // x ∈ rows} fun x y =>
    comesBefore x.1 y.1 (keys.map SortKey.item) = .ok true
  /-- The rows are given in an order that the requested directions do not invert. -/
  emits : (yieldOf (sort (keys.map SortKey.item) child)).opened = .ok () ∧
    ∃ sorted, (yieldOf (sort (keys.map SortKey.item) child)).drained = (sorted, eof) ∧
      sorted.Perm rows ∧ sorted.Pairwise fun x y => ¬ Before (rowCompares keys) y x
  /-- Where the keys in front are equal, NULL is first in ascending order and last in descending
  order. -/
  nulls : ∀ front key back, keys = front ++ key :: back → ∀ x ∈ rows, ∀ y ∈ rows,
    (∀ c ∈ rowCompares front, c x y = 0) → (key.valueOf x).isNull = true →
    (key.valueOf y).isNull = false →
      comesBefore x y (keys.map SortKey.item) = .ok (decide (key.direction = .ascSort)) ∧
      comesBefore y x (keys.map SortKey.item) = .ok (decide (key.direction = .descSort))

variable {keys : List (SortKey (RoundedFloat r) O)} {child : PhysicalOperator (RoundedFloat r) O}
  {rows : List (Tuple (RoundedFloat r) O)} {x y : Tuple (RoundedFloat r) O}

/-- ORDER BY over typed rows sorts them exactly if no three of them are tangled. -/
theorem sorts_iff [LawfulStdSort (Tuple (RoundedFloat r) O)]
    (hopen : (yieldOf child).opened = .ok ()) (hdrain : (yieldOf child).drained = (rows, eof))
    (hkeys : ∀ key ∈ keys, ∀ x ∈ rows, key.HasValue x) :
    Sorts keys child rows ↔
      ∀ x ∈ rows, ∀ y ∈ rows, ∀ z ∈ rows, ¬ Tangled (rowCompares keys) x y z := by
  refine ⟨fun h => (strictWeak_iff hkeys).mp h.strictWeak, fun h => ?_⟩
  have hstrict := (strictWeak_iff hkeys).mpr h
  obtain ⟨sorted, hsort, hperm, hpairwise⟩ := LawfulStdSort.sorted
    (comesBefore · · (keys.map SortKey.item)) rows
    (fun x hx y hy => ⟨_, comesBefore_rows hkeys hx hy⟩) hstrict
  refine ⟨hstrict, ?_, ?_⟩
  · rw [yieldOf_sort]
    unfold Yield.sort Yield.eager sortTuples
    rw [hopen, hdrain, eof]
    dsimp only
    rw [hsort]
    refine ⟨rfl, sorted, rfl, hperm, ?_⟩
    refine List.Pairwise.imp_of_mem (fun hx hy hnot => ?_) hpairwise
    rwa [← comesBefore_iff hkeys (hperm.mem_iff.mp hy) (hperm.mem_iff.mp hx)]
  · rintro front key back rfl x hx y hy hequal hnull hnot
    have hkey : key ∈ front ++ key :: back := by simp
    obtain ⟨hxy, hyx⟩ :=
      @before_null _ _ _ _ x y front back key (hkeys key hkey x hx) (hkeys key hkey y hy) hequal
        hnull hnot
    rw [comesBefore_rows hkeys hx hy, comesBefore_rows hkeys hy hx]
    exact ⟨congrArg _ (decide_eq_decide.mpr hxy), congrArg _ (decide_eq_decide.mpr hyx)⟩

end

section

/-- The match of the texts of strings and of NULL, letter by letter. -/
instance : StrLike (RoundedFloat r) where
  strLike left right :=
    match left.text?, right.text? with
    | some s, some pattern => .ok (likeMatch pattern s)
    | _, _ => .error .abort

instance : OtherExpr (RoundedFloat r) Empty where
  getValue _ := nofun
  tryGetValue := nofun
  pureValue := nofun
  typedFirst := nofun

/-- A row of one column. -/
def rowOf (value : Value (RoundedFloat .exact)) : Row (RoundedFloat .exact) :=
  ⟨"t", "t", [("a", value)]⟩

/-- A scanner over rows of one column. -/
def recordsOf (values : List (Value (RoundedFloat .exact))) :
    List (Except Fault (Row (RoundedFloat .exact))) :=
  values.map fun value => .ok (rowOf value)

def scanOf (values : List (Value (RoundedFloat .exact))) :
    PhysicalOperator (RoundedFloat .exact) Empty :=
  tableScan ⟨.ok (), recordsOf values, fun _ => false⟩ []

/-- The column. -/
def keyOf (direction : OrderByType) (type : KeyType) : SortKey (RoundedFloat .exact) Empty :=
  ⟨.field ⟨"t", "a", "t"⟩, direction, type⟩

theorem drained_scanOf (values : List (Value (RoundedFloat .exact))) :
    (yieldOf (scanOf values)).drained = (values.map fun value => .row (rowOf value), eof) := by
  rw [scanOf, yieldOf_tableScan]
  change filterTuples [] (rowTuples (recordsOf values)) = _
  induction values with
  | nil => rfl
  | cons value values ih =>
    have hstep : filterTuples (O := Empty) [] (rowTuples (recordsOf (value :: values))) =
        (.row (rowOf value) :: (filterTuples [] (rowTuples (recordsOf values))).1,
          (filterTuples [] (rowTuples (recordsOf values))).2) :=
      rfl
    rw [hstep, ih]
    rfl

/-- `ORDER BY a DESC` over three integers, one of them NULL. -/
theorem sorts_three :
    Sorts [keyOf .descSort .ints] (scanOf [.ints 5, .nulls, .ints 7])
      ([.ints 5, .nulls, .ints 7].map fun value => .row (rowOf value)) := by
  refine (sorts_iff rfl (drained_scanOf _) ?_).mpr ?_
  · intro key hkey x hx
    cases List.mem_singleton.mp hkey
    obtain ⟨value, hvalue, rfl⟩ := List.mem_map.mp hx
    refine ⟨value, rfl, ?_⟩
    simp only [List.mem_cons, List.not_mem_nil, or_false] at hvalue
    rcases hvalue with rfl | rfl | rfl
    · exact .ints 5
    · exact .nulls _
    · exact .ints 7
  · simp only [List.forall_mem_map]
    decide

/-- Three floats, each within `EPSILON` of the next one. -/
theorem not_sorts_near : ¬ ∀ (keys : List (SortKey (RoundedFloat .exact) Empty))
    (child : PhysicalOperator (RoundedFloat .exact) Empty)
    (rows : List (Tuple (RoundedFloat .exact) Empty)), (yieldOf child).opened = .ok () →
    (yieldOf child).drained = (rows, eof) → (∀ key ∈ keys, ∀ x ∈ rows, key.HasValue x) →
    Sorts keys child rows := by
  intro h
  let value (q : ℚ) : Value (RoundedFloat .exact) := .floats ⟨q⟩
  let values := [value 0, value (1 / 1000000), value (2 / 1000000)]
  have hkeys : ∀ key ∈ [keyOf .ascSort .floats], ∀ x ∈ values.map fun value => .row (rowOf value),
      key.HasValue x := by
    intro key hkey x hx
    cases List.mem_singleton.mp hkey
    obtain ⟨v, hv, rfl⟩ := List.mem_map.mp hx
    refine ⟨v, rfl, ?_⟩
    simp only [values, value, List.mem_cons, List.not_mem_nil, or_false] at hv
    rcases hv with rfl | rfl | rfl <;> exact .floats _
  have hsorts := h _ (scanOf values) _ rfl (drained_scanOf values) hkeys
  have hcompare (p q : ℚ) : compareFloat (⟨p⟩ : RoundedFloat .exact) ⟨q⟩ =
      if 1 / 1000000 < p - q then 1 else if p - q < -(1 / 1000000) then -1 else 0 := by
    simp only [compareFloat, RoundedFloat.lt_eq, decide_eq_true_eq]
    rfl
  refine (strictWeak_iff hkeys).mp hsorts.strictWeak (.row (rowOf (value 0))) (by simp [values])
    (.row (rowOf (value (1 / 1000000)))) (by simp [values])
    (.row (rowOf (value (2 / 1000000)))) (by simp [values])
    ⟨rfl, rfl, Or.inr ⟨rfl, ?_⟩⟩
  change compareFloat _ _ = 0 ∧ compareFloat _ _ = 0 ∧
    (compareFloat _ _ < 0 ∧ ¬ False ∧ ¬ False ∨ _)
  rw [hcompare, hcompare, hcompare]
  norm_num

end

end Sql

end ObHtap
