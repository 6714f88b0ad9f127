import ObHtap.Library.LittleEndian
import ObHtap.Sql.AggregateHashTable

/-!
# The hashes of keys

`VectorHash` hashes the texts of a key and `VectorEqual` compares its values, floats with a
tolerance.
-/

namespace ObHtap

namespace Sql

namespace AggregateHashTable

variable {r : Rounding} {stored : Value (RoundedFloat r) → List UInt8} {hash : List UInt8 → UInt64}
  {types : List GroupKeyType} {key key' : List (Value (RoundedFloat r))}

/-! ## Laws -/

variable (stored hash types) in
/-- Keys that are equal have the same hash. -/
def KeysHashAlike : Prop :=
  ∀ key key', HasTypes types key → HasTypes types key' → vectorEqual key key' = .ok true →
    vectorHash stored hash key = vectorHash stored hash key'

variable (stored hash types) in
/-- No group of a table has two entries. -/
def OneEntryEach : Prop :=
  ∀ table : Table (RoundedFloat r) stored hash,
    (∀ entry ∈ table.entries, HasTypes types entry.groupByValues) →
      table.entries.Pairwise fun entry entry' =>
        vectorEqual entry.groupByValues entry'.groupByValues ≠ .ok true

/-- The values of the type have floats, which are compared with a tolerance. -/
def HasFloats (type : GroupKeyType) : Prop :=
  type.attrType = .floats ∧ type.dimension = 0 ∨ type.attrType = .vectors ∧ 0 < type.dimension

/-! ## Values that are printed alike -/

theorem toText_eq_of_compare {type : GroupKeyType} {value value' : Value (RoundedFloat r)}
    (hexact : ¬ HasFloats type) (h : type.Has value) (h' : type.Has value')
    (hzero : value.compare value' = .ok 0) : toText stored value = toText stored value' := by
  rcases h with hnull | ⟨htype, hlist, hdim⟩
  · rw [isNull_eq hnull] at hzero ⊢
    cases value' <;> first | rfl | exact absurd (Except.ok.inj hzero) (by decide)
  rcases h' with hnull' | ⟨htype', hlist', hdim'⟩
  · rw [isNull_eq hnull'] at hzero ⊢
    cases value <;>
      first | rfl | exact absurd (Except.ok.inj hzero) (by decide) | exact nomatch hlist
  have hsame := htype.trans htype'.symm
  cases value <;> cases value' <;> simp only [Value.attrType, reduceCtorEq] at hsame
  case ints.ints v v' => rw [compareInt_eq_zero.mp (Except.ok.inj hzero)]
  case dates.dates v v' => rw [compareInt_eq_zero.mp (Except.ok.inj hzero)]
  case chars.chars s s' => exact compareString_eq_zero.mp (Except.ok.inj hzero)
  case floats.floats => exact absurd (Or.inl ⟨htype.symm, hdim.symm⟩) hexact
  case vectors.vectors elems elems' =>
    have hzero : type.dimension = 0 := by
      by_contra hne
      exact hexact (.inr ⟨htype.symm, Nat.pos_of_ne_zero hne⟩)
    rw [List.length_eq_zero_iff.mp (hdim.trans hzero),
      List.length_eq_zero_iff.mp (hdim'.trans hzero)]
  case nulls.nulls => rfl
  case valuesLists.valuesLists => cases hlist
  all_goals exact absurd (Except.ok.inj hzero) (by decide)

theorem equalCells_cons_eq_true {left right : Value (RoundedFloat r)} :
    equalCells (left :: key) (right :: key') = .ok true ↔
      right.compare left = .ok 0 ∧ equalCells key key' = .ok true := by
  rw [equalCells]
  cases hcompare : right.compare left with
  | error fault => exact iff_of_false nofun fun h => nomatch h.1
  | ok n =>
    rw [ok_bind, Except.ok.injEq]
    by_cases hn : n = 0
    · rw [if_neg (not_not.mpr hn)]
      exact (and_iff_right hn).symm
    · rw [if_pos hn]
      exact iff_of_false nofun fun h => hn h.1

theorem vectorEqual_eq (h : HasTypes types key) (h' : HasTypes types key') :
    vectorEqual key key' = equalCells key key' := by
  have hlength := h.length_eq
  have hlength' := h'.length_eq
  rw [vectorEqual, if_neg (by omega)]

theorem texts_of_equalCells (hexact : ∀ type ∈ types, ¬ HasFloats type) (h : HasTypes types key)
    (h' : HasTypes types key') (hequal : equalCells key key' = .ok true) :
    key.map (toText stored) = key'.map (toText stored) := by
  induction h generalizing key' with
  | nil =>
    cases h'
    rfl
  | @cons type value types key hvalue hkey ih =>
    cases h' with
    | @cons _ value' _ key' hvalue' hkey' =>
      obtain ⟨hhead, htail⟩ := List.forall_mem_cons.mp hexact
      obtain ⟨hzero, hrest⟩ := equalCells_cons_eq_true.mp hequal
      rw [List.map_cons, List.map_cons, ih htail hkey' hrest,
        toText_eq_of_compare hhead hvalue' hvalue hzero]

theorem vectorHash_eq_foldl (key : List (Value (RoundedFloat r))) :
    vectorHash stored hash key =
      (key.map (toText stored)).foldl (fun acc text => acc ^^^ hash text) 0 := by
  rw [List.foldl_map]
  rfl

theorem keysHashAlike_of_exact (hexact : ∀ type ∈ types, ¬ HasFloats type) :
    KeysHashAlike stored hash types := by
  intro key key' h h' hequal
  rw [vectorEqual_eq h h'] at hequal
  rw [vectorHash_eq_foldl, vectorHash_eq_foldl, texts_of_equalCells hexact h h' hequal]

theorem oneEntryEach_of_alike (h : KeysHashAlike stored hash types) :
    OneEntryEach stored hash types := by
  intro table htypes
  apply table.distinct.imp_of_mem
  intro entry entry' hentry hentry' hdistinct hequal
  exact hdistinct (h _ _ (htypes entry hentry) (htypes entry' hentry') hequal) hequal

/-! ## Floats that are compared with a tolerance -/

variable (r) in
/-- The float next to zero whose exponent is -24. -/
def nearZero : RoundedFloat r :=
  ⟨-(1 / 16777216)⟩

/-- A value of a type with floats, the first of which is given. -/
def valueWith (type : GroupKeyType) (x : RoundedFloat r) : Value (RoundedFloat r) :=
  if type.attrType = .floats then .floats x
  else .vectors (x :: List.replicate (type.dimension - 1) ⟨0⟩)

theorem has_valueWith {type : GroupKeyType} (h : HasFloats type) (x : RoundedFloat r) :
    type.Has (valueWith type x) := by
  unfold valueWith
  rcases h with ⟨htype, hdim⟩ | ⟨htype, hdim⟩
  · rw [if_pos htype]
    exact .inr ⟨htype.symm, rfl, hdim.symm⟩
  · rw [if_neg (by simp [htype])]
    refine .inr ⟨htype.symm, rfl, ?_⟩
    rw [Value.dimension, List.length_cons, List.length_replicate]
    omega

theorem round_zero : r.round 0 = 0 := by
  have hneg := r.neg 0
  rw [neg_zero] at hneg
  linarith

/-- Zero and the float next to it compare equal. -/
theorem compareFloat_nearZero (hround : r.round (1 / 16777216) = 1 / 16777216) :
    compareFloat (nearZero r) (⟨0⟩ : RoundedFloat r) = 0 := by
  have hsub : (nearZero r - (⟨0⟩ : RoundedFloat r)).toRat = -(1 / 16777216) := by
    rw [RoundedFloat.toRat_sub, nearZero, sub_zero, r.neg, hround]
  rw [compareFloat, RoundedFloat.lt_eq, RoundedFloat.lt_eq, hsub, RoundedFloat.toRat_neg,
    RoundedFloat.toRat_epsilon]
  norm_num

theorem compareVectors_self_zeros (n : Nat) :
    Value.compareVectors (List.replicate n (⟨0⟩ : RoundedFloat r)) (List.replicate n ⟨0⟩) =
      .ok 0 := by
  have hzero : compareFloat (⟨0⟩ : RoundedFloat r) ⟨0⟩ = 0 := by
    rw [compareFloat, RoundedFloat.lt_eq, RoundedFloat.lt_eq, RoundedFloat.toRat_sub, sub_self,
      round_zero, RoundedFloat.toRat_neg, RoundedFloat.toRat_epsilon]
    norm_num
  induction n with
  | zero => rfl
  | succ n ih => rw [List.replicate_succ, Value.compareVectors, if_pos hzero, ih]

theorem compare_valueWith (hround : r.round (1 / 16777216) = 1 / 16777216) (type : GroupKeyType) :
    (valueWith type (nearZero r)).compare (valueWith type ⟨0⟩) = .ok 0 := by
  unfold valueWith
  split
  · exact congrArg Except.ok (compareFloat_nearZero hround)
  · change Value.compareVectors _ _ = .ok 0
    rw [Value.compareVectors, if_pos (compareFloat_nearZero hround), compareVectors_self_zeros]

theorem vectorText_cons (x : RoundedFloat r) (elems : List (RoundedFloat r)) :
    ∃ rest, vectorText (x :: elems) = 91 :: Floats.doubleToStr x ++ rest := by
  refine ⟨([44] ++ elems.flatMap fun x => Floats.doubleToStr x ++ [44]).dropLast ++ [93], ?_⟩
  rw [vectorText, List.flatMap_cons, List.append_assoc, ← List.cons_append,
    List.dropLast_append_of_ne_nil (by simp), List.append_assoc]

theorem doubleToStr_zero : Floats.doubleToStr (⟨0⟩ : RoundedFloat r) = [48] := by
  change ratToStr 0 = [48]
  decide +kernel

theorem doubleToStr_nearZero : Floats.doubleToStr (nearZero r) = [45, 48] := by
  change ratToStr (-(1 / 16777216)) = [45, 48]
  decide +kernel

/-- Zero and the float next to it are not printed alike: the text of the latter has a sign. -/
theorem toText_valueWith_ne (type : GroupKeyType) :
    toText stored (valueWith type (⟨0⟩ : RoundedFloat r)) ≠
      toText stored (valueWith type (nearZero r)) := by
  unfold valueWith
  split
  · rw [toText, toText, doubleToStr_zero, doubleToStr_nearZero]
    decide
  · obtain ⟨rest, hrest⟩ := vectorText_cons (⟨0⟩ : RoundedFloat r)
      (List.replicate (type.dimension - 1) ⟨0⟩)
    obtain ⟨rest', hrest'⟩ := vectorText_cons (nearZero r) (List.replicate (type.dimension - 1) ⟨0⟩)
    rw [toText, toText, hrest, hrest', doubleToStr_zero, doubleToStr_nearZero]
    intro heq
    have hhead := (List.cons.inj (List.cons.inj heq).2).1
    exact absurd hhead (by decide)

/-! ## Keys that are told apart by their hashes -/

/-- A key that is NULL but for one value. -/
def keyWith (before after : List GroupKeyType) (value : Value (RoundedFloat r)) :
    List (Value (RoundedFloat r)) :=
  before.map (fun _ => .nulls) ++ value :: after.map fun _ => .nulls

theorem hasTypes_nulls (types : List GroupKeyType) :
    HasTypes types (types.map fun _ => (.nulls : Value (RoundedFloat r))) := by
  induction types with
  | nil => exact .nil
  | cons type types ih => exact .cons (.inl rfl) ih

theorem hasTypes_keyWith {before after : List GroupKeyType} {type : GroupKeyType}
    {value : Value (RoundedFloat r)} (h : type.Has value) :
    HasTypes (before ++ type :: after) (keyWith before after value) :=
  List.rel_append (hasTypes_nulls before) (.cons h (hasTypes_nulls after))

theorem equalCells_keyWith {before after : List GroupKeyType}
    {value value' : Value (RoundedFloat r)} (h : value'.compare value = .ok 0) :
    equalCells (keyWith before after value) (keyWith before after value') = .ok true := by
  induction before with
  | nil =>
    refine equalCells_cons_eq_true.mpr ⟨h, ?_⟩
    induction after with
    | nil => rfl
    | cons type after ih => exact equalCells_cons_eq_true.mpr ⟨rfl, ih⟩
  | cons type before ih => exact equalCells_cons_eq_true.mpr ⟨rfl, ih⟩

theorem foldl_xor (texts : List (List UInt8)) (acc : UInt64) :
    texts.foldl (fun acc text => acc ^^^ hash text) acc =
      acc ^^^ texts.foldl (fun acc text => acc ^^^ hash text) 0 := by
  induction texts generalizing acc with
  | nil => exact UInt64.xor_zero.symm
  | cons text texts ih =>
    rw [List.foldl_cons, List.foldl_cons, ih, ih (0 ^^^ hash text), UInt64.zero_xor,
      UInt64.xor_assoc]

/-- The hash of a key tells one value in it apart. -/
theorem hash_eq_of_keyWith {before after : List GroupKeyType}
    {value value' : Value (RoundedFloat r)}
    (h : vectorHash stored hash (keyWith before after value) =
      vectorHash stored hash (keyWith before after value')) :
    hash (toText stored value) = hash (toText stored value') := by
  rw [vectorHash_eq_foldl, vectorHash_eq_foldl, keyWith, keyWith, List.map_append, List.map_append,
    List.foldl_append, List.foldl_append, List.map_cons, List.map_cons, List.foldl_cons,
    List.foldl_cons, foldl_xor, foldl_xor _ (_ ^^^ hash (toText stored value')),
    UInt64.xor_left_inj, UInt64.xor_right_inj] at h
  exact h

variable (stored types) in
/-- The texts of zero and of the float next to it, in values of the types with floats. -/
def zeroTexts : Set (List UInt8) :=
  {text | ∃ type ∈ types, HasFloats type ∧ ∃ x ∈ [⟨0⟩, nearZero r],
    text = toText stored (valueWith type x)}

theorem exact_of_alike (hround : r.round (1 / 16777216) = 1 / 16777216)
    (hhash : Set.InjOn hash (zeroTexts stored types)) (halike : KeysHashAlike stored hash types) :
    ∀ type ∈ types, ¬ HasFloats type := by
  intro type htype hfloats
  have htexts (x : RoundedFloat r) (hx : x ∈ [⟨0⟩, nearZero r]) :
      toText stored (valueWith type x) ∈ zeroTexts stored types :=
    ⟨type, htype, hfloats, x, hx, rfl⟩
  have htyped (x : RoundedFloat r) {before after : List GroupKeyType} :
      HasTypes (before ++ type :: after) (keyWith before after (valueWith type x)) :=
    hasTypes_keyWith (has_valueWith hfloats x)
  obtain ⟨before, after, rfl⟩ := List.append_of_mem htype
  have hequal : equalCells (keyWith before after (valueWith type ⟨0⟩))
      (keyWith before after (valueWith type (nearZero r))) = .ok true :=
    equalCells_keyWith (compare_valueWith hround type)
  rw [← vectorEqual_eq (htyped ⟨0⟩) (htyped (nearZero r))] at hequal
  have hsame := hash_eq_of_keyWith (halike _ _ (htyped ⟨0⟩) (htyped (nearZero r)) hequal)
  have hzero := htexts ⟨0⟩ List.mem_cons_self
  have hnear := htexts (nearZero r) (List.mem_cons_of_mem _ (List.mem_singleton_self _))
  exact toText_valueWith_ne type (hhash hzero hnear hsame)

/-- Two keys that are equal with different hashes make a table that has their group twice. -/
theorem oneEntryEach_iff : OneEntryEach stored hash types ↔ KeysHashAlike stored hash types := by
  refine ⟨?_, oneEntryEach_of_alike⟩
  intro h key key' hkey hkey' hequal
  by_contra hhash
  have hpairwise := h ⟨[⟨key, []⟩, ⟨key', []⟩], by simp [hhash]⟩ (by simp [hkey, hkey'])
  exact (List.pairwise_pair.mp hpairwise) hequal

theorem keysHashAlike_iff (hround : r.round (1 / 16777216) = 1 / 16777216)
    (hhash : Set.InjOn hash (zeroTexts stored types)) :
    KeysHashAlike stored hash types ↔ ∀ type ∈ types, ¬ HasFloats type :=
  ⟨exact_of_alike hround hhash, keysHashAlike_of_exact⟩

/-- The four bytes of an `int`, and of the float zero. -/
def fourBytes : Value (RoundedFloat .exact) → List UInt8
  | .ints v => leBytes 4 v.toUInt32.toNat
  | _ => [0, 0, 0, 0]

/-- The hash that is the length of a text. -/
def lengthHash (text : List UInt8) : UInt64 :=
  UInt64.ofNat text.length

/-- A column of four bytes. -/
def emptyColumn (columnId : Int) (room : Nat) : OutputColumn :=
  ⟨columnId, 4, room, true, []⟩

/-- The type of an `int` and that of a float. -/
def intAndFloat : List GroupKeyType :=
  [⟨.ints, 0⟩, ⟨.floats, 0⟩]

theorem injOn_lengthHash :
    Set.InjOn lengthHash (zeroTexts (r := .exact) (fun _ => []) intAndFloat) := by
  have htext : ∀ text ∈ zeroTexts (r := .exact) (fun _ => []) intAndFloat,
      text = [48] ∨ text = [45, 48] := by
    rintro _ ⟨type, htype, hfloats, x, hx, rfl⟩
    rcases List.mem_cons.mp htype with rfl | htype
    · exact absurd hfloats (by simp [HasFloats])
    · rw [List.mem_singleton.mp htype]
      rcases List.mem_cons.mp hx with rfl | hx
      · exact .inl doubleToStr_zero
      · rw [List.mem_singleton.mp hx]
        exact .inr doubleToStr_nearZero
  intro text h text' h' heq
  rcases htext text h with rfl | rfl <;> rcases htext text' h' with rfl | rfl
  · rfl
  · exact absurd heq (by decide)
  · exact absurd heq (by decide)
  · rfl

end AggregateHashTable

end Sql

end ObHtap
