import ObHtap.Library.Partition
import ObHtap.Sql.ComparisonLaws
import ObHtap.Sql.GroupedRows

/-!
# The keys of groups

When two keys are the same for SQL, and when they compare equal.
-/

namespace ObHtap

namespace Sql

variable {r : Rounding}

/-! ## Keys -/

namespace Value

/-- All that SQL sees of a value that is no list.  The texts and vectors behind pages are a
parameter. -/
def content (stored : Value (RoundedFloat r) → List UInt8) (value : Value (RoundedFloat r)) :
    AttrType × List ℚ × List UInt8 :=
  match value with
  | ints v => (.ints, [v.toInt], [])
  | dates v => (.dates, [v.toInt], [])
  | floats x => (.floats, [x.toRat], [])
  | booleans b => (.booleans, [if b then 1 else 0], [])
  | vectors elems => (.vectors, elems.map RoundedFloat.toRat, [])
  | chars s => (.chars, [], s.getD [])
  | texts page => (.texts, [], stored (texts page))
  | highVectors page => (.highVectors, [], stored (highVectors page))
  | value => (value.attrType, [], [])

def dimension : Value (RoundedFloat r) → Nat
  | vectors elems => elems.length
  | _ => 0

end Value

/-- The type of an expression to group by, with the dimension of a vector. -/
structure GroupKeyType where
  attrType : AttrType
  dimension : Nat

/-- A value of the type, or NULL. -/
def GroupKeyType.Has (type : GroupKeyType) (value : Value (RoundedFloat r)) : Prop :=
  value.isNull = true ∨ value.attrType = type.attrType ∧ value.isList = false ∧
    value.dimension = type.dimension

/-- The keys are the same for SQL, for which NULL is the same as NULL. -/
def sqlSameKey (stored : Value (RoundedFloat r) → List UInt8)
    (key key' : List (Value (RoundedFloat r))) : Bool :=
  key.map (Value.content stored) = key'.map (Value.content stored)

/-! ## Values of one type -/

section

variable {type : GroupKeyType} {value value' other : Value (RoundedFloat r)}
  {stored : Value (RoundedFloat r) → List UInt8}

theorem isList_of_has (h : type.Has value) : value.isList = false := by
  rcases h with h | h
  · rw [isNull_eq h]
    rfl
  · exact h.2.1

theorem toRat_injective : Function.Injective (RoundedFloat.toRat : RoundedFloat r → ℚ) := by
  intro x y h
  cases x
  cases y
  exact congrArg _ h

theorem cast_toInt_injective {v v' : Int32} (h : ((v.toInt : Int) : ℚ) = (v'.toInt : Int)) :
    v = v' :=
  Int32.toInt_inj.mp (Int.cast_inj.mp h)

/-- `Value::compare` does not look behind what SQL sees. -/
theorem compare_congr (h : value.content stored = value'.content stored)
    (hlist : value.isList = false) (other : Value (RoundedFloat r)) :
    value.compare other = value'.compare other := by
  cases value <;> cases value' <;> simp only [Value.content, Value.attrType, Prod.mk.injEq,
    reduceCtorEq, false_and, and_true, true_and, List.cons.injEq] at h
  case chars.chars s s' =>
    cases other <;> first | rfl | exact congrArg (fun s => Except.ok (compareString s _)) h
  case ints.ints v v' => rw [cast_toInt_injective h]
  case floats.floats x x' => rw [toRat_injective h]
  case vectors.vectors elems elems' => rw [List.map_injective_iff.mpr toRat_injective h]
  case dates.dates v v' => rw [cast_toInt_injective h]
  case valuesLists.valuesLists => cases hlist
  all_goals rfl

theorem compareVectors_ok (elems elems' : List (RoundedFloat r))
    (h : elems.length = elems'.length) : ∃ n, Value.compareVectors elems elems' = .ok n := by
  induction elems generalizing elems' with
  | nil => exact ⟨0, rfl⟩
  | cons x elems ih =>
    cases elems' with
    | nil => cases h
    | cons y elems' =>
      rw [Value.compareVectors]
      split_ifs
      · exact ih elems' (Nat.succ.inj h)
      · exact ⟨_, rfl⟩

theorem compareVectors_zero {elems elems' : List (RoundedFloat r)}
    (h : elems.length = elems'.length) (hzero : Value.compareVectors elems elems' = .ok 0) :
    Value.compareVectors elems' elems = .ok 0 := by
  induction elems generalizing elems' with
  | nil =>
    rw [List.eq_nil_of_length_eq_zero h.symm]
    rfl
  | cons x elems ih =>
    cases elems' with
    | nil => cases h
    | cons y elems' =>
      rw [Value.compareVectors] at hzero ⊢
      rw [Value.compareFloat_swap]
      split_ifs at hzero with hxy
      · rw [if_pos (by rw [hxy]; rfl)]
        exact ih (Nat.succ.inj h) hzero
      · exact absurd (Except.ok.inj hzero) hxy

theorem compare_same_type (hsame : value.attrType = value'.attrType)
    (hdim : value.dimension = value'.dimension) (hlist : value.isList = false) :
    ∃ n m, value.compare value' = .ok n ∧ value'.compare value = .ok m ∧ (n = 0 ↔ m = 0) := by
  have hcompare (h : Value.Comparable value value') :
      ∃ n m, value.compare value' = .ok n ∧ value'.compare value = .ok m ∧ (n = 0 ↔ m = 0) := by
    rcases Value.compare_sign h with hn | hn | hn <;>
      exact ⟨_, _, hn, Value.compare_swap h hn, by decide⟩
  cases value <;> cases value' <;> simp only [Value.attrType, reduceCtorEq] at hsame
  case ints.ints => exact hcompare (Or.inl ⟨Or.inl rfl, Or.inl rfl⟩)
  case floats.floats => exact hcompare (Or.inl ⟨Or.inr rfl, Or.inr rfl⟩)
  case dates.dates => exact hcompare (Or.inr (Or.inl ⟨rfl, rfl⟩))
  case chars.chars => exact hcompare (Or.inr (Or.inr ⟨rfl, rfl⟩))
  case vectors.vectors elems elems' =>
    obtain ⟨n, hn⟩ := compareVectors_ok elems elems' hdim
    obtain ⟨m, hm⟩ := compareVectors_ok elems' elems hdim.symm
    refine ⟨n, m, hn, hm, ?_, ?_⟩
    · rintro rfl
      exact Except.ok.inj (hm.symm.trans (compareVectors_zero hdim hn))
    · rintro rfl
      exact Except.ok.inj (hn.symm.trans (compareVectors_zero hdim.symm hm))
  case valuesLists.valuesLists => cases hlist
  all_goals exact ⟨_, _, rfl, rfl, Iff.rfl⟩

/-- Two values of a type can be compared either way round, and are equal either way or neither. -/
theorem compare_has (h : type.Has value) (h' : type.Has value') :
    ∃ n m, value.compare value' = .ok n ∧ value'.compare value = .ok m ∧ (n = 0 ↔ m = 0) := by
  have hlist := isList_of_has h
  have hlist' := isList_of_has h'
  cases hnull : value.isNull with
  | true =>
    rw [isNull_eq hnull]
    cases hnull' : value'.isNull with
    | true =>
      rw [isNull_eq hnull']
      exact ⟨0, 0, rfl, rfl, Iff.rfl⟩
    | false =>
      exact ⟨_, _, compare_null_left hnull', compare_null_right hlist' hnull', by decide⟩
  | false =>
    cases hnull' : value'.isNull with
    | true =>
      rw [isNull_eq hnull']
      exact ⟨_, _, compare_null_right hlist hnull, compare_null_left hnull, by decide⟩
    | false =>
      obtain ⟨htype, -, hdim⟩ := h.resolve_left (Bool.eq_false_iff.mp hnull)
      obtain ⟨htype', -, hdim'⟩ := h'.resolve_left (Bool.eq_false_iff.mp hnull')
      exact compare_same_type (htype.trans htype'.symm) (hdim.trans hdim'.symm) hlist

/-! ## Keys of one type -/

variable {types : List GroupKeyType} {key key' other' : List (Value (RoundedFloat r))}

/-- The values of a key have the types of the expressions to group by. -/
def HasTypes (types : List GroupKeyType) (key : List (Value (RoundedFloat r))) : Prop :=
  List.Forall₂ GroupKeyType.Has types key

theorem compareKeys_eq (h : HasTypes types key) (h' : HasTypes types key') :
    compareKeys key key' = compareKeys.compareCells key key' := by
  have hlength := h.length_eq
  have hlength' := h'.length_eq
  rw [compareKeys, if_neg (by omega), if_neg (by omega)]

theorem compareCells_has (h : HasTypes types key) (h' : HasTypes types key') :
    ∃ n m, compareKeys.compareCells key key' = .ok n ∧ compareKeys.compareCells key' key = .ok m ∧
      (n = 0 ↔ m = 0) := by
  induction h generalizing key' with
  | nil =>
    cases h'
    exact ⟨0, 0, rfl, rfl, Iff.rfl⟩
  | @cons type value types key hvalue hkey ih =>
    cases h' with
    | @cons _ value' _ key' hvalue' hkey' =>
      obtain ⟨n, m, hn, hm, hiff⟩ := compare_has hvalue hvalue'
      rw [compareKeys.compareCells, compareKeys.compareCells, hn, hm]
      change ∃ n' m', (if n ≠ 0 then Except.ok n else _) = _ ∧
        (if m ≠ 0 then Except.ok m else _) = _ ∧ _
      by_cases hzero : n = 0
      · rw [if_neg (not_not.mpr hzero), if_neg (not_not.mpr (hiff.mp hzero))]
        exact ih hkey'
      · rw [if_pos hzero, if_pos fun h => hzero (hiff.mpr h)]
        exact ⟨n, m, rfl, rfl, hiff⟩

theorem compareKeys_has (h : HasTypes types key) (h' : HasTypes types key') :
    ∃ n m, compareKeys key key' = .ok n ∧ compareKeys key' key = .ok m ∧ (n = 0 ↔ m = 0) := by
  rw [compareKeys_eq h h', compareKeys_eq h' h]
  exact compareCells_has h h'

theorem compareKeys_congr (h : HasTypes types key) (hsame : sqlSameKey stored key key' = true)
    (other : List (Value (RoundedFloat r))) : compareKeys key other = compareKeys key' other := by
  have hcontent : key.map (Value.content stored) = key'.map (Value.content stored) :=
    of_decide_eq_true hsame
  have hlength : key.length = key'.length := by
    simpa using congrArg List.length hcontent
  have hcells : compareKeys.compareCells key other = compareKeys.compareCells key' other := by
    clear hsame hlength
    induction h generalizing key' other with
    | nil => rw [List.map_eq_nil_iff.mp hcontent.symm]
    | @cons type value types key hvalue hkey ih =>
      cases key' with
      | nil => cases hcontent
      | cons value' key' =>
        obtain ⟨hfirst, hrest⟩ := List.cons.inj hcontent
        cases other with
        | nil => rfl
        | cons w other =>
          rw [compareKeys.compareCells, compareKeys.compareCells,
            compare_congr hfirst (isList_of_has hvalue) w, ih other hrest]
  rw [compareKeys, compareKeys, hlength, hcells]

/-- Comparing keys of one type respects what is the same for SQL. -/
theorem respects_sameKey {keys : List (List (Value (RoundedFloat r)))}
    (h : ∀ key ∈ keys, HasTypes types key) :
    Grouping.Respects keys sameKey (sqlSameKey stored) where
  refl key _ := decide_eq_true rfl
  symm key _ key' _ := decide_eq_decide.mpr eq_comm
  trans key _ key' _ key'' _ hsame := by
    have hcontent : key.map (Value.content stored) = key'.map (Value.content stored) :=
      of_decide_eq_true hsame
    unfold sqlSameKey
    rw [hcontent]
  same_symm key hkey key' hkey' := by
    obtain ⟨n, m, hn, hm, hiff⟩ := compareKeys_has (h key hkey) (h key' hkey')
    unfold sameKey
    rw [hn, hm, decide_eq_decide, Except.ok.injEq, Except.ok.injEq]
    exact hiff
  same_congr key hkey key' _ key'' _ hsame := by
    unfold sameKey
    rw [compareKeys_congr (h key hkey) hsame]

/-! ## Keys that are told apart -/

/-- The types whose values compare equal only if they are the same. -/
def GroupKeyType.isExact (type : GroupKeyType) : Bool :=
  type.attrType = .ints || type.attrType = .dates || type.attrType = .chars

theorem compareInt_eq_zero {v v' : Int32} : compareInt v v' = 0 ↔ v = v' := by
  rw [Value.ranked_compareInt.zero_iff, Int32.toInt_inj]

theorem compareString_eq_zero {s s' : List UInt8} : compareString s s' = 0 ↔ s = s' := by
  rw [Value.ranked_compareString.zero_iff]
  exact (List.map_injective_iff.mpr fun _ _ => UInt8.toNat_inj.mp).eq_iff

theorem isNull_of_content (h : value.content stored = value'.content stored) :
    value.isNull = value'.isNull := by
  have hfst := congrArg Prod.fst h
  cases value <;> cases value' <;> first | rfl | cases hfst

variable (stored) in
theorem compare_eq_zero_iff (hexact : type.isExact = true) (h : type.Has value)
    (h' : type.Has value') :
    value.compare value' = .ok 0 ↔ value.content stored = value'.content stored := by
  have hlist := isList_of_has h
  cases hnull : value.isNull with
  | true =>
    obtain rfl := isNull_eq hnull
    cases hnull' : value'.isNull with
    | true =>
      obtain rfl := isNull_eq hnull'
      exact iff_of_true rfl rfl
    | false =>
      refine iff_of_false ?_ fun heq => ?_
      · rw [compare_null_left hnull']
        decide
      · cases (isNull_of_content heq).trans hnull'
  | false =>
    cases hnull' : value'.isNull with
    | true =>
      obtain rfl := isNull_eq hnull'
      refine iff_of_false ?_ fun heq => ?_
      · rw [compare_null_right hlist hnull]
        decide
      · cases (isNull_of_content heq).symm.trans hnull
    | false =>
      obtain ⟨htype, -⟩ := h.resolve_left (Bool.eq_false_iff.mp hnull)
      obtain ⟨htype', -⟩ := h'.resolve_left (Bool.eq_false_iff.mp hnull')
      unfold GroupKeyType.isExact at hexact
      rw [← htype] at hexact htype'
      cases value with
      | chars s =>
        obtain ⟨s', rfl⟩ := Value.exists_of_attrType.2.2.2 htype'
        have hcompare : (Value.chars s).compare (.chars s' : Value (RoundedFloat r)) =
            .ok (compareString (s.getD []) (s'.getD [])) :=
          rfl
        rw [hcompare, Except.ok.injEq, compareString_eq_zero]
        simp [Value.content]
      | ints v =>
        obtain ⟨v', rfl⟩ := Value.exists_of_attrType.1 htype'
        have hcompare : (Value.ints v).compare (.ints v' : Value (RoundedFloat r)) =
            .ok (compareInt v v') :=
          rfl
        rw [hcompare, Except.ok.injEq, compareInt_eq_zero]
        simp [Value.content, Int32.toInt_inj]
      | dates v =>
        obtain ⟨v', rfl⟩ := Value.exists_of_attrType.2.2.1 htype'
        have hcompare : (Value.dates v).compare (.dates v' : Value (RoundedFloat r)) =
            .ok (compareInt v v') :=
          rfl
        rw [hcompare, Except.ok.injEq, compareInt_eq_zero]
        simp [Value.content, Int32.toInt_inj]
      | _ => cases hexact

/-- Keys of these types compare equal exactly if they are the same. -/
theorem sameKey_eq (hexact : ∀ type ∈ types, type.isExact = true) (h : HasTypes types key)
    (h' : HasTypes types key') : sameKey key key' = sqlSameKey stored key key' := by
  unfold sameKey sqlSameKey
  rw [compareKeys_eq h h', decide_eq_decide]
  induction h generalizing key' with
  | nil =>
    cases h'
    exact iff_of_true rfl rfl
  | @cons type value types key hvalue hkey ih =>
    cases h' with
    | @cons _ value' _ key' hvalue' hkey' =>
      obtain ⟨hfirst, hrest⟩ := List.forall_mem_cons.mp hexact
      obtain ⟨n, -, hn, -⟩ := compare_has hvalue hvalue'
      have hiff := compare_eq_zero_iff stored hfirst hvalue hvalue'
      rw [compareKeys.compareCells, List.map_cons, List.map_cons, List.cons.injEq,
        ← ih hrest hkey', ← hiff, hn]
      change (if n ≠ 0 then Except.ok n else _) = _ ↔ _
      by_cases hzero : n = 0
      · rw [if_neg (not_not.mpr hzero), hzero, and_iff_right rfl]
      · rw [if_pos hzero, Except.ok.injEq]
        exact iff_of_false hzero fun h => hzero h.1

end

end Sql

end ObHtap
