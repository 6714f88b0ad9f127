import Mathlib.Algebra.Group.Int.Defs
import Mathlib.Data.List.Basic

/-!
# JSON values

The values of a JSON library with tagged values: an object is a map from keys to values, read
through a lookup that gives `null` for a key that is not there.  The operations that throw on a
value of another kind return `none`.
-/

namespace ObHtap.Json

inductive Value where
  | null
  | bool (b : Bool)
  | int (n : Int)
  | string (s : String)
  | array (elements : List Value)
  | object (members : List (String × Value))

/-- Keys are ordered as strings of codes. -/
def keyLt (k k' : String) : Bool :=
  decide (k.toList.map Char.toNat < k'.toList.map Char.toNat)

/-- Assigns one member of an object; the members are kept in the order of their keys. -/
def insertMember (k : String) (v : Value) : List (String × Value) → List (String × Value)
  | [] => [(k, v)]
  | (k', v') :: ms =>
    if k = k' then (k, v) :: ms
    else if keyLt k k' then (k, v) :: (k', v') :: ms
    else (k', v') :: insertMember k v ms

theorem lookup_cons (k k' : String) (v : Value) (ms : List (String × Value)) :
    ((k, v) :: ms).lookup k' = if k' = k then some v else ms.lookup k' := by
  rw [List.lookup_cons]
  by_cases h : k' = k
  · simp [h]
  · rw [if_neg h, beq_eq_false_iff_ne.mpr h]

/-- An assigned member is found under its key, and nothing changes under the other keys. -/
theorem lookup_insertMember (k k' : String) (v : Value) (ms : List (String × Value)) :
    (insertMember k v ms).lookup k' = if k' = k then some v else ms.lookup k' := by
  induction ms with
  | nil => exact lookup_cons k k' v []
  | cons m ms ih =>
    obtain ⟨k₁, v₁⟩ := m
    rw [insertMember]
    by_cases hkey : k = k₁
    · subst hkey
      rw [if_pos rfl, lookup_cons, lookup_cons]
      split_ifs <;> rfl
    · rw [if_neg hkey]
      by_cases hlt : keyLt k k₁ = true
      · rw [if_pos hlt, lookup_cons]
      · rw [if_neg hlt, lookup_cons, lookup_cons, ih]
        by_cases h : k' = k₁
        · have hne : k' ≠ k := fun he => hkey (he.symm.trans h)
          rw [if_pos h, if_neg hne, if_pos h]
        · rw [if_neg h, if_neg h]

namespace Value

/-- The value made by assigning members to `null` one after the other. -/
def ofMembers : List (String × Value) → Value
  | [] => null
  | m :: ms => object ((m :: ms).foldl (fun acc m => insertMember m.1 m.2 acc) [])

/-- The value made by appending elements to `null` one after the other. -/
def ofElements : List Value → Value
  | [] => null
  | v :: vs => array (v :: vs)

/-- The member of a value under a key. -/
def member? : Value → String → Option Value
  | null, _ => some null
  | object ms, k => some ((ms.lookup k).getD null)
  | _, _ => none

/-- The element of a value at an index. -/
def element? : Value → Nat → Option Value
  | null, _ => some null
  | array vs, i => some ((vs[i]?).getD null)
  | _, _ => none

def elements : Value → List Value
  | array vs => vs
  | _ => []

def isEmpty : Value → Bool
  | null => true
  | array vs => vs.isEmpty
  | object ms => ms.isEmpty
  | _ => false

def isObject : Value → Bool
  | object _ => true
  | _ => false

def isArray : Value → Bool
  | array _ => true
  | _ => false

def isString : Value → Bool
  | string _ => true
  | _ => false

def isBool : Value → Bool
  | bool _ => true
  | _ => false

/-- A number that fits 32 bits. -/
def isInt : Value → Bool
  | int n => decide (-2 ^ 31 ≤ n ∧ n < 2 ^ 31)
  | _ => false

def asInt : Value → Option Int
  | null => some 0
  | bool b => some b.toInt
  | int n => if -2 ^ 31 ≤ n ∧ n < 2 ^ 31 then some n else none
  | _ => none

def asInt64 : Value → Option Int
  | null => some 0
  | bool b => some b.toInt
  | int n => if -2 ^ 63 ≤ n ∧ n < 2 ^ 63 then some n else none
  | _ => none

def asBool : Value → Option Bool
  | null => some false
  | bool b => some b
  | int n => some (decide (n ≠ 0))
  | _ => none

def asCString : Value → Option String
  | string s => some s
  | _ => none

@[simp] theorem member?_object (ms : List (String × Value)) (k : String) :
    (object ms).member? k = some ((ms.lookup k).getD null) := rfl

@[simp] theorem isString_string (s : String) : (string s).isString = true := rfl

@[simp] theorem isBool_bool (b : Bool) : (bool b).isBool = true := rfl

@[simp] theorem isObject_object (ms : List (String × Value)) : (object ms).isObject = true := rfl

@[simp] theorem asCString_string (s : String) : (string s).asCString = some s := rfl

@[simp] theorem asBool_bool (b : Bool) : (bool b).asBool = some b := rfl

@[simp] theorem isInt_toInt (n : Int32) : (int n.toInt).isInt = true := by
  have hlo := n.le_toInt
  have hhi := n.toInt_lt
  simp [isInt]
  omega

@[simp] theorem asInt_toInt (n : Int32) : (int n.toInt).asInt = some n.toInt := by
  have hlo := n.le_toInt
  have hhi := n.toInt_lt
  exact if_pos (by omega)

@[simp] theorem asInt64_toInt (n : Int32) : (int n.toInt).asInt64 = some n.toInt := by
  have hlo := n.le_toInt
  have hhi := n.toInt_lt
  exact if_pos (by omega)

theorem elements_ofElements (vs : List Value) : (ofElements vs).elements = vs := by
  cases vs <;> rfl

theorem isArray_ofElements (vs : List Value) : (ofElements vs).isArray = !vs.isEmpty := by
  cases vs <;> rfl

theorem isEmpty_ofElements (vs : List Value) : (ofElements vs).isEmpty = vs.isEmpty := by
  cases vs <;> rfl

theorem element?_ofElements (vs : List Value) (i : Nat) :
    (ofElements vs).element? i = some ((vs[i]?).getD null) := by
  cases vs <;> simp [ofElements, element?]

end Value

section Lists

variable {α β γ : Type} {encode : α → Option β} {decode : β → Option γ} {f : α → β}
  {as : List α} {bs : List β} {cs : List γ}

/-- A list whose elements are all encoded and decoded is encoded and decoded. -/
theorem mapM_mapM_eq (decode : β → Option α)
    (h : ∀ a ∈ as, ∃ b, encode a = some b ∧ decode b = some a) :
    ∃ bs, as.mapM encode = some bs ∧ bs.mapM decode = some as := by
  induction as with
  | nil => exact ⟨[], rfl, rfl⟩
  | cons a as ih =>
    obtain ⟨b, hb, ha⟩ := h a (by simp)
    obtain ⟨bs, hbs, has⟩ := ih fun a' h' => h a' (by simp [h'])
    exact ⟨b :: bs, by simp [hb, hbs], by simp [ha, has]⟩

/-- Every element of a list that is encoded and decoded is encoded and decoded. -/
theorem of_mapM_mapM (hencode : as.mapM encode = some bs) (hdecode : bs.mapM decode = some cs) :
    ∀ a ∈ as, ∃ b, encode a = some b ∧ (decode b).isSome := by
  induction as generalizing bs cs with
  | nil => simp
  | cons a as ih =>
    rw [List.mapM_cons] at hencode
    obtain ⟨b, hb, hrest⟩ := Option.bind_eq_some_iff.mp hencode
    obtain ⟨bs', hbs', hlist⟩ := Option.bind_eq_some_iff.mp hrest
    obtain rfl := Option.some.inj hlist
    rw [List.mapM_cons] at hdecode
    obtain ⟨c, hc, hrest'⟩ := Option.bind_eq_some_iff.mp hdecode
    obtain ⟨cs', hcs', -⟩ := Option.bind_eq_some_iff.mp hrest'
    intro a' ha'
    rcases List.mem_cons.mp ha' with rfl | hmem
    · exact ⟨b, hb, by simp [hc]⟩
    · exact ih hbs' hcs' a' hmem

/-- A list is the image of another one under a partial map just when its elements are, one by
one. -/
theorem mapM_map_eq_some (decode : β → Option α) :
    (as.map f).mapM decode = some as ↔ ∀ a ∈ as, decode (f a) = some a := by
  induction as with
  | nil => simp
  | cons a as ih =>
    rw [List.map_cons, List.mapM_cons, List.forall_mem_cons, ← ih]
    cases decode (f a) <;> cases (as.map f).mapM decode <;> simp

theorem mapM_isSome : (as.mapM encode).isSome ↔ ∀ a ∈ as, (encode a).isSome := by
  induction as with
  | nil => simp
  | cons a as ih =>
    rw [List.mapM_cons, List.forall_mem_cons, ← ih]
    cases encode a <;> cases as.mapM encode <;> simp

theorem mapM_length (h : as.mapM encode = some bs) : bs.length = as.length := by
  induction as generalizing bs with
  | nil =>
    obtain rfl := Option.some.inj h
    rfl
  | cons a as ih =>
    rw [List.mapM_cons] at h
    obtain ⟨b, -, hrest⟩ := Option.bind_eq_some_iff.mp h
    obtain ⟨bs', hbs', hlist⟩ := Option.bind_eq_some_iff.mp hrest
    obtain rfl := Option.some.inj hlist
    simp [ih hbs']

theorem mapM_range (l : List α) (encode : α → Option β) {g : Nat → Option β}
    (hg : ∀ i a, l[i]? = some a → g i = encode a) :
    (List.range l.length).mapM g = l.mapM encode := by
  induction l generalizing g with
  | nil => rfl
  | cons a l ih =>
    have hrest : (List.range l.length).mapM (g ∘ Nat.succ) = l.mapM encode :=
      ih fun i b hb => hg (i + 1) b hb
    rw [List.length_cons, List.range_succ_eq_map, List.mapM_cons, List.mapM_map, hrest,
      hg 0 a rfl, List.mapM_cons]

end Lists

end ObHtap.Json
