import ObHtap.Common.RC
import ObHtap.Library.Json
import Mathlib.Data.Option.Basic

/-!
# Field metadata

A field of a table and its JSON form (`field_meta.cpp`, `attr_type.cpp`).  A C `int` is an
`Int32`, so that a conversion from a wider number keeps its low 32 bits.
-/

namespace ObHtap

open Json

/-- `isspace` on one character. -/
def isSpace (c : Char) : Bool :=
  c.toNat = 32 ∨ 9 ≤ c.toNat ∧ c.toNat ≤ 13

/-- `common::is_blank`. -/
def isBlank (s : String) : Bool :=
  s.toList.all isSpace

inductive AttrType where
  | undefined
  | chars
  | ints
  | floats
  | booleans
  | vectors
  | dates
  | nulls
  | texts
  | highVectors
  | valuesLists
  | maxType
  deriving DecidableEq, Repr

namespace AttrType

/-- `ATTR_TYPE_NAME`, which stops before `VALUESLISTS`. -/
def attrTypeName : List String :=
  ["undefined", "chars", "ints", "floats", "booleans", "vectors", "dates", "nulls", "texts",
    "high_vectors"]

/-- The enumerators in the order of their numbers. -/
def all : List AttrType :=
  [undefined, chars, ints, floats, booleans, vectors, dates, nulls, texts, highVectors,
    valuesLists, maxType]

/-- `attr_type_to_string`; the entry of a type before `MAXTYPE` is read without a bound, and a
read past the table has no result. -/
def toString (type : AttrType) : Option String :=
  if all.idxOf type < all.idxOf maxType then attrTypeName[all.idxOf type]? else some "unknown"

/-- `strcasecmp` gives zero. -/
def sameIgnoringCase (s s' : String) : Bool :=
  s.toList.map Char.toLower = s'.toList.map Char.toLower

/-- `attr_type_from_string`. -/
def ofString (s : String) : AttrType :=
  match attrTypeName.findIdx? (fun name => sameIgnoringCase name s) with
  | some i => (all[i]?).getD undefined
  | none => undefined

/-- The types that have an entry in the table of names. -/
def Named (type : AttrType) : Prop :=
  type ≠ undefined ∧ type ≠ valuesLists ∧ type ≠ maxType

instance (type : AttrType) : Decidable type.Named :=
  inferInstanceAs (Decidable (_ ∧ _ ∧ _))

theorem ofString_toString (type : AttrType) (h : type.Named) :
    ∃ s, type.toString = some s ∧ ofString s = type := by
  cases type
  case undefined => exact absurd rfl h.1
  case valuesLists => exact absurd rfl h.2.1
  case maxType => exact absurd rfl h.2.2
  all_goals exact ⟨_, rfl, by decide⟩

/-- A type without a name has none written, or one that reads as `UNDEFINED`. -/
theorem ofString_toString_of_not (type : AttrType) (h : ¬type.Named) (s : String)
    (hs : type.toString = some s) : ofString s = undefined := by
  cases type
  case undefined =>
    obtain rfl := Option.some.inj hs
    decide
  case valuesLists => cases hs
  case maxType =>
    obtain rfl := Option.some.inj hs
    decide
  all_goals exact absurd (by decide) h

end AttrType

structure FieldMeta where
  name : String
  attrType : AttrType
  attrOffset : Int32
  attrLen : Int32
  visible : Bool
  fieldId : Int32
  canBeNull : Bool
  realLen : Int32
  deriving DecidableEq

namespace FieldMeta

/-- What `FieldMeta::init` refuses. -/
def Rejected (name : String) (attrType : AttrType) (attrOffset attrLen : Int32) : Prop :=
  isBlank name ∨ attrType = .undefined ∨ attrOffset < 0 ∨ attrLen ≤ 0

instance (name : String) (attrType : AttrType) (attrOffset attrLen : Int32) :
    Decidable (Rejected name attrType attrOffset attrLen) :=
  inferInstanceAs (Decidable (_ ∨ _ ∨ _ ∨ _))

/-- `FieldMeta::init`. -/
def init (name : String) (attrType : AttrType) (attrOffset attrLen : Int32) (visible : Bool)
    (fieldId : Int32) (canBeNull : Bool) (realLen : Int32) : Except RC FieldMeta :=
  if Rejected name attrType attrOffset attrLen then .error .invalidArgument
  else .ok { name, attrType, attrOffset, attrLen, visible, fieldId, canBeNull, realLen }

/-- The constructor with arguments: the field can be null and its real length is 4.  A failed
`init` is the constructor's failed assertion. -/
def new (name : String) (attrType : AttrType) (attrOffset attrLen : Int32) (visible : Bool)
    (fieldId : Int32) : Except RC FieldMeta :=
  init name attrType attrOffset attrLen visible fieldId true 4

/-- The members `FieldMeta::to_json` assigns. -/
def jsonMembers (field : FieldMeta) (type : String) : List (String × Value) :=
  [("name", .string field.name),
    ("type", .string type),
    ("offset", .int field.attrOffset.toInt),
    ("len", .int field.attrLen.toInt),
    ("visible", .bool field.visible),
    ("FIELD_id", .int field.fieldId.toInt),
    ("can_be_null", .bool field.canBeNull),
    ("real_len", .int field.realLen.toInt)]

/-- `FieldMeta::to_json`. -/
def toJson (field : FieldMeta) : Option Value := do
  let type ← field.attrType.toString
  return .ofMembers (field.jsonMembers type)

/-- `FieldMeta::from_json`; an exception of the JSON library, as an error code, gives `none`.
`can_be_null` is converted without a check of its kind. -/
def fromJson (jsonValue : Value) : Option FieldMeta := do
  guard jsonValue.isObject
  let nameValue ← jsonValue.member? "name"
  let typeValue ← jsonValue.member? "type"
  let offsetValue ← jsonValue.member? "offset"
  let lenValue ← jsonValue.member? "len"
  let visibleValue ← jsonValue.member? "visible"
  let fieldIdValue ← jsonValue.member? "FIELD_id"
  let canBeNullValue ← jsonValue.member? "can_be_null"
  let realLenValue ← jsonValue.member? "real_len"
  guard (nameValue.isString ∧ typeValue.isString ∧ offsetValue.isInt ∧ lenValue.isInt ∧
    visibleValue.isBool ∧ fieldIdValue.isInt ∧ realLenValue.isInt)
  let type := AttrType.ofString (← typeValue.asCString)
  guard (type ≠ .undefined)
  let name ← nameValue.asCString
  let offset ← offsetValue.asInt
  let len ← lenValue.asInt
  let visible ← visibleValue.asBool
  let fieldId ← fieldIdValue.asInt
  let canBeNull ← canBeNullValue.asBool
  let realLen ← realLenValue.asInt
  (init name type (.ofInt offset) (.ofInt len) visible (.ofInt fieldId) canBeNull
    (.ofInt realLen)).toOption

variable {name : String} {attrType : AttrType} {attrOffset attrLen fieldId realLen : Int32}
  {visible canBeNull : Bool} {field : FieldMeta}

theorem init_eq_ok (h : init name attrType attrOffset attrLen visible fieldId canBeNull realLen =
      .ok field) :
    ¬Rejected name attrType attrOffset attrLen ∧
      field = { name, attrType, attrOffset, attrLen, visible, fieldId, canBeNull, realLen } := by
  rw [init] at h
  split at h
  · cases h
  · next hok =>
    cases h
    exact ⟨hok, rfl⟩

/-- A field that passes its own check. -/
def Valid (field : FieldMeta) : Prop :=
  ¬Rejected field.name field.attrType field.attrOffset field.attrLen

instance (field : FieldMeta) : Decidable field.Valid :=
  inferInstanceAs (Decidable (¬_))

theorem init_self (h : field.Valid) :
    init field.name field.attrType field.attrOffset field.attrLen field.visible field.fieldId
      field.canBeNull field.realLen = .ok field :=
  if_neg h

theorem fromJson_jsonMembers (field : FieldMeta) (type : String) :
    fromJson (.ofMembers (field.jsonMembers type)) =
      if AttrType.ofString type = .undefined then none
      else (init field.name (AttrType.ofString type) field.attrOffset field.attrLen field.visible
        field.fieldId field.canBeNull field.realLen).toOption := by
  simp only [fromJson, jsonMembers, Value.ofMembers, List.foldl_cons, List.foldl_nil,
    Value.isObject_object, Value.member?_object, lookup_insertMember]
  by_cases htype : AttrType.ofString type = .undefined <;> simp [htype]

/-- A valid field whose type has a name is read back. -/
theorem fromJson_toJson (hvalid : field.Valid) (hnamed : field.attrType.Named) :
    ∃ v, field.toJson = some v ∧ fromJson v = some field := by
  obtain ⟨type, htype, hback⟩ := AttrType.ofString_toString field.attrType hnamed
  have hjson : field.toJson = some (.ofMembers (field.jsonMembers type)) := by
    rw [toJson, htype]
    rfl
  refine ⟨_, hjson, ?_⟩
  rw [fromJson_jsonMembers, hback, if_neg hnamed.1, init_self hvalid]
  rfl

/-- A field whose type has no name is not written, or not read back. -/
theorem fromJson_toJson_of_not (hnamed : ¬field.attrType.Named) {v : Value}
    (hv : field.toJson = some v) : fromJson v = none := by
  obtain ⟨type, htype, hmembers⟩ := Option.bind_eq_some_iff.mp hv
  obtain rfl := Option.some.inj hmembers
  rw [fromJson_jsonMembers, AttrType.ofString_toString_of_not _ hnamed _ htype, if_pos rfl]

end FieldMeta

end ObHtap
