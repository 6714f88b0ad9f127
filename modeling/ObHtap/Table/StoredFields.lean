import ObHtap.Table.MakeRecord

/-!
# What is stored for the fields

The bytes that are copied for a value, the loop that writes the columns one after the other, and
what a cell is read from.
-/

namespace ObHtap

open Sql

/-! ## The bytes of a value -/

namespace Sql.Value

variable {value : Sql.Value FloatWord} {behind : Nat → UInt8} {n : Nat} {bytes : List UInt8}

theorem memory_spec (h : value.memory behind n = .ok bytes) :
    ∃ own, value.data = some own ∧ bytes.length = n ∧
      ∀ p < n, p < own.length → bytes[p]? = own[p]? := by
  unfold memory at h
  cases hdata : value.data with
  | none =>
    rw [hdata] at h
    cases h
  | some own =>
    rw [hdata] at h
    cases h
    refine ⟨own, rfl, by simp, ?_⟩
    intro p hp hown
    rw [List.getElem?_map, List.getElem?_range hp, List.getElem?_eq_getElem hown,
      Option.map_some, List.getD_eq_getElem?_getD, List.getElem?_eq_getElem hown, Option.getD_some]

theorem memory_of_data {own : List UInt8} (h : value.data = some own) :
    ∃ bytes, value.memory behind n = .ok bytes := by
  unfold memory
  rw [h]
  exact ⟨_, rfl⟩

@[simp] theorem length_vectorBytes (elems : List FloatWord) :
    (vectorBytes elems).length = 4 * elems.length := by
  induction elems with
  | nil => rfl
  | cons x elems ih =>
    unfold vectorBytes at ih ⊢
    rw [List.flatMap_cons, List.length_append, ih, length_int32Bytes, List.length_cons]
    omega

end Sql.Value

theorem vectorElems_int32Bytes (x : Int32) (bytes : List UInt8) :
    vectorElems (int32Bytes x ++ bytes) = ⟨x⟩ :: vectorElems bytes := by
  have hback := bytesInt32_int32Bytes x
  have hlen := length_int32Bytes x
  generalize int32Bytes x = front at hback hlen
  match front, hlen with
  | [b₀, b₁, b₂, b₃], _ =>
    rw [List.cons_append, List.cons_append, List.cons_append, List.cons_append, List.nil_append,
      vectorElems, hback]

@[simp] theorem vectorElems_vectorBytes (elems : List FloatWord) :
    vectorElems (Sql.Value.vectorBytes elems) = elems := by
  induction elems with
  | nil => rfl
  | cons x elems ih =>
    unfold Sql.Value.vectorBytes at ih ⊢
    rw [List.flatMap_cons, vectorElems_int32Bytes, ih]

theorem takeWhile_terminated (s rest : List UInt8) :
    (s ++ 0 :: rest).takeWhile (· ≠ 0) = s.takeWhile (· ≠ 0) := by
  induction s with
  | nil => rfl
  | cons c s ih =>
    rw [List.cons_append, List.takeWhile_cons, List.takeWhile_cons, ih]

/-! ## One field -/

variable {behind : Nat → UInt8} {field : FieldMeta} {real value : Sql.Value FloatWord}
  {bytes record record' : List UInt8} {isNull : Bool}

/-- A string is copied with its zero if that fits; another value with as many bytes as the field
has. -/
theorem copiedBytes_spec (h : copiedBytes behind real field = .ok bytes) :
    ∃ own, real.data = some own ∧ bytes.length ≤ field.attrLen.toNatClampNeg ∧
      (∀ p < bytes.length, p < own.length → bytes[p]? = own[p]?) ∧
      if real.attrType = .chars then bytes.length = min own.length field.attrLen.toNatClampNeg
      else bytes.length = field.attrLen.toNatClampNeg := by
  unfold copiedBytes at h
  dsimp only at h
  split at h
  case isTrue hchars =>
    split at h
    case isTrue => cases h
    case isFalse hfits =>
      obtain ⟨own, hown, hlen, hbytes⟩ := Sql.Value.memory_spec h
      have hlength : own.length = real.length + 1 := by
        cases real with
        | chars pointer =>
          obtain ⟨s, rfl, rfl⟩ := Option.map_eq_some_iff.mp hown
          rw [List.length_append, List.length_singleton, Sql.Value.length, Option.getD_some]
        | _ => cases hchars
      refine ⟨own, hown, ?_, fun p hp => hbytes p (hlen ▸ hp), ?_⟩
      · rw [hlen]
        split <;> omega
      · rw [if_pos hchars, hlen, hlength]
        split <;> omega
  case isFalse hother =>
    obtain ⟨own, hown, hlen, hbytes⟩ := Sql.Value.memory_spec h
    exact ⟨own, hown, hlen.le, fun p hp => hbytes p (hlen ▸ hp), by rw [if_neg hother, hlen]⟩

theorem copiedBytes_pos (h : copiedBytes behind real field = .ok bytes)
    (hpos : 0 < field.attrLen.toNatClampNeg) : 0 < bytes.length := by
  obtain ⟨own, hown, -, -, hlen⟩ := copiedBytes_spec h
  split at hlen
  · next hchars =>
    cases real with
    | chars pointer =>
      obtain ⟨s, -, rfl⟩ := Option.map_eq_some_iff.mp hown
      rw [List.length_append, List.length_singleton] at hlen
      omega
    | _ => cases hchars
  · omega

/-- What is in a record after a field has been stored. -/
structure Stored (field : FieldMeta) (bytes : List UInt8) (isNull : Bool) (record : List UInt8) :
    Prop where
  flag : cellIsNull record field = .ok isNull
  bytes : ∀ p < bytes.length, record[field.attrOffset.toNatClampNeg + p]? = bytes[p]?

theorem store_eq_ok (h : field.attrOffset.toNatClampNeg + bytes.length ≤ record.length)
    (hid : field.fieldId.toNatClampNeg < record.length) :
    ∃ record', store field bytes isNull record = .ok record' := by
  unfold store setNullFlag
  have hcopy : memcpy record field.attrOffset.toNatClampNeg bytes = some _ := if_pos h
  have hlen := length_memcpy hcopy
  rw [hcopy, Option.bind_some, memcpy, if_pos]
  · exact ⟨_, rfl⟩
  · rw [hlen, List.length_singleton]
    omega

theorem store_spec (h : store field bytes isNull record = .ok record')
    (hid : 0 ≤ field.fieldId.toInt) (hlt : field.fieldId.toInt < record.length)
    (hend : field.attrOffset.toNatClampNeg + bytes.length ≤
      record.length - field.fieldId.toNatClampNeg - 1) :
    record'.length = record.length ∧ Stored field bytes isNull record' ∧
      ∀ p, p ≠ record.length - field.fieldId.toNatClampNeg - 1 →
        ¬ (field.attrOffset.toNatClampNeg ≤ p ∧
          p < field.attrOffset.toNatClampNeg + bytes.length) →
        record'[p]? = record[p]? := by
  have hidn : (field.fieldId.toNatClampNeg : Int) = field.fieldId.toInt := Int.toNat_of_nonneg hid
  unfold store at h
  split at h
  case h_2 => cases h
  case h_1 r hr =>
    cases h
    obtain ⟨mid, hmid, hflag⟩ := Option.bind_eq_some_iff.mp hr
    have hlen := length_memcpy hmid
    have hlen' := length_memcpy hflag
    unfold setNullFlag at hflag
    rw [hlen] at hflag
    have hat := getElem?_memcpy hmid
    have hat' := getElem?_memcpy hflag
    simp only [List.length_singleton] at hat'
    refine ⟨hlen'.trans hlen, ⟨?_, ?_⟩, ?_⟩
    · have hplace : ((record'.length : Int) - field.fieldId.toInt - 1).toNat =
          record.length - field.fieldId.toNatClampNeg - 1 := by omega
      unfold cellIsNull
      dsimp only
      rw [if_neg (by omega), hplace, hat', if_pos (by omega), Nat.sub_self]
      cases isNull <;> rfl
    · intro p hp
      rw [hat', if_neg (by omega), hat, if_pos (by omega)]
      congr 1
      omega
    · intro p hne hout
      rw [hat', if_neg (by omega), hat, if_neg hout]

theorem Stored.congr (h : Stored field bytes isNull record) (hlen : record'.length = record.length)
    (hflag : record'[record.length - field.fieldId.toNatClampNeg - 1]? =
      record[record.length - field.fieldId.toNatClampNeg - 1]?)
    (hid : 0 ≤ field.fieldId.toInt)
    (hbytes : ∀ p < bytes.length, record'[field.attrOffset.toNatClampNeg + p]? =
      record[field.attrOffset.toNatClampNeg + p]?) : Stored field bytes isNull record' := by
  refine ⟨?_, fun p hp => (hbytes p hp).trans (h.bytes p hp)⟩
  have hplace : ((record.length : Int) - field.fieldId.toInt - 1).toNat =
      record.length - field.fieldId.toNatClampNeg - 1 := by
    unfold Int32.toNatClampNeg
    omega
  have hold := h.flag
  unfold cellIsNull at hold ⊢
  dsimp only at hold ⊢
  rwa [hlen, hplace, hflag, ← hplace]

theorem readBytes_of_stored {n : Nat} (h : Stored field bytes isNull record)
    (hn : n ≤ bytes.length) (hin : field.attrOffset.toNatClampNeg + n ≤ record.length) :
    readBytes record field.attrOffset.toNatClampNeg n = .ok (bytes.take n) := by
  rw [readBytes, if_pos hin]
  congr 1
  apply List.ext_getElem?
  intro p
  rcases Nat.lt_or_ge p n with hlt | hge
  · rw [List.getElem?_take_of_lt hlt, List.getElem?_take_of_lt hlt, List.getElem?_drop,
      h.bytes p (by omega)]
  · rw [List.getElem?_eq_none (by rw [List.length_take]; omega),
      List.getElem?_eq_none (by rw [List.length_take]; omega)]

theorem isNull_of_ofColumn (h : value.attrType.OfColumn) : value.isNull = false := by
  unfold Sql.Value.isNull
  revert h
  generalize value.attrType = type
  cases type <;> decide

@[simp] theorem isNull_asCString (value : Sql.Value FloatWord) :
    value.asCString.isNull = value.isNull := by
  cases value <;> rfl

/-! ## The loop over the columns -/

/-- The fields of the columns from the column `i` on lie one behind the other up to `stop`. -/
structure Columns (stop i : Nat) (fields : List FieldMeta) : Prop where
  inside : ∀ f ∈ fields, f.attrOffset.toNatClampNeg + f.attrLen.toNatClampNeg ≤ stop
  ids : ∀ k f, fields[k]? = some f → f.fieldId.toInt = ((i + k : Nat) : Int)
  apart : fields.Pairwise fun f f' =>
    f.attrOffset.toNatClampNeg + f.attrLen.toNatClampNeg ≤ f'.attrOffset.toNatClampNeg

variable {stop i : Nat} {fields : List FieldMeta} {values : List (Sql.Value FloatWord)}
  {env : RecordOutcomes}

theorem Columns.tail (h : Columns stop i (field :: fields)) : Columns stop (i + 1) fields where
  inside f hf := h.inside f (List.mem_cons_of_mem _ hf)
  ids k f hk := by
    have hid := h.ids (k + 1) f hk
    rw [hid]
    congr 1
    omega
  apart := (List.pairwise_cons.mp h.apart).2

section

variable [Floats FloatWord]

/-- A value that can be written into the field of the column `i`. -/
def Takes (env : RecordOutcomes) (i : Nat) (field : FieldMeta) (value : Sql.Value FloatWord) :
    Prop :=
  ∃ real bytes, realValue env i field value = .ok real ∧
    copiedBytes (env.behind i) real field = .ok bytes

theorem makeFields_ok (hcolumns : Columns stop i fields)
    (hroom : stop + (i + fields.length) ≤ record.length)
    (h : ∀ k f v, fields[k]? = some f → values[k]? = some v → Takes env (i + k) f v) :
    ∃ record', makeFields env i fields values record = .ok record' := by
  induction fields generalizing i values record with
  | nil => exact ⟨record, by unfold makeFields; rfl⟩
  | cons field fields ih =>
    cases values with
    | nil => exact ⟨record, by unfold makeFields; rfl⟩
    | cons value values =>
      rw [List.length_cons] at hroom
      obtain ⟨real, bytes, hreal, hbytes⟩ := h 0 field value rfl rfl
      obtain ⟨-, -, hle, -⟩ := copiedBytes_spec hbytes
      have hin := hcolumns.inside field List.mem_cons_self
      have hid := hcolumns.ids 0 field rfl
      have hidn : field.fieldId.toNatClampNeg = i := by
        unfold Int32.toNatClampNeg
        omega
      obtain ⟨mid, hmid⟩ := @store_eq_ok field bytes record real.isNull (by omega) (by omega)
      have hlen := (store_spec hmid (by omega) (by omega) (by omega)).1
      have hrest : ∀ k f v, fields[k]? = some f → values[k]? = some v →
          Takes env (i + 1 + k) f v := by
        intro k f v hf hv
        rw [Nat.add_assoc, Nat.add_comm 1]
        exact h (k + 1) f v hf hv
      have hroom' : stop + (i + 1 + fields.length) ≤ mid.length := by omega
      obtain ⟨record', hrecord'⟩ := ih hcolumns.tail hroom' hrest
      refine ⟨record', ?_⟩
      rw [Nat.add_zero] at hreal hbytes
      rw [makeFields, hreal, ok_bind, setValueToRecord, hbytes, ok_bind, hmid, ok_bind, hrecord']

/-- What the loop leaves in the record: each value in its field, and the places in front of the
flags that are in no field, and the flags of the columns before, as they were. -/
theorem makeFields_spec (hcolumns : Columns stop i fields)
    (hroom : stop + (i + fields.length) ≤ record.length)
    (h : makeFields env i fields values record = .ok record') :
    record'.length = record.length ∧
      (∀ p < stop, (∀ f ∈ fields, ¬ (f.attrOffset.toNatClampNeg ≤ p ∧
        p < f.attrOffset.toNatClampNeg + f.attrLen.toNatClampNeg)) → record'[p]? = record[p]?) ∧
      (∀ p, record.length ≤ p + i → record'[p]? = record[p]?) ∧
      ∀ k f v, fields[k]? = some f → values[k]? = some v → ∃ real bytes,
        realValue env (i + k) f v = .ok real ∧
          copiedBytes (env.behind (i + k)) real f = .ok bytes ∧
          Stored f bytes real.isNull record' := by
  induction fields generalizing i values record with
  | nil =>
    unfold makeFields at h
    cases h
    exact ⟨rfl, fun _ _ _ => rfl, fun _ _ => rfl, fun k f v hf => by cases hf⟩
  | cons field fields ih =>
    cases values with
    | nil =>
      unfold makeFields at h
      cases h
      exact ⟨rfl, fun _ _ _ => rfl, fun _ _ => rfl, fun k f v _ hv => by cases hv⟩
    | cons value values =>
      rw [List.length_cons] at hroom
      rw [makeFields] at h
      obtain ⟨real, hreal, h⟩ := bind_eq_ok h
      obtain ⟨mid, hset, h⟩ := bind_eq_ok h
      obtain ⟨bytes, hbytes, hmid⟩ := bind_eq_ok hset
      obtain ⟨-, -, hle, -⟩ := copiedBytes_spec hbytes
      have hin := hcolumns.inside field List.mem_cons_self
      have hid := hcolumns.ids 0 field rfl
      have hidn : field.fieldId.toNatClampNeg = i := by
        unfold Int32.toNatClampNeg
        omega
      obtain ⟨hlen, hstored, hother⟩ := store_spec hmid (by omega) (by omega) (by omega)
      rw [hidn] at hother
      obtain ⟨hlen', hfields, hflags, hall⟩ := ih hcolumns.tail (by omega) h
      have hfirst := (List.pairwise_cons.mp hcolumns.apart).1
      refine ⟨hlen'.trans hlen, ?_, ?_, ?_⟩
      · intro p hp hnone
        rw [hfields p hp fun f hf => hnone f (List.mem_cons_of_mem _ hf)]
        have hnot := hnone field List.mem_cons_self
        exact hother p (by omega) (by omega)
      · intro p hp
        rw [hflags p (by omega)]
        exact hother p (by omega) (by omega)
      · intro k f v hf hv
        cases k with
        | zero =>
          cases hf
          cases hv
          refine ⟨real, bytes, hreal, hbytes, hstored.congr hlen' ?_ (by omega) ?_⟩
          · exact hflags _ (by omega)
          · intro p hp
            refine hfields _ (by omega) fun f hf => ?_
            have hbehind := hfirst f hf
            omega
        | succ k =>
          obtain ⟨real', bytes', hreal', hbytes', hstored'⟩ := hall k f v hf hv
          rw [Nat.add_assoc, Nat.add_comm 1] at hreal' hbytes'
          exact ⟨real', bytes', hreal', hbytes', hstored'⟩

/-- A field that has been written begins inside the record. -/
theorem makeFields_begins (h : makeFields env i fields values record = .ok record') :
    ∀ f v, ∀ k : Nat, fields[k]? = some f → values[k]? = some v → 0 < f.attrLen.toNatClampNeg →
      f.attrOffset.toNatClampNeg < record.length := by
  induction fields generalizing i values record with
  | nil => exact fun f v k hf => by cases hf
  | cons field fields ih =>
    cases values with
    | nil => exact fun f v k _ hv => by cases hv
    | cons value values =>
      rw [makeFields] at h
      obtain ⟨real, -, h⟩ := bind_eq_ok h
      obtain ⟨mid, hset, h⟩ := bind_eq_ok h
      obtain ⟨bytes, hbytes, hmid⟩ := bind_eq_ok hset
      unfold store at hmid
      split at hmid
      case h_2 => cases hmid
      case h_1 r hr =>
        cases hmid
        have hlen := length_memcpy_setNullFlag hr
        intro f v k hf hv hpos
        cases k with
        | zero =>
          cases hf
          have hcopied := copiedBytes_pos hbytes hpos
          obtain ⟨first, hfirst, -⟩ := Option.bind_eq_some_iff.mp hr
          unfold memcpy at hfirst
          split at hfirst
          · omega
          · cases hfirst
        | succ k => exact hlen ▸ ih h f v k hf hv hpos

/-! ## Conversion -/

theorem castTo_spec {type : AttrType} {cell : Sql.Value FloatWord}
    (h : value.castTo type = .ok cell) :
    cell.attrType = type ∧ value.isNull = false ∧
      (type = .chars ∨ type = .ints ∨ type = .floats) := by
  cases value with
  | ints v =>
    cases type with
    | chars | ints | floats =>
      cases h
      exact ⟨rfl, rfl, by decide⟩
    | _ => cases h
  | floats v =>
    cases type with
    | chars | ints | floats =>
      cases h
      exact ⟨rfl, rfl, by decide⟩
    | _ => cases h
  | chars pointer =>
    cases type with
    | floats =>
      cases h
      exact ⟨rfl, rfl, by decide⟩
    | ints =>
      obtain ⟨n, -, rfl⟩ := map_eq_ok h
      exact ⟨rfl, rfl, by decide⟩
    | _ => cases h
  | _ => cases h

/-- What is handed over is the value converted, with a page number in the place of a page. -/
theorem realValue_spec (htype : field.attrType.OfColumn)
    (h : realValue env i field value = .ok real) :
    (value.isNull = true ∧ real.isNull = true ∧ field.canBeNull = true) ∨
      value.isNull = false ∧ real.isNull = false ∧ ∃ cell, converted env i field value = .ok cell ∧
        cell.attrType = field.attrType ∧ cell.data = real.data ∧
        (real.attrType = .chars ↔ field.attrType = .chars) ∧
        (field.attrType = .vectors → field.attrLen.toInt = cell.length) := by
  unfold realValue at h
  by_cases hne : field.attrType = value.attrType
  · have hnotNull := isNull_of_ofColumn (hne ▸ htype)
    rw [if_neg (not_not.mpr hne)] at h
    split at h
    case isTrue => cases h
    case isFalse hlen =>
      cases h
      refine Or.inr ⟨hnotNull, hnotNull, real, if_pos hne, hne.symm, rfl, by rw [hne], ?_⟩
      intro hv
      by_contra hdiff
      exact hlen ⟨hv, hdiff⟩
  · rw [if_pos hne] at h
    by_cases hnull : value.isNull = true ∧ field.canBeNull = true
    · rw [if_pos hnull] at h
      cases h
      exact Or.inl ⟨hnull.1, hnull.1, hnull.2⟩
    · rw [if_neg hnull] at h
      right
      unfold converted
      rw [if_neg hne]
      by_cases htexts : field.attrType = .texts
      · rw [if_pos htexts] at h
        split at h
        case h_1 pointer =>
          split at h
          case isTrue => cases h
          case isFalse =>
            obtain ⟨page, hpage, rfl⟩ := map_eq_ok h
            rw [htexts]
            refine ⟨rfl, rfl, .texts page, ?_, rfl, rfl, iff_of_false (by rintro ⟨⟩) (by rintro ⟨⟩),
              fun hv => by cases hv⟩
            simp only [hpage, Except.map]
        case h_2 => cases h
      · rw [if_neg htexts] at h
        by_cases hvectors : field.attrType = .highVectors
        · rw [if_pos hvectors] at h
          split at h
          case h_1 elems =>
            split at h
            case isTrue => cases h
            case isFalse =>
              split at h
              case isTrue => cases h
              case isFalse =>
                obtain ⟨page, hpage, rfl⟩ := map_eq_ok h
                rw [hvectors]
                refine ⟨rfl, rfl, .highVectors page, ?_, rfl, rfl,
                  iff_of_false (by rintro ⟨⟩) (by rintro ⟨⟩), fun hv => by cases hv⟩
                simp only [hpage, Except.map]
          case h_2 => cases h
        · rw [if_neg hvectors] at h
          obtain ⟨hcell, hvalue, hkind⟩ := castTo_spec h
          refine ⟨hvalue, ?_, real, ?_, hcell, rfl, by rw [hcell], ?_⟩
          · unfold Sql.Value.isNull
            rw [hcell]
            rcases hkind with hkind | hkind | hkind <;> rw [hkind] <;> rfl
          · split
            · next _ heq => exact absurd heq htexts
            · next _ heq => exact absurd heq hvectors
            · exact h
          · intro hv
            rw [hv] at hkind
            simp at hkind

end

/-! ## Reading a cell -/

theorem take_of_agrees {own : List UInt8} (h : own.length ≤ bytes.length)
    (heq : ∀ p < bytes.length, p < own.length → bytes[p]? = own[p]?) :
    bytes.take own.length = own := by
  apply List.ext_getElem?
  intro p
  rcases Nat.lt_or_ge p own.length with hlt | hge
  · rw [List.getElem?_take_of_lt hlt, heq p (by omega) hlt]
  · rw [List.getElem?_eq_none (by rw [List.length_take]; omega), List.getElem?_eq_none hge]

/-- A number is read back if all of its bytes have been copied. -/
theorem readBytes_word {cell : Sql.Value FloatWord} {word : Int32}
    (hcopied : copiedBytes behind real field = .ok bytes)
    (hstored : Stored field bytes isNull record)
    (hin : field.attrOffset.toNatClampNeg + field.attrLen.toNatClampNeg ≤ record.length)
    (hdata : cell.data = real.data) (hword : cell.data = some (int32Bytes word))
    (hchars : real.attrType ≠ .chars) (hwide : 4 ≤ field.attrLen.toNatClampNeg) :
    readBytes record field.attrOffset.toNatClampNeg 4 = .ok (int32Bytes word) := by
  obtain ⟨own, hown, -, heq, hlen⟩ := copiedBytes_spec hcopied
  rw [if_neg hchars] at hlen
  obtain rfl : own = int32Bytes word := Option.some.inj (hown.symm.trans (hdata.symm.trans hword))
  have htake := take_of_agrees (by rw [length_int32Bytes]; omega) heq
  rw [length_int32Bytes] at htake
  rw [readBytes_of_stored hstored (by omega) (by omega), htake]

/-- A string ends at its zero, or at the end of its field. -/
theorem readBytes_string {s : List UInt8} (hcopied : copiedBytes behind real field = .ok bytes)
    (hstored : Stored field bytes isNull record)
    (hin : field.attrOffset.toNatClampNeg + field.attrLen.toNatClampNeg ≤ record.length)
    (hdata : real.data = some (s ++ [0])) (hchars : real.attrType = .chars) :
    ∃ read, readBytes record field.attrOffset.toNatClampNeg field.attrLen.toNatClampNeg =
      .ok read ∧ read.takeWhile (· ≠ 0) = s.takeWhile (· ≠ 0) := by
  obtain ⟨own, hown, hle, heq, hlen⟩ := copiedBytes_spec hcopied
  rw [if_pos hchars] at hlen
  obtain rfl : own = s ++ [0] := Option.some.inj (hown.symm.trans hdata)
  have hfits : s.length ≤ field.attrLen.toNatClampNeg := by
    have hcopy := hcopied
    unfold copiedBytes at hcopy
    dsimp only at hcopy
    rw [if_pos hchars] at hcopy
    cases real with
    | chars pointer =>
      obtain ⟨s', hs', heq'⟩ := Option.map_eq_some_iff.mp hdata
      obtain rfl := (List.append_inj' heq' rfl).1
      subst hs'
      by_contra hlong
      rw [if_pos (by rw [Sql.Value.length, Option.getD_some]; omega)] at hcopy
      cases hcopy
    | _ => cases hchars
  rw [List.length_append, List.length_singleton] at hlen
  refine ⟨_, if_pos hin, ?_⟩
  -- the field begins with what has been copied
  have hfront : ((record.drop field.attrOffset.toNatClampNeg).take
      field.attrLen.toNatClampNeg).take bytes.length = bytes := by
    apply List.ext_getElem?
    intro p
    rcases Nat.lt_or_ge p bytes.length with hlt | hge
    · rw [List.getElem?_take_of_lt hlt, List.getElem?_take_of_lt (by omega), List.getElem?_drop,
        hstored.bytes p hlt]
    · rw [List.getElem?_eq_none hge, List.getElem?_eq_none]
      rw [List.length_take]
      omega
  have hlength : ((record.drop field.attrOffset.toNatClampNeg).take
      field.attrLen.toNatClampNeg).length = field.attrLen.toNatClampNeg := by
    rw [List.length_take, List.length_drop]
    omega
  generalize (record.drop field.attrOffset.toNatClampNeg).take field.attrLen.toNatClampNeg = read
    at hfront hlength
  rcases Nat.lt_or_ge s.length field.attrLen.toNatClampNeg with hshort | hfull
  · have hbytes : bytes = s ++ [0] := by
      have htake := take_of_agrees (by rw [List.length_append, List.length_singleton]; omega) heq
      rwa [List.length_append, List.length_singleton, List.take_of_length_le (by omega)] at htake
    rw [← List.take_append_drop bytes.length read, hfront, hbytes, List.append_assoc,
      List.singleton_append, takeWhile_terminated]
  · have hwhole : read = s := by
      rw [List.take_of_length_le (by omega)] at hfront
      rw [hfront]
      apply List.ext_getElem?
      intro p
      rcases Nat.lt_or_ge p s.length with hlt | hge
      · rw [heq p (by omega) (by rw [List.length_append]; omega), List.getElem?_append_left hlt]
      · rw [List.getElem?_eq_none (by omega), List.getElem?_eq_none hge]
    rw [hwhole]

theorem setData_of_stored {cell : Sql.Value FloatWord} (htype : field.attrType.OfColumn)
    (hcopied : copiedBytes behind real field = .ok bytes)
    (hstored : Stored field bytes isNull record)
    (hin : field.attrOffset.toNatClampNeg + field.attrLen.toNatClampNeg ≤ record.length)
    (hcell : cell.attrType = field.attrType) (hdata : cell.data = real.data)
    (hchars : real.attrType = .chars ↔ field.attrType = .chars)
    (hvector : field.attrType = .vectors → field.attrLen.toInt = cell.length)
    (hwide : field.attrType.IsWord ∨ field.attrType = .highVectors →
      4 ≤ field.attrLen.toNatClampNeg) :
    Sql.Value.setData field.attrType record field.attrOffset.toNatClampNeg
        field.attrLen.toNatClampNeg =
      .ok cell.asCString := by
  rw [← hcell] at hchars hvector hwide ⊢
  have hword {word : Int32} (hdata' : cell.data = some (int32Bytes word))
      (hnot : cell.attrType ≠ .chars)
      (hkind : cell.attrType.IsWord ∨ cell.attrType = .highVectors) :
      readBytes record field.attrOffset.toNatClampNeg 4 = .ok (int32Bytes word) :=
    readBytes_word hcopied hstored hin hdata hdata' (fun h => hnot (hchars.mp h)) (hwide hkind)
  cases cell with
  | ints v | dates v | texts v | highVectors v =>
    have hread := hword rfl (by rintro ⟨⟩) (by simp only [Sql.Value.attrType]; decide)
    simp only [Sql.Value.attrType, Sql.Value.setData, hread, Except.map, bytesInt32_int32Bytes,
      Sql.Value.asCString]
  | floats x =>
    have hread := hword rfl (by rintro ⟨⟩) (by simp only [Sql.Value.attrType]; decide)
    simp only [Sql.Value.attrType, Sql.Value.setData, hread, Except.map, bytesInt32_int32Bytes,
      Sql.Value.asCString]
  | chars pointer =>
    obtain ⟨own, hown, -⟩ := copiedBytes_spec hcopied
    obtain ⟨s, rfl, -⟩ := Option.map_eq_some_iff.mp (hdata.trans hown)
    obtain ⟨read, hread, htake⟩ :=
      readBytes_string hcopied hstored hin hdata.symm (hchars.mpr rfl)
    simp only [Sql.Value.attrType, Sql.Value.setData, hread, Except.map, Sql.Value.asCString,
      Option.getD_some, htake]
  | vectors elems =>
    have hlen : field.attrLen.toNatClampNeg = 4 * elems.length := by
      have hlength := hvector rfl
      rw [Sql.Value.length] at hlength
      unfold Int32.toNatClampNeg
      omega
    obtain ⟨own, hown, -, heq, hcopy⟩ := copiedBytes_spec hcopied
    rw [if_neg (fun h => by cases hchars.mp h)] at hcopy
    obtain rfl : own = Sql.Value.vectorBytes elems := Option.some.inj (hown.symm.trans hdata.symm)
    have hread : readBytes record field.attrOffset.toNatClampNeg field.attrLen.toNatClampNeg =
        .ok (Sql.Value.vectorBytes elems) := by
      have htake := take_of_agrees (by rw [Sql.Value.length_vectorBytes]; omega) heq
      rw [Sql.Value.length_vectorBytes] at htake
      rw [readBytes_of_stored hstored (by omega) hin, hlen, htake]
    simp only [Sql.Value.attrType, Sql.Value.setData, hread, Except.map,
      vectorElems_vectorBytes, Sql.Value.asCString]
  | _ =>
    rw [← hcell] at htype
    simp only [Sql.Value.attrType] at htype
    exact absurd htype (by decide)

end ObHtap
