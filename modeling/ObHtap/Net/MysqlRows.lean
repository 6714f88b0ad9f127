import Mathlib.Algebra.Order.BigOperators.Group.List
import Mathlib.Algebra.Order.Ring.Nat
import Mathlib.Data.List.TakeWhile
import ObHtap.Library.LittleEndian
import ObHtap.Library.Reads
import ObHtap.Net.PlainCommunicator

/-!
# Rows of the MySQL protocol

`store_lenenc_int` and `store_lenenc_string` (`mysql_communicator.cpp`), the packet that
`write_tuple_result` makes of a row, and how a client of the protocol reads them.
-/

namespace ObHtap

/-! ## What the server stores -/

/-- `store_lenenc_int`. -/
def storeLenencInt (value : UInt64) : List UInt8 :=
  if value < 251 then [value.toUInt8]
  else if value < (2 : UInt64) <<< 16 then 0xFC :: leBytes 2 value.toNat
  else if value < (2 : UInt64) <<< 24 then 0xFD :: leBytes 3 value.toNat
  else 0xFE :: leBytes 8 value.toNat

/-- The length of a terminated string as an `int`. -/
def lenencLength (s : List UInt8) : Int32 :=
  Int32.ofNat (s.takeWhile (· ≠ 0)).length

/-- `store_lenenc_string`; `memcpy` cannot copy a negative number of bytes. -/
def storeLenencString (s : List UInt8) : Option (List UInt8) :=
  let len := lenencLength s
  if len < 0 then none
  else some (storeLenencInt (UInt64.ofNat len.toInt.toNat) ++
    (s.takeWhile (· ≠ 0)).take len.toInt.toNat)

/-- The text of a cell, which for NULL is that of `NullType::to_string`. -/
def cellText : Option (List UInt8) → List UInt8
  | some s => s
  | none => asciiBytes "null"

/-- The size of the buffer of `send_result_rows`. -/
def packetSize : Nat := 4 * 1024 * 1024

/-- The packet of a row, if there is room for it in the buffer. -/
def rowPacket (sequenceId : UInt8) (cells : List (Option (List UInt8))) : Option (List UInt8) := do
  let stored ← cells.mapM fun cell => storeLenencString (cellText cell)
  if packetSize < 4 + stored.flatten.length then none
  else some (leBytes 3 stored.flatten.length ++ sequenceId :: stored.flatten)

/-! ## What a client reads -/

def readFixedInt (n : Nat) : ListReader UInt8 Unit Nat := do
  pure (leNat (← takeFront n ()))

/-- A length-encoded integer of the protocol. -/
def readLenencInt : ListReader UInt8 Unit Nat
  | [] => .error ()
  | b :: bytes =>
    if b < 251 then .ok (b.toNat, bytes)
    else if b = 0xFC then readFixedInt 2 bytes
    else if b = 0xFD then readFixedInt 3 bytes
    else if b = 0xFE then readFixedInt 8 bytes
    else .error ()

/-- A cell of a row: a length-encoded string, or NULL. -/
def readCell : ListReader UInt8 Unit (Option (List UInt8))
  | 0xFB :: bytes => .ok (none, bytes)
  | bytes => (do
    let len ← readLenencInt
    let s ← takeFront len ()
    pure (some s) : ListReader UInt8 Unit (Option (List UInt8))) bytes

/-- The cells of a row packet, up to the end of its payload. -/
def splitRow (packet : List UInt8) : Except Unit (List (Option (List UInt8))) := do
  let (payloadLength, bytes) ← readFixedInt 3 packet
  let (_, bytes) ← takeFront 1 () bytes
  let (payload, _) ← takeFront payloadLength () bytes
  let (cells, _) ← readMany readCell () payload.length payload
  pure cells

/-! ## Integers -/

/-- A value that the bytes stored for it have room for. -/
def LenencFits (value : Nat) : Prop :=
  value < 2 ^ 16 ∨ 2 ^ 17 ≤ value ∧ value < 2 ^ 24 ∨ 2 ^ 25 ≤ value

instance (value : Nat) : Decidable (LenencFits value) :=
  inferInstanceAs (Decidable (_ ∨ _ ∧ _ ∨ _))

/-- What is left of a value. -/
def lenencValue (value : Nat) : Nat :=
  if value < 251 then value
  else if value < 2 ^ 17 then value % 2 ^ 16
  else if value < 2 ^ 25 then value % 2 ^ 24
  else value

theorem lenencValue_le (value : Nat) : lenencValue value ≤ value := by
  unfold lenencValue
  split_ifs <;> omega

theorem lenencValue_eq_iff (value : Nat) : lenencValue value = value ↔ LenencFits value := by
  unfold lenencValue LenencFits
  split_ifs <;> omega

theorem reads_readFixedInt (n value : Nat) :
    Reads (readFixedInt n) (value % 256 ^ n) (leBytes n value) := by
  rw [← leNat_leBytes]
  exact (reads_takeFront (length_leBytes n value) ()).map leNat

/-- A marker and what stands behind it. -/
theorem reads_of_marker {b : UInt8} {n value : Nat} {bytes : List UInt8}
    (hmarker : ∀ bytes, readLenencInt (b :: bytes) = readFixedInt n bytes)
    (h : Reads (readFixedInt n) value bytes) : Reads readLenencInt value (b :: bytes) := by
  intro rest
  rw [List.cons_append, hmarker]
  exact h rest

theorem reads_storeLenencInt (value : UInt64) :
    Reads readLenencInt (lenencValue value.toNat) (storeLenencInt value) := by
  have hlt := value.toNat_lt
  have h251 : value < 251 ↔ value.toNat < 251 := UInt64.lt_iff_toNat_lt
  have h17 : value < (2 : UInt64) <<< 16 ↔ value.toNat < 2 ^ 17 := UInt64.lt_iff_toNat_lt
  have h25 : value < (2 : UInt64) <<< 24 ↔ value.toNat < 2 ^ 25 := UInt64.lt_iff_toNat_lt
  unfold storeLenencInt lenencValue
  simp only [h251, h17, h25]
  split_ifs with hbyte hword hthree
  · intro rest
    have hlow : value.toUInt8.toNat = value.toNat := by
      rw [UInt64.toNat_toUInt8]
      omega
    have hsmall : value.toUInt8 < 251 := by
      rw [UInt8.lt_iff_toNat_lt, hlow]
      exact hbyte
    rw [List.singleton_append, readLenencInt, if_pos hsmall, hlow]
  · exact reads_of_marker (fun _ => rfl) (reads_readFixedInt 2 value.toNat)
  · exact reads_of_marker (fun _ => rfl) (reads_readFixedInt 3 value.toNat)
  · have hmod : value.toNat % 256 ^ 8 = value.toNat := Nat.mod_eq_of_lt (by omega)
    have h8 := reads_readFixedInt 8 value.toNat
    rw [hmod] at h8
    exact reads_of_marker (fun _ => rfl) h8

theorem reads_storeLenencInt_iff (value : UInt64) :
    Reads readLenencInt value.toNat (storeLenencInt value) ↔ LenencFits value.toNat := by
  rw [← lenencValue_eq_iff]
  constructor
  · exact fun h => (reads_storeLenencInt value).unique h
  · intro h
    have hreads := reads_storeLenencInt value
    rwa [h] at hreads

/-! ## Strings -/

variable {s : List UInt8}

theorem lenencLength_le (s : List UInt8) :
    (lenencLength s).toInt.toNat ≤ (s.takeWhile (· ≠ 0)).length := by
  rw [lenencLength, Int32.toInt_ofNat']
  generalize (s.takeWhile (· ≠ 0)).length = n
  have hmod := Int.bmod_eq_emod (n : Int) Int32.size
  unfold Int32.size at hmod ⊢
  split at hmod <;> omega

theorem lenencLength_lt (s : List UInt8) : (lenencLength s).toInt.toNat < 2 ^ 31 := by
  have hlt := (lenencLength s).toInt_lt
  omega

/-- A stored string: its length and as many bytes. -/
theorem storeLenencString_eq_some {bytes : List UInt8} :
    storeLenencString s = some bytes ↔ 0 ≤ lenencLength s ∧ ∃ stored : List UInt8,
      stored = (s.takeWhile (· ≠ 0)).take (lenencLength s).toInt.toNat ∧
        stored.length = (lenencLength s).toInt.toNat ∧
        bytes = storeLenencInt (UInt64.ofNat stored.length) ++ stored := by
  have hlength : ((s.takeWhile (· ≠ 0)).take (lenencLength s).toInt.toNat).length =
      (lenencLength s).toInt.toNat := by
    rw [List.length_take, Nat.min_eq_left (lenencLength_le s)]
  unfold storeLenencString
  change (if lenencLength s < 0 then _ else _) = _ ↔ _
  split_ifs with hneg
  · exact iff_of_false nofun fun h => absurd hneg (Int32.not_lt.mpr h.1)
  · rw [Option.some.injEq, and_iff_right (Int32.not_lt.mp hneg)]
    constructor
    · rintro rfl
      refine ⟨_, rfl, hlength, ?_⟩
      rw [hlength]
    · rintro ⟨stored, rfl, -, rfl⟩
      rw [hlength]

theorem reads_length {stored : List UInt8} (h : stored.length < 2 ^ 31) :
    Reads readLenencInt (lenencValue stored.length)
      (storeLenencInt (UInt64.ofNat stored.length)) := by
  have hreads := reads_storeLenencInt (UInt64.ofNat stored.length)
  rwa [UInt64.toNat_ofNat_of_lt' (by rw [UInt64.size]; omega)] at hreads

/-- The length that is stored for a string is that of the bytes behind it. -/
def TellsLength (s : List UInt8) : Prop :=
  ∃ bytes n follow, storeLenencString s = some bytes ∧ readLenencInt bytes = .ok (n, follow) ∧
    n = follow.length

theorem tellsLength_iff (s : List UInt8) :
    TellsLength s ↔ 0 ≤ lenencLength s ∧ LenencFits (lenencLength s).toInt.toNat := by
  have hlt := lenencLength_lt s
  constructor
  · rintro ⟨bytes, n, follow, hstore, hread, rfl⟩
    obtain ⟨hpos, stored, -, hlength, rfl⟩ := storeLenencString_eq_some.mp hstore
    have hown := reads_length (hlength ▸ hlt) stored
    obtain ⟨heq, rfl⟩ := Prod.mk.inj (Except.ok.inj (hread.symm.trans hown))
    rw [← hlength]
    exact ⟨hpos, (lenencValue_eq_iff _).mp heq.symm⟩
  · rintro ⟨hpos, hfits⟩
    have hlength : ((s.takeWhile (· ≠ 0)).take (lenencLength s).toInt.toNat).length =
        (lenencLength s).toInt.toNat := by
      rw [List.length_take, Nat.min_eq_left (lenencLength_le s)]
    refine ⟨_, _, _, storeLenencString_eq_some.mpr ⟨hpos, _, rfl, hlength, rfl⟩,
      reads_length (by rwa [hlength]) _, ?_⟩
    rw [hlength]
    exact (lenencValue_eq_iff _).mpr hfits

/-! ## Cells -/

variable {cell : Option (List UInt8)} {bytes : List UInt8}

/-- No length begins like NULL. -/
theorem storeLenencInt_cons (value : UInt64) :
    ∃ b bytes, storeLenencInt value = b :: bytes ∧ b ≠ 0xFB := by
  unfold storeLenencInt
  split_ifs with hbyte
  · refine ⟨_, _, rfl, fun heq => ?_⟩
    have hlow := congrArg UInt8.toNat heq
    rw [UInt64.toNat_toUInt8] at hlow
    have hlt := UInt64.lt_iff_toNat_lt.mp hbyte
    change value.toNat < 251 at hlt
    change value.toNat % 256 = 251 at hlow
    omega
  · exact ⟨_, _, rfl, by decide⟩
  · exact ⟨_, _, rfl, by decide⟩
  · exact ⟨_, _, rfl, by decide⟩

/-- A string is read as far as its length has been stored. -/
theorem readCell_stored {stored : List UInt8} (h : stored.length < 2 ^ 31) (after : List UInt8) :
    readCell (storeLenencInt (UInt64.ofNat stored.length) ++ stored ++ after) =
      .ok (some (stored.take (lenencValue stored.length)),
        stored.drop (lenencValue stored.length) ++ after) := by
  obtain ⟨b, bytes, hcons, hb⟩ := storeLenencInt_cons (UInt64.ofNat stored.length)
  have hread := reads_length h (stored ++ after)
  have hle := lenencValue_le stored.length
  rw [List.append_assoc]
  rw [hcons] at hread ⊢
  have hcell : readCell (b :: bytes ++ (stored ++ after)) = (do
      let len ← readLenencInt
      let s ← takeFront len ()
      pure (some s) : ListReader UInt8 Unit (Option (List UInt8)))
        (b :: bytes ++ (stored ++ after)) := by
    rw [List.cons_append, readCell]
    exact fun _ heq => hb (List.cons.inj heq).1
  rw [hcell]
  change Except.bind (readLenencInt (b :: bytes ++ (stored ++ after))) _ = _
  rw [hread]
  change Except.bind (takeFront (lenencValue stored.length) () (stored ++ after)) _ = _
  rw [takeFront, if_neg (by rw [List.length_append]; omega), List.take_append_of_le_length hle,
    List.drop_append_of_le_length hle]
  rfl

/-- A cell that a client reads as it is: not NULL, without a zero byte and of a length that is
stored. -/
def CellFits : Option (List UInt8) → Prop
  | some s => 0 ∉ s ∧ LenencFits s.length
  | none => False

theorem takeWhile_eq_self (h : 0 ∉ s) : s.takeWhile (· ≠ 0) = s := by
  rw [List.takeWhile_eq_self_iff]
  intro b hb
  exact decide_eq_true fun heq => h (heq ▸ hb)

theorem cellFits_of_readCell {after after' : List UInt8}
    (hstore : storeLenencString (cellText cell) = some bytes)
    (hread : readCell (bytes ++ after) = .ok (cell, after')) : CellFits cell ∧
      bytes = storeLenencInt (UInt64.ofNat (cellText cell).length) ++ cellText cell ∧
        (cellText cell).length < 2 ^ 31 := by
  have hlt := lenencLength_lt (cellText cell)
  obtain ⟨-, stored, hstored, hlength, rfl⟩ := storeLenencString_eq_some.mp hstore
  rw [readCell_stored (hlength ▸ hlt)] at hread
  obtain ⟨hcell, -⟩ := Prod.mk.inj (Except.ok.inj hread)
  obtain ⟨s, rfl⟩ : ∃ s, cell = some s := ⟨_, hcell.symm⟩
  rw [cellText] at hstored hlength hlt ⊢
  have htake := Option.some.inj hcell
  -- what is read is no longer than what is stored, and that no longer than the string
  have hvalue := lenencValue_le stored.length
  have hfront := (List.takeWhile_sublist (l := s) fun b => b ≠ 0).length_le
  have hle : stored.length ≤ (s.takeWhile (· ≠ 0)).length := by
    rw [hstored]
    exact List.length_take_le' _ _
  have hread := congrArg List.length htake
  rw [List.length_take] at hread
  have hfull : s.takeWhile (· ≠ 0) = s :=
    (List.takeWhile_sublist _).eq_of_length_le (by omega)
  have hall : stored.take (lenencValue stored.length) = stored :=
    List.take_of_length_le (by omega)
  obtain rfl : stored = s := hall.symm.trans htake
  refine ⟨⟨fun hmem => ?_, (lenencValue_eq_iff _).mp (by omega)⟩, rfl, hlength ▸ hlt⟩
  have hne := List.takeWhile_eq_self_iff.mp hfull 0 hmem
  exact absurd rfl (of_decide_eq_true hne)

theorem readCell_of_fits (hzero : 0 ∉ s) (hfits : LenencFits s.length) (hlt : s.length < 2 ^ 31) :
    storeLenencString s = some (storeLenencInt (UInt64.ofNat s.length) ++ s) ∧
      Reads readCell (some s) (storeLenencInt (UInt64.ofNat s.length) ++ s) := by
  have hlength : (lenencLength s).toInt = s.length := by
    rw [lenencLength, takeWhile_eq_self hzero, Int32.toInt_ofNat_of_lt hlt]
  have hnat : (lenencLength s).toInt.toNat = s.length := by
    rw [hlength]
    rfl
  constructor
  · refine storeLenencString_eq_some.mpr ⟨?_, s, ?_, hnat.symm, rfl⟩
    · rw [Int32.le_iff_toInt_le, hlength]
      exact Int.natCast_nonneg _
    · rw [takeWhile_eq_self hzero, hnat, List.take_length]
  · intro after
    rw [readCell_stored hlt, (lenencValue_eq_iff _).mpr hfits, List.take_length, List.drop_length]
    rfl

/-! ## Rows -/

/-- The bytes that a cell takes, with its length. -/
def cellSize (cell : Option (List UInt8)) : Nat :=
  (storeLenencInt (UInt64.ofNat (cellText cell).length)).length + (cellText cell).length

/-- The size of a packet with all bytes of the cells. -/
def rowSize (cells : List (Option (List UInt8))) : Nat :=
  4 + (cells.map cellSize).sum

/-- A row that a client reads as it is. -/
def RowFits (cells : List (Option (List UInt8))) : Prop :=
  (∀ cell ∈ cells, CellFits cell) ∧ rowSize cells ≤ packetSize

/-- A client reads the cells of the row off its packet. -/
def SplitsBack (sequenceId : UInt8) (cells : List (Option (List UInt8))) : Prop :=
  ∃ packet, rowPacket sequenceId cells = some packet ∧ splitRow packet = .ok cells

theorem mapM_eq_some_map {α β : Type} {f : α → Option β} {g : α → β} {l : List α}
    (h : ∀ a ∈ l, f a = some (g a)) : l.mapM f = some (l.map g) := by
  induction l with
  | nil => rfl
  | cons a l ih =>
    obtain ⟨ha, hl⟩ := List.forall_mem_cons.mp h
    rw [List.mapM_cons, ha, ih hl]
    rfl

theorem exists_of_mapM {α β : Type} {f : α → Option β} {l : List α} {l' : List β}
    (h : l.mapM f = some l') :
    (∀ a ∈ l, ∃ b, f a = some b) ∧ ∀ g : α → β, (∀ a ∈ l, f a = some (g a)) → l' = l.map g := by
  induction l generalizing l' with
  | nil =>
    cases h
    exact ⟨nofun, fun _ _ => rfl⟩
  | cons a l ih =>
    rw [List.mapM_cons] at h
    obtain ⟨b, hb, h⟩ := Option.bind_eq_some_iff.mp h
    obtain ⟨bs, hbs, heq⟩ := Option.bind_eq_some_iff.mp h
    cases heq
    obtain ⟨hall, hmap⟩ := ih hbs
    refine ⟨List.forall_mem_cons.mpr ⟨⟨b, hb⟩, hall⟩, fun g hg => ?_⟩
    obtain ⟨hfirst, hrest⟩ := List.forall_mem_cons.mp hg
    rw [List.map_cons, hmap g hrest, Option.some.inj (hb.symm.trans hfirst)]

/-- The bytes of a cell. -/
def cellBytes (cell : Option (List UInt8)) : List UInt8 :=
  (storeLenencString (cellText cell)).getD []

theorem splitRow_packet {sequenceId : UInt8} {payload : List UInt8}
    (h : payload.length < 2 ^ 24) :
    splitRow (leBytes 3 payload.length ++ sequenceId :: payload) =
      (readMany readCell () payload.length payload).map Prod.fst := by
  have hmod : payload.length % 256 ^ 3 = payload.length := Nat.mod_eq_of_lt (by omega)
  have hlength := reads_readFixedInt 3 payload.length (sequenceId :: payload)
  rw [hmod] at hlength
  have hfront : Reads (takeFront payload.length ()) payload payload := reads_takeFront rfl ()
  unfold splitRow
  rw [hlength]
  change Except.bind (takeFront payload.length () payload) _ = _
  rw [hfront.to_end]
  rfl

theorem cellBytes_ne_nil (h : storeLenencString (cellText cell) = some bytes) :
    cellBytes cell ≠ [] := by
  rw [cellBytes, h]
  obtain ⟨-, stored, -, -, rfl⟩ := storeLenencString_eq_some.mp h
  obtain ⟨b, bytes', hcons, -⟩ := storeLenencInt_cons (UInt64.ofNat stored.length)
  rw [hcons]
  exact List.cons_ne_nil _ _

theorem reads_cellBytes (hfits : CellFits cell) (hlt : (cellText cell).length < 2 ^ 31) :
    storeLenencString (cellText cell) = some (cellBytes cell) ∧
      (cellBytes cell).length = cellSize cell ∧ Reads readCell cell (cellBytes cell) := by
  cases cell with
  | none => exact hfits.elim
  | some s =>
    obtain ⟨hstore, hreads⟩ := readCell_of_fits hfits.1 hfits.2 hlt
    have hbytes : cellBytes (some s) = storeLenencInt (UInt64.ofNat s.length) ++ s := by
      rw [cellBytes, cellText, hstore]
      rfl
    rw [hbytes, List.length_append]
    exact ⟨hstore, rfl, hreads⟩

theorem cellFits_of_read {after after' : List UInt8}
    (hstore : storeLenencString (cellText cell) = some bytes)
    (hread : readCell (cellBytes cell ++ after) = .ok (cell, after')) :
    CellFits cell ∧ (cellText cell).length < 2 ^ 31 := by
  have hbytes : cellBytes cell = bytes := by
    rw [cellBytes, hstore]
    rfl
  rw [hbytes] at hread
  obtain ⟨hfits, -, hlt⟩ := cellFits_of_readCell hstore hread
  exact ⟨hfits, hlt⟩

theorem rowSize_eq {cells : List (Option (List UInt8))}
    (h : ∀ cell ∈ cells, (cellBytes cell).length = cellSize cell) :
    rowSize cells = 4 + (cells.flatMap cellBytes).length := by
  rw [rowSize, List.length_flatMap, List.map_congr_left h]

theorem length_le_rowSize {cells : List (Option (List UInt8))} (h : cell ∈ cells) :
    (cellText cell).length ≤ rowSize cells := by
  have hle : cellSize cell ≤ (cells.map cellSize).sum :=
    List.le_sum_of_mem (List.mem_map_of_mem h)
  rw [rowSize]
  rw [cellSize] at hle
  omega

theorem splitsBack_iff (sequenceId : UInt8) (cells : List (Option (List UInt8))) :
    SplitsBack sequenceId cells ↔ RowFits cells := by
  constructor
  · rintro ⟨packet, hpacket, hsplit⟩
    obtain ⟨stored, hstored, hpacket⟩ := Option.bind_eq_some_iff.mp hpacket
    obtain ⟨hall, hmap⟩ := exists_of_mapM hstored
    obtain rfl : stored = cells.map cellBytes := hmap cellBytes fun cell hcell => by
      obtain ⟨bytes, hbytes⟩ := hall cell hcell
      rw [cellBytes, hbytes]
      rfl
    rw [← List.flatMap_def] at hpacket
    split_ifs at hpacket with hroom
    cases hpacket
    have hsize := Nat.not_lt.mp hroom
    unfold packetSize at hsize
    rw [splitRow_packet (by omega)] at hsplit
    obtain ⟨⟨cells', rest⟩, hread, heq⟩ := map_eq_ok hsplit
    have hread' : readMany readCell () (cells.flatMap cellBytes).length
        (cells.flatMap cellBytes) = .ok (cells.map id, rest) := by
      rw [hread, List.map_id, ← show cells' = cells from heq]
    have hreads := reads_of_readMany (fun cell hcell => (hall cell hcell).elim fun _ hbytes =>
      cellBytes_ne_nil hbytes) (fun cell hcell after after' hone =>
        (hall cell hcell).elim fun _ hbytes =>
          (reads_cellBytes (cellFits_of_read hbytes hone).1
            (cellFits_of_read hbytes hone).2).2.2) hread'
    have hfits (cell) (hcell : cell ∈ cells) : CellFits cell ∧ (cellText cell).length < 2 ^ 31 := by
      obtain ⟨bytes, hbytes⟩ := hall cell hcell
      exact cellFits_of_read hbytes (hreads cell hcell [])
    refine ⟨fun cell hcell => (hfits cell hcell).1, ?_⟩
    rw [rowSize_eq fun cell hcell =>
      (reads_cellBytes (hfits cell hcell).1 (hfits cell hcell).2).2.1]
    exact Nat.not_lt.mp hroom
  · rintro ⟨hfits, hsize⟩
    have hcell (cell) (hcell : cell ∈ cells) := reads_cellBytes (hfits cell hcell) (by
      have hle := length_le_rowSize hcell
      unfold packetSize at hsize
      omega)
    have hpayload : (cells.map cellBytes).flatten = cells.flatMap cellBytes :=
      List.flatMap_def.symm
    have hroom : 4 + (cells.flatMap cellBytes).length ≤ packetSize := by
      rwa [← rowSize_eq fun cell h => (hcell cell h).2.1]
    refine ⟨leBytes 3 (cells.flatMap cellBytes).length ++ sequenceId :: cells.flatMap cellBytes,
      ?_, ?_⟩
    · unfold rowPacket
      rw [mapM_eq_some_map fun cell h => (hcell cell h).1]
      change (if packetSize < 4 + (cells.map cellBytes).flatten.length then none else _) = _
      rw [hpayload, if_neg (Nat.not_lt.mpr hroom)]
    · unfold packetSize at hroom
      have hne (cell) (h : cell ∈ cells) : cellBytes cell ≠ [] := cellBytes_ne_nil (hcell cell h).1
      rw [splitRow_packet (by omega), readMany_flatMap (fun cell h => (hcell cell h).2.2) hne
        (length_le_flatMap hne)]
      exact congrArg Except.ok (List.map_id' cells)

/-- What the server stores is read as it was, up to the lengths for which too few bytes are
stored. -/
theorem storesFaithfully_iff (value : UInt64) (s : List UInt8) (sequenceId : UInt8)
    (cells : List (Option (List UInt8))) :
    (Reads readLenencInt value.toNat (storeLenencInt value) ↔ LenencFits value.toNat) ∧
    (TellsLength s ↔ 0 ≤ lenencLength s ∧ LenencFits (lenencLength s).toInt.toNat) ∧
    (SplitsBack sequenceId cells ↔ RowFits cells) :=
  ⟨reads_storeLenencInt_iff value, tellsLength_iff s, splitsBack_iff sequenceId cells⟩

/-- 65536 is stored in two bytes. -/
theorem not_storesFaithfully :
    ¬ ((∀ value : UInt64, Reads readLenencInt value.toNat (storeLenencInt value)) ∧
      (∀ s : List UInt8, TellsLength s) ∧
      ∀ (sequenceId : UInt8) (cells : List (Option (List UInt8))),
        SplitsBack sequenceId cells) := by
  intro ⟨h, _, _⟩
  have heq := (reads_storeLenencInt 65536).unique (h 65536)
  exact absurd heq (by decide)

end ObHtap
