import ObHtap.Sql.DateValues
import ObHtap.Sql.KeyLaws

/-!
# The hash table of groups

`StandardAggregateHashTable` with its scanner (`aggregate_hash_table.cpp`), and the columns of the
chunk that it is scanned into (`column.cpp`, `chunk.h`).
-/

namespace ObHtap

namespace Sql

namespace AggregateHashTable

/-! ## Keys -/

section

variable {F : Type} [Floats F]

/-- `VectorType::to_string`: every comma stands behind a number, and the last byte becomes the
bracket. -/
def vectorText (elems : List F) : List UInt8 :=
  (91 :: elems.flatMap fun x => Floats.doubleToStr x ++ [44]).dropLast ++ [93]

/-- `Value::to_string`; the texts and vectors behind pages are a parameter. -/
def toText (stored : Value F → List UInt8) : Value F → List UInt8
  | .chars pointer => pointer.getD []
  | .ints v => Value.printInt v
  | .floats x => Floats.doubleToStr x
  | .vectors elems => vectorText elems
  | .dates v => dateText v
  | .nulls => "null".toUTF8.toList
  | .texts page => stored (.texts page)
  | .highVectors page => stored (.highVectors page)
  | .undefined | .booleans _ | .valuesLists _ => []

/-- `VectorHash`, over `std::hash<string>`. -/
def vectorHash (stored : Value F → List UInt8) (hash : List UInt8 → UInt64)
    (vec : List (Value F)) : UInt64 :=
  vec.foldl (fun acc elem => acc ^^^ hash (toText stored elem)) 0

/-- The loop of `VectorEqual`. -/
def equalCells : List (Value F) → List (Value F) → Except Fault Bool
  | left :: lhs, right :: rhs => do
    if (← right.compare left) ≠ 0 then .ok false else equalCells lhs rhs
  | _, _ => .ok true

/-- `VectorEqual`. -/
def vectorEqual (lhs rhs : List (Value F)) : Except Fault Bool :=
  if lhs.length ≠ rhs.length then .ok false else equalCells lhs rhs

/-- The values of a group, and its aggregates. -/
structure Entry (F : Type) where
  groupByValues : List (Value F)
  aggrs : List (Value F)

end

/-- `aggr_values_` in the order of its iterators.  An `unordered_map` keeps no two keys that are
equal and have the same hash. -/
structure Table (F : Type) [Floats F] (stored : Value F → List UInt8)
    (hash : List UInt8 → UInt64) where
  entries : List (Entry F)
  distinct : entries.Pairwise fun entry entry' =>
    vectorHash stored hash entry.groupByValues = vectorHash stored hash entry'.groupByValues →
      vectorEqual entry.groupByValues entry'.groupByValues ≠ .ok true

/-! ## The scanner -/

/-- A column of the output; it has `count_` cells. -/
structure OutputColumn where
  columnId : Int
  attrLen : Nat
  capacity : Nat
  own : Bool
  cells : List (List UInt8)

/-- `Column::append_one` of the bytes at an address; `memcpy` reads no further than they go. -/
def OutputColumn.appendOne (column : OutputColumn) (data : List UInt8) :
    Except Fault (Option RC × OutputColumn) :=
  if ¬ column.own then .ok (some .internal, column)
  else if column.capacity < column.cells.length + 1 then .ok (some .internal, column)
  else if data.length < column.attrLen then .error .abort
  else .ok (none, { column with cells := column.cells ++ [data.take column.attrLen] })

abbrev OutputChunk :=
  List OutputColumn

/-- `Chunk::rows`. -/
def rows (chunk : OutputChunk) : Nat :=
  chunk.head?.elim 0 fun column => column.cells.length

/-- `Chunk::capacity`. -/
def capacity (chunk : OutputChunk) : Nat :=
  chunk.head?.elim 0 OutputColumn.capacity

/-- `Chunk::reset_data`. -/
def resetData (chunk : OutputChunk) : OutputChunk :=
  chunk.map fun column => { column with cells := [] }

section

variable {F : Type} (data : Value F → List UInt8)

/-- The value of an entry that a column is for. -/
def Entry.valueFor (entry : Entry F) (columnId : Int) : Option (Value F) :=
  if entry.groupByValues.length ≤ columnId then
    entry.aggrs[(columnId - entry.groupByValues.length).toNat]?
  else if columnId < 0 then none
  else entry.groupByValues[columnId.toNat]?

/-- An entry is appended to every column; what `append_one` returns is not looked at. -/
def appendEntry (entry : Entry F) (chunk : OutputChunk) : Except Fault OutputChunk :=
  chunk.mapM fun column =>
    match entry.valueFor column.columnId with
    | none => .error .abort
    | some value => (column.appendOne (data value)).map Prod.snd

/-- The loop of `Scanner::next`. -/
def fillChunk : List (Entry F) → OutputChunk → Except Fault (List (Entry F) × OutputChunk)
  | [], chunk => .ok ([], chunk)
  | entry :: it, chunk =>
    if rows chunk ≤ capacity chunk then do fillChunk it (← appendEntry data entry chunk)
    else .ok (entry :: it, chunk)

/-- `Scanner::next` at an iterator. -/
def next (it : List (Entry F)) (chunk : OutputChunk) :
    Except Fault (Option RC × List (Entry F) × OutputChunk) :=
  match it with
  | [] => .ok (some .recordEof, [], chunk)
  | _ => do
    let (it, chunk) ← fillChunk data it chunk
    .ok (none, it, chunk)

/-- `next` into a chunk that is emptied before each call, until `RECORD_EOF`. -/
def scan : Nat → List (Entry F) → OutputChunk → Except Fault (List OutputChunk)
  | 0, _, _ => .error .outOfFuel
  | fuel + 1, it, chunk => do
    match ← next data it (resetData chunk) with
    | (some _, _, _) => .ok []
    | (none, it, chunk) => do .ok (chunk :: (← scan fuel it chunk))

/-- The rows of a chunk. -/
def rowsOf (chunk : OutputChunk) : List (List (Option (List UInt8))) :=
  (List.range (rows chunk)).map fun row => chunk.map fun column => column.cells[row]?

/-- What a column shows of an entry. -/
def cellOf (entry : Entry F) (column : OutputColumn) : List UInt8 :=
  ((entry.valueFor column.columnId).elim [] data).take column.attrLen

/-- What a chunk shows of an entry. -/
def rowFor (chunk : OutputChunk) (entry : Entry F) : List (Option (List UInt8)) :=
  chunk.map fun column => some (cellOf data entry column)

/-- The chunk is for the entries: its columns have the same capacity, own their bytes, are for
values that the entries have, and are no wider than these. -/
structure Fits (entries : List (Entry F)) (chunk : OutputChunk) : Prop where
  capacity_eq : ∀ column ∈ chunk, column.capacity = capacity chunk
  own : ∀ column ∈ chunk, column.own = true
  value : ∀ column ∈ chunk, ∀ entry ∈ entries, ∃ value,
    entry.valueFor column.columnId = some value ∧ column.attrLen ≤ (data value).length

/-- A scan ends, gives every entry once, and never more rows than a chunk has room for. -/
def EmitsOnce (entries : List (Entry F)) (chunk : OutputChunk) : Prop :=
  ∃ fuel chunks, scan data fuel entries chunk = .ok chunks ∧
    chunks.flatMap rowsOf = entries.map (rowFor data chunk) ∧
    ∀ filled ∈ chunks, rows filled ≤ capacity filled

end

/-! ## What is emitted -/

section

variable {F : Type} {data : Value F → List UInt8} {chunk : OutputChunk}
  {entries it : List (Entry F)}

variable (data) in
/-- A column with the cells of entries, as many as there is room for. -/
def filledColumn (room : Nat) (entries : List (Entry F)) (column : OutputColumn) : OutputColumn :=
  { column with cells := (entries.take room).map fun entry => cellOf data entry column }

variable (data chunk) in
/-- The chunk with as many of the entries as it has room for. -/
def filledWith (entries : List (Entry F)) : OutputChunk :=
  chunk.map (filledColumn data (capacity chunk) entries)

theorem capacity_filledWith : capacity (filledWith data chunk entries) = capacity chunk := by
  cases chunk <;> rfl

theorem rows_filledWith (h : chunk ≠ []) :
    rows (filledWith data chunk entries) = min (capacity chunk) entries.length := by
  cases chunk with
  | nil => exact absurd rfl h
  | cons column chunk => exact (List.length_map _).trans List.length_take

theorem rows_filledWith_le : rows (filledWith data chunk entries) ≤ capacity chunk := by
  cases chunk with
  | nil => exact Nat.le_refl 0
  | cons column chunk =>
    rw [rows_filledWith (List.cons_ne_nil _ _)]
    exact Nat.min_le_left _ _

theorem resetData_eq : resetData chunk = filledWith data chunk [] := by
  apply List.map_congr_left
  intro column _
  rw [filledColumn, List.take_nil, List.map_nil]

theorem appendOne_of_room {column : OutputColumn} {bytes : List UInt8} (hown : column.own = true)
    (hroom : column.cells.length < column.capacity) (hlen : column.attrLen ≤ bytes.length) :
    column.appendOne bytes =
      .ok (none, { column with cells := column.cells ++ [bytes.take column.attrLen] }) := by
  rw [OutputColumn.appendOne, if_neg (not_not.mpr hown), if_neg (by omega), if_neg (by omega)]

theorem appendOne_of_full {column : OutputColumn} {bytes : List UInt8} (hown : column.own = true)
    (hfull : column.capacity ≤ column.cells.length) :
    column.appendOne bytes = .ok (some .internal, column) := by
  rw [OutputColumn.appendOne, if_neg (not_not.mpr hown), if_pos (by omega)]

/-- A column takes the next entry when it has room, and is left as it is otherwise. -/
theorem appendOne_filledColumn {column : OutputColumn} {entry : Entry F} {value : Value F}
    (hown : column.own = true) (hvalue : entry.valueFor column.columnId = some value)
    (hlen : column.attrLen ≤ (data value).length) :
    ((filledColumn data column.capacity entries column).appendOne (data value)).map Prod.snd =
      .ok (filledColumn data column.capacity (entries ++ [entry]) column) := by
  have hcell : cellOf data entry column = (data value).take column.attrLen := by
    rw [cellOf, hvalue]
    rfl
  have hlength : (filledColumn data column.capacity entries column).cells.length =
      min column.capacity entries.length := by
    rw [filledColumn, List.length_map, List.length_take]
  have hown' : (filledColumn data column.capacity entries column).own = true := hown
  by_cases hroom : entries.length < column.capacity
  · have htake : (entries ++ [entry]).take column.capacity = entries ++ [entry] :=
      List.take_of_length_le (by rw [List.length_append, List.length_singleton]; omega)
    have hcells : (filledColumn data column.capacity entries column).cells.length <
        (filledColumn data column.capacity entries column).capacity :=
      hlength.trans_lt (show _ < column.capacity by omega)
    rw [appendOne_of_room hown' hcells hlen, filledColumn, filledColumn, htake,
      List.take_of_length_le (Nat.le_of_lt hroom), List.map_append, List.map_singleton, hcell]
    rfl
  · have hcells : (filledColumn data column.capacity entries column).capacity ≤
        (filledColumn data column.capacity entries column).cells.length :=
      (show column.capacity ≤ _ by omega).trans hlength.ge
    rw [appendOne_of_full hown' hcells, filledColumn, filledColumn,
      List.take_append_of_le_length (Nat.not_lt.mp hroom)]
    rfl

theorem appendEntry_filledWith {entry : Entry F} (hfits : Fits data [entry] chunk) :
    appendEntry data entry (filledWith data chunk entries) =
      .ok (filledWith data chunk (entries ++ [entry])) := by
  unfold appendEntry filledWith
  rw [List.mapM_map]
  apply mapM_eq_ok_map
  intro column hcolumn
  obtain ⟨value, hvalue, hlen⟩ := hfits.value column hcolumn entry List.mem_cons_self
  have happend : ((filledColumn data column.capacity entries column).appendOne
      (data value)).map Prod.snd =
        .ok (filledColumn data column.capacity (entries ++ [entry]) column) :=
    appendOne_filledColumn (hfits.own column hcolumn) hvalue hlen
  rw [hfits.capacity_eq column hcolumn] at happend
  have hid : entry.valueFor (filledColumn data (capacity chunk) entries column).columnId =
      some value :=
    hvalue
  rw [Function.comp_apply, hid]
  exact happend

theorem Fits.of_subset {entries' : List (Entry F)} (hfits : Fits data entries chunk)
    (h : entries' ⊆ entries) : Fits data entries' chunk where
  capacity_eq := hfits.capacity_eq
  own := hfits.own
  value column hcolumn entry hentry := hfits.value column hcolumn entry (h hentry)

/-- The loop goes on to the end, whether or not there is room. -/
theorem fillChunk_filledWith (hfits : Fits data it chunk) :
    fillChunk data it (filledWith data chunk entries) =
      .ok ([], filledWith data chunk (entries ++ it)) := by
  induction it generalizing entries with
  | nil =>
    rw [List.append_nil]
    rfl
  | cons entry it ih =>
    have hone : Fits data [entry] chunk := hfits.of_subset (by simp)
    have hrest : Fits data it chunk := hfits.of_subset (List.subset_cons_self entry it)
    rw [fillChunk, if_pos (capacity_filledWith.symm ▸ rows_filledWith_le),
      appendEntry_filledWith hone, ok_bind, ih hrest, List.append_assoc, List.singleton_append]

theorem next_resetData (hfits : Fits data it chunk) (hne : it ≠ []) :
    next data it (resetData chunk) = .ok (none, [], filledWith data chunk it) := by
  have hfill : fillChunk data it (filledWith data chunk []) = .ok ([], filledWith data chunk it) :=
    fillChunk_filledWith hfits
  cases it with
  | nil => exact absurd rfl hne
  | cons entry it =>
    rw [resetData_eq]
    exact congrArg (fun result => result >>= fun filled => .ok (none, filled)) hfill

theorem scan_eq (hfits : Fits data entries chunk) (fuel : Nat) :
    scan data (fuel + 2) entries chunk =
      .ok (if entries = [] then [] else [filledWith data chunk entries]) := by
  by_cases hempty : entries = []
  · rw [if_pos hempty, hempty]
    rfl
  · rw [if_neg hempty, scan, next_resetData hfits hempty]
    rfl

theorem eq_of_scan (hfits : Fits data entries chunk) {fuel : Nat} {chunks : List OutputChunk}
    (h : scan data fuel entries chunk = .ok chunks) :
    chunks = if entries = [] then [] else [filledWith data chunk entries] := by
  match fuel with
  | 0 => cases h
  | 1 =>
    by_cases hempty : entries = []
    · rw [hempty] at h ⊢
      exact (Except.ok.inj h).symm
    · rw [scan, next_resetData hfits hempty] at h
      cases h
  | fuel + 2 =>
    rw [scan_eq hfits fuel] at h
    exact (Except.ok.inj h).symm

theorem rowsOf_filledWith :
    rowsOf (filledWith data chunk entries) =
      (entries.take (capacity chunk)).map (rowFor data chunk) := by
  cases hchunk : chunk with
  | nil => rfl
  | cons column columns =>
    rw [← hchunk]
    have hne : chunk ≠ [] := hchunk ▸ List.cons_ne_nil _ _
    apply List.ext_getElem
    · rw [rowsOf, List.length_map, List.length_range, rows_filledWith hne, List.length_map,
        List.length_take]
    · intro i hi hi'
      rw [List.length_map] at hi'
      simp only [rowsOf, filledWith, rowFor, List.getElem_map, List.getElem_range, List.map_map]
      apply List.map_congr_left
      intro column _
      simp only [Function.comp_apply, filledColumn, List.getElem?_map,
        List.getElem?_eq_getElem hi', Option.map_some]

/-- A scan gives every entry once just when there is room for all of them in one chunk. -/
theorem emitsOnce_iff (hfits : Fits data entries chunk) :
    EmitsOnce data entries chunk ↔ entries.length ≤ capacity chunk := by
  have hflat : (if entries = [] then [] else [filledWith data chunk entries]).flatMap rowsOf =
      (entries.take (capacity chunk)).map (rowFor data chunk) := by
    split
    · next hempty => rw [hempty, List.take_nil, List.flatMap_nil, List.map_nil]
    · rw [List.flatMap_singleton, rowsOf_filledWith]
  constructor
  · rintro ⟨fuel, chunks, hscan, hrows, -⟩
    rw [eq_of_scan hfits hscan, hflat] at hrows
    have hlen := congrArg List.length hrows
    rw [List.length_map, List.length_map, List.length_take] at hlen
    omega
  · intro hle
    refine ⟨2, _, scan_eq hfits 0, ?_, ?_⟩
    · rw [hflat, List.take_of_length_le hle]
    · intro filled hfilled
      split at hfilled
      · cases hfilled
      · rw [List.mem_singleton.mp hfilled, capacity_filledWith]
        exact rows_filledWith_le

end

end AggregateHashTable

end Sql

end ObHtap
