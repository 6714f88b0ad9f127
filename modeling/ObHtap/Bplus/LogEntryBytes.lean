import ObHtap.Library.LittleEndian
import ObHtap.Library.Reads
import ObHtap.Clog.DiskLogHandler

/-!
# The bytes of the B+ tree log

A mini-transaction is logged as the id of its buffer pool and its entries, one behind the other.
An entry says nothing about its own length: each kind has to read what it wrote.
-/

namespace ObHtap.BplusTree

/-! ## `Deserializer` -/

/-- A reader of a buffer, which fails as its caller says. -/
abbrev Deserialize (α : Type) := ListReader UInt8 Fault α

/-- `Deserializer::read`. -/
def read (size : Nat) (rc : RC) : Deserialize (List UInt8) := takeFront size (.rc rc)

/-- `Deserializer::read_int32`. -/
def readInt32 (rc : RC) : Deserialize Int32 := do
  let bytes ← read 4 rc
  pure (bytesInt32 bytes)

/-- A `vector<char>` of the size that has been read before.  There is none of a negative size. -/
def readVector (size : Int32) (rc : RC) : Deserialize (List UInt8) :=
  if size.toInt < 0 then throw .abort else read size.toInt.toNat rc

/-- The size of a vector as it is written. -/
def sizeBytes (bytes : List UInt8) : List UInt8 := int32Bytes (Int32.ofNat bytes.length)

theorem reads_readInt32 (x : Int32) (rc : RC) : Reads (readInt32 rc) x (int32Bytes x) := by
  have h := (reads_takeFront (length_int32Bytes x) (Fault.rc rc)).map bytesInt32
  rwa [bytesInt32_int32Bytes] at h

theorem reads_readVector {bytes : List UInt8} (h : bytes.length < 2 ^ 31) (rc : RC) :
    Reads (readVector (Int32.ofNat bytes.length) rc) bytes bytes := by
  have hsize : (Int32.ofNat bytes.length).toInt = bytes.length := Int32.toInt_ofNat_of_lt h
  unfold readVector
  rw [hsize, if_neg (by omega)]
  exact reads_takeFront rfl _

/-! ## Entries -/

/-- `sizeof(IndexFileHeader)`: 47 integers of 4 bytes. -/
def sizeofIndexFileHeader : Nat := 4 * (3 + 20 + 1 + 20 + 3)

/-- `IndexFileHeader` as it lies in memory. -/
structure IndexFileHeader where
  bytes : List UInt8
  size_eq : bytes.length = sizeofIndexFileHeader
  deriving DecidableEq

/-- The operations of the ten kinds with what a redo and a rollback need. -/
inductive LogOperation where
  | initHeaderPage (fileHeader : IndexFileHeader)
  | updateRootPage (rootPageNum oldPageNum : Int32)
  | setParentPage (parentPageNum oldParentPageNum : Int32)
  | leafInitEmpty
  | leafSetNextPage (newPageNum oldPageNum : Int32)
  | internalInitEmpty
  | internalCreateNewRoot (firstPageNum : Int32) (key : List UInt8) (pageNum : Int32)
  | internalUpdateKey (index : Int32) (key oldKey : List UInt8)
  | nodeInsert (index : Int32) (items : List UInt8) (itemNum : Int32)
  | nodeRemove (index : Int32) (items : List UInt8) (itemNum : Int32)
  deriving DecidableEq

namespace LogOperation

/-- `LogOperation::index`. -/
def index : LogOperation → Int32
  | initHeaderPage _ => 0
  | updateRootPage _ _ => 1
  | setParentPage _ _ => 2
  | leafInitEmpty => 3
  | leafSetNextPage _ _ => 4
  | internalInitEmpty => 5
  | internalCreateNewRoot _ _ _ => 6
  | internalUpdateKey _ _ _ => 7
  | nodeInsert _ _ _ => 8
  | nodeRemove _ _ _ => 9

/-- `LogOperation::Type::MAX_TYPE`. -/
def maxType : Int32 := 10

/-- `serialize_body` of a `NormalOperationLogEntryHandler`. -/
def itemBytes (index : Int32) (items : List UInt8) (itemNum : Int32) : List UInt8 :=
  int32Bytes index ++ (int32Bytes itemNum ++ (sizeBytes items ++ items))

/-- `serialize_body` of each kind. -/
def bodyBytes : LogOperation → List UInt8
  | initHeaderPage fileHeader => fileHeader.bytes
  | updateRootPage rootPageNum _ => int32Bytes rootPageNum
  | setParentPage parentPageNum _ => int32Bytes parentPageNum
  | leafInitEmpty => []
  | leafSetNextPage newPageNum _ => int32Bytes newPageNum
  | internalInitEmpty => []
  | internalCreateNewRoot firstPageNum key pageNum =>
    int32Bytes firstPageNum ++ (int32Bytes pageNum ++ (sizeBytes key ++ key))
  | internalUpdateKey index key _ => int32Bytes index ++ (sizeBytes key ++ key)
  | nodeInsert index items itemNum => itemBytes index items itemNum
  | nodeRemove index items itemNum => itemBytes index items itemNum

/-- The operation as the log has it, without what a rollback needs. -/
def logged : LogOperation → LogOperation
  | updateRootPage rootPageNum _ => updateRootPage rootPageNum (-1)
  | setParentPage parentPageNum _ => setParentPage parentPageNum (-1)
  | leafSetNextPage newPageNum _ => leafSetNextPage newPageNum (-1)
  | internalUpdateKey index key _ => internalUpdateKey index key []
  | operation => operation

/-- `InitHeaderPageLogEntryHandler::deserialize`. -/
def readFileHeader : Deserialize LogOperation := fun bytes =>
  if h : bytes.length < sizeofIndexFileHeader then .error (.rc .internal)
  else .ok (initHeaderPage ⟨bytes.take sizeofIndexFileHeader,
    List.length_take_of_le (Nat.not_lt.mp h)⟩, bytes.drop sizeofIndexFileHeader)

/-- `NormalOperationLogEntryHandler::deserialize`. -/
def readItems (make : Int32 → List UInt8 → Int32 → LogOperation) : Deserialize LogOperation := do
  let index ← readInt32 .internal
  let itemNum ← readInt32 .internal
  let itemBytes ← readInt32 .internal
  let items ← readVector itemBytes .internal
  pure (make index items itemNum)

/-- The `switch` of `from_buffer` with the `deserialize` of each kind. -/
def readBody (type : Int32) : Deserialize LogOperation :=
  match type.toInt with
  | 0 => readFileHeader
  | 1 => do pure (updateRootPage (← readInt32 .internal) (-1))
  | 2 => do pure (setParentPage (← readInt32 .internal) (-1))
  | 3 => pure leafInitEmpty
  | 4 => do pure (leafSetNextPage (← readInt32 .internal) (-1))
  | 5 => pure internalInitEmpty
  | 6 => do
    let firstPageNum ← readInt32 .internal
    let pageNum ← readInt32 .internal
    let keySize ← readInt32 .internal
    let key ← readVector keySize .internal
    pure (internalCreateNewRoot firstPageNum key pageNum)
  | 7 => do
    let index ← readInt32 .internal
    let keySize ← readInt32 .internal
    let key ← readVector keySize .internal
    pure (internalUpdateKey index key [])
  | 8 => readItems nodeInsert
  | 9 => readItems nodeRemove
  | _ => throw (.rc .internal)

theorem reads_readFileHeader (header : IndexFileHeader) :
    Reads readFileHeader (initHeaderPage header) header.bytes := by
  intro rest
  unfold readFileHeader
  have hlen := header.size_eq
  rw [dif_neg (by rw [List.length_append]; omega)]
  simp only [List.take_left' hlen, List.drop_left' hlen]

theorem reads_readItems (make : Int32 → List UInt8 → Int32 → LogOperation) (index itemNum : Int32)
    {items : List UInt8} (h : items.length < 2 ^ 31) :
    Reads (readItems make) (make index items itemNum) (itemBytes index items itemNum) := by
  apply (reads_readInt32 index _).bind
  apply (reads_readInt32 itemNum _).bind
  apply (reads_readInt32 _ _).bind
  exact (reads_readVector h _).map fun items => make index items itemNum

theorem reads_readBody {operation : LogOperation} (h : operation.bodyBytes.length < 2 ^ 31) :
    Reads (readBody operation.index) operation.logged operation.bodyBytes := by
  cases operation with
  | initHeaderPage header => exact reads_readFileHeader header
  | updateRootPage root old => exact (reads_readInt32 root _).map fun p => updateRootPage p (-1)
  | setParentPage parent old => exact (reads_readInt32 parent _).map fun p => setParentPage p (-1)
  | leafInitEmpty => exact Reads.pure _
  | leafSetNextPage next old => exact (reads_readInt32 next _).map fun p => leafSetNextPage p (-1)
  | internalInitEmpty => exact Reads.pure _
  | internalCreateNewRoot first key second =>
    have hkey : key.length < 2 ^ 31 := by
      simp only [bodyBytes, List.length_append] at h
      omega
    apply (reads_readInt32 first _).bind
    apply (reads_readInt32 second _).bind
    apply (reads_readInt32 _ _).bind
    exact (reads_readVector hkey _).map fun key => internalCreateNewRoot first key second
  | internalUpdateKey index key oldKey =>
    have hkey : key.length < 2 ^ 31 := by
      simp only [bodyBytes, List.length_append] at h
      omega
    apply (reads_readInt32 index _).bind
    apply (reads_readInt32 _ _).bind
    exact (reads_readVector hkey _).map fun key => internalUpdateKey index key []
  | nodeInsert index items itemNum =>
    apply reads_readItems
    simp only [bodyBytes, itemBytes, List.length_append] at h
    omega
  | nodeRemove index items itemNum =>
    apply reads_readItems
    simp only [bodyBytes, itemBytes, List.length_append] at h
    omega

end LogOperation

/-- `LogEntryHandler`.  Of its frame, if it has one, only the page number matters here. -/
structure LogEntryHandler where
  frame : Option Int32
  ownPageNum : Int32
  operation : LogOperation
  deriving DecidableEq

namespace LogEntryHandler

/-- `page_num`. -/
def pageNum (handler : LogEntryHandler) : Int32 := handler.frame.getD handler.ownPageNum

/-- `serialize`.  The header takes the page number from the frame without a look at the pointer. -/
def serialize (handler : LogEntryHandler) : Except Fault (List UInt8) :=
  match handler.frame with
  | none => .error .abort
  | some pageNum =>
    .ok (int32Bytes handler.operation.index ++
      (int32Bytes pageNum ++ handler.operation.bodyBytes))

/-- `from_buffer`. -/
def fromBuffer (frameGetter : Int32 → Except RC (Option Int32)) : Deserialize LogEntryHandler := do
  let type ← readInt32 .invalidArgument
  if type.toInt < 0 ∨ LogOperation.maxType.toInt ≤ type.toInt then throw (.rc .invalidArgument)
  else
    let pageNum ← readInt32 .invalidArgument
    match frameGetter pageNum with
    | .error rc => throw (.rc rc)
    | .ok frame =>
      let operation ← LogOperation.readBody type
      pure ⟨frame, pageNum, operation⟩

/-- The frame getter of `from_buffer` without a buffer pool. -/
def fakeFrameGetter : Int32 → Except RC (Option Int32) := fun _ => .ok none

/-- The bytes of an entry that has a frame. -/
def bytes (handler : LogEntryHandler) : List UInt8 :=
  int32Bytes handler.operation.index ++
    (int32Bytes handler.pageNum ++ handler.operation.bodyBytes)

theorem serialize_eq_ok {handler : LogEntryHandler} {buffer : List UInt8}
    (h : handler.serialize = .ok buffer) : buffer = handler.bytes := by
  unfold serialize at h
  split at h
  · cases h
  · rename_i p hframe
    rw [bytes, pageNum, hframe]
    exact (Except.ok.inj h).symm

theorem reads_fromBuffer {frameGetter : Int32 → Except RC (Option Int32)}
    (handler : LogEntryHandler) {frame : Option Int32}
    (hframe : frameGetter handler.pageNum = .ok frame)
    (h : handler.operation.bodyBytes.length < 2 ^ 31) :
    Reads (fromBuffer frameGetter) ⟨frame, handler.pageNum, handler.operation.logged⟩
      handler.bytes := by
  have hindex : ¬ (handler.operation.index.toInt < 0 ∨
      LogOperation.maxType.toInt ≤ handler.operation.index.toInt) := by
    cases handler.operation <;> simp only [LogOperation.index] <;> decide
  apply (reads_readInt32 handler.operation.index _).bind
  rw [if_neg hindex]
  apply (reads_readInt32 handler.pageNum _).bind
  rw [hframe]
  exact (LogOperation.reads_readBody h).map (LogEntryHandler.mk frame handler.pageNum)

end LogEntryHandler

/-! ## Records -/

open LogEntryHandler

/-- The loop of `commit` over the entries. -/
def serializeEntries : List LogEntryHandler → Except Fault (List UInt8)
  | [] => .ok []
  | entry :: entries => do
    let bytes ← entry.serialize
    let rest ← serializeEntries entries
    .ok (bytes ++ rest)

/-- `BplusTreeLogger::commit`, up to the LSNs of the frames.  1 is the module of the B+ tree. -/
def commit (bufferPoolId : Int32) (entries : List LogEntryHandler) (log : Clog.DiskLogHandler) :
    Except Fault Unit × Clog.DiskLogHandler :=
  match entries with
  | [] => (.ok (), log)
  | entries =>
    match serializeEntries entries with
    | .error fault => (.error fault, log)
    | .ok bytes =>
      match log.append 1 (int32Bytes bufferPoolId ++ bytes) with
      | (.error rc, log') => (.error (.rc rc), log')
      | (.ok _, log') => (.ok (), log')

/-- The id and then `from_buffer` until nothing remains.  An entry has a byte at least, so there
are no more rounds than bytes. -/
def decode (frameGetter : Int32 → Except RC (Option Int32)) (data : List UInt8) :
    Except Fault ((Int32 × List LogEntryHandler) × List UInt8) :=
  match readInt32 .ioerrRead data with
  | .error fault => .error fault
  | .ok (bufferPoolId, rest) =>
    match readMany (fromBuffer frameGetter) .outOfFuel data.length rest with
    | .error fault => .error fault
    | .ok (entries, rest) => .ok ((bufferPoolId, entries), rest)

theorem serializeEntries_eq_ok {entries : List LogEntryHandler} {buffer : List UInt8}
    (h : serializeEntries entries = .ok buffer) : buffer = entries.flatMap bytes := by
  induction entries generalizing buffer with
  | nil => exact (Except.ok.inj h).symm
  | cons entry entries ih =>
    rw [serializeEntries] at h
    cases hentry : entry.serialize with
    | error fault => rw [hentry] at h; cases h
    | ok first =>
      cases hrest : serializeEntries entries with
      | error fault => rw [hentry, hrest] at h; cases h
      | ok rest =>
        rw [hentry, hrest] at h
        rw [List.flatMap_cons, ← serialize_eq_ok hentry, ← ih hrest]
        exact (Except.ok.inj h).symm

theorem decode_entries {frameGetter : Int32 → Except RC (Option Int32)}
    (hget : ∀ pageNum, ∃ frame, frameGetter pageNum = .ok frame ∧ ∀ p ∈ frame, p = pageNum)
    (bufferPoolId : Int32) {entries : List LogEntryHandler}
    (hsize : (entries.flatMap bytes).length < 2 ^ 31) :
    ∃ decoded, decode frameGetter (int32Bytes bufferPoolId ++ entries.flatMap bytes) =
        .ok ((bufferPoolId, decoded), []) ∧
      decoded.map (fun e => (e.pageNum, e.operation)) =
        entries.map fun e => (e.pageNum, e.operation.logged) := by
  choose frame hframe hpage using hget
  let value : LogEntryHandler → LogEntryHandler :=
    fun e => ⟨frame e.pageNum, e.pageNum, e.operation.logged⟩
  have hlength : ∀ e ∈ entries, e.bytes.length ≤ (entries.flatMap bytes).length :=
    fun e he => List.Sublist.length_le (List.sublist_flatten_of_mem (List.mem_map_of_mem he))
  have hreads : ∀ e ∈ entries, Reads (fromBuffer frameGetter) (value e) e.bytes := by
    intro e he
    apply reads_fromBuffer e (hframe e.pageNum)
    have := hlength e he
    simp only [bytes, List.length_append] at this
    omega
  have hne : ∀ e ∈ entries, e.bytes ≠ [] := by
    intro e _ hnil
    have hlen := congrArg List.length hnil
    simp only [bytes, List.length_append, length_int32Bytes, List.length_nil] at hlen
    omega
  have hrounds : entries.length ≤ (int32Bytes bufferPoolId ++ entries.flatMap bytes).length := by
    rw [List.length_append]
    exact Nat.le_trans (length_le_flatMap hne) (Nat.le_add_left _ _)
  refine ⟨entries.map value, ?_, ?_⟩
  · have hid := reads_readInt32 bufferPoolId .ioerrRead (entries.flatMap bytes)
    unfold decode
    rw [hid]
    simp only
    rw [readMany_flatMap hreads hne hrounds]
  · rw [List.map_map]
    apply List.map_congr_left
    intro e _
    have hown : (value e).pageNum = e.pageNum := by
      show (frame e.pageNum).getD e.pageNum = e.pageNum
      cases hv : frame e.pageNum with
      | none => rfl
      | some p => exact hpage e.pageNum p hv
    rw [Function.comp_apply, hown]

/-- **The log of a mini-transaction round-trips**: the record that a commit appends is read back
entry by entry, with the same operations, pages and redo data, up to its end. -/
theorem decode_commit {frameGetter : Int32 → Except RC (Option Int32)}
    (hget : ∀ pageNum, ∃ frame, frameGetter pageNum = .ok frame ∧ ∀ p ∈ frame, p = pageNum)
    {bufferPoolId : Int32} {entries : List LogEntryHandler} (hne : entries ≠ [])
    {log log' : Clog.DiskLogHandler} (h : commit bufferPoolId entries log = (.ok (), log')) :
    ∃ record decoded, log'.entries = log.entries ++ [record] ∧
      decode frameGetter record.data = .ok ((bufferPoolId, decoded), []) ∧
      decoded.map (fun e => (e.pageNum, e.operation)) =
        entries.map fun e => (e.pageNum, e.operation.logged) := by
  unfold commit at h
  split at h
  · exact absurd rfl hne
  · cases hbytes : serializeEntries entries with
    | error fault =>
      rw [hbytes] at h
      cases h
    | ok buffer =>
      obtain rfl := serializeEntries_eq_ok hbytes
      rw [hbytes] at h
      simp only at h
      unfold Clog.DiskLogHandler.append at h
      split at h
      · rename_i rc log₁ happend
        cases h
      · rename_i lsn log₁ happend
        obtain rfl := (Prod.mk.inj h).2
        split_ifs at happend with hsize
        · obtain ⟨-, rfl⟩ := Prod.mk.inj happend
          have hlength : (entries.flatMap bytes).length < 2 ^ 31 := by
            rw [List.length_append] at hsize
            have hmax : Clog.maxPayloadSize < 2 ^ 31 := by decide
            omega
          obtain ⟨decoded, hdecode, hsame⟩ := decode_entries hget bufferPoolId hlength
          exact ⟨_, decoded, rfl, hdecode, hsame⟩
        · cases happend

theorem decode_commit_two : ∃ decoded,
    decode fakeFrameGetter (((commit 3 [⟨some 2, -1, .leafSetNextPage 5 4⟩,
      ⟨some 2, -1, .nodeInsert 0 [7] 1⟩] Clog.LogState.create.handler).2.entries.map
        Clog.LogEntry.data).flatten) = .ok ((3, decoded), []) ∧
    decoded.map (fun e => (e.pageNum, e.operation)) =
      [(2, .leafSetNextPage 5 (-1)), (2, .nodeInsert 0 [7] 1)] := by
  have hcommit : ∃ log', commit 3 [⟨some 2, -1, .leafSetNextPage 5 4⟩,
      ⟨some 2, -1, .nodeInsert 0 [7] 1⟩] Clog.LogState.create.handler = (.ok (), log') := ⟨_, rfl⟩
  obtain ⟨log', hcommit⟩ := hcommit
  have hget : ∀ pageNum, ∃ frame, fakeFrameGetter pageNum = .ok frame ∧ ∀ p ∈ frame, p = pageNum :=
    fun _ => ⟨none, rfl, fun p hp => by cases hp⟩
  obtain ⟨record, decoded, hentries, hdecode, hsame⟩ :=
    decode_commit hget (List.cons_ne_nil _ _) hcommit
  refine ⟨decoded, ?_, hsame⟩
  rw [hcommit, hentries, ← hdecode]
  congr 1
  exact List.append_nil _

end ObHtap.BplusTree
