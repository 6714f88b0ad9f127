import ObHtap.Common.RC
import ObHtap.Library.LittleEndian
import Mathlib.Algebra.Ring.Int.Defs
import Mathlib.Data.List.TakeDrop

/-!
# Log files

A log file holds entries one after the other, each a header and its payload.  The reader and the
writer take the bytes of the file as they find them.
-/

namespace ObHtap.Clog

/-- `LogHeader`. -/
structure LogHeader where
  lsn : Int64
  size : Int32
  moduleId : Int32
  deriving DecidableEq

namespace LogHeader

/-- `LogHeader::SIZE`. -/
def headerSize : Nat := 16

/-- The header as it lies in memory. -/
def toBytes (header : LogHeader) : List UInt8 :=
  int64Bytes header.lsn ++ (int32Bytes header.size ++ int32Bytes header.moduleId)

def ofBytes (bytes : List UInt8) : LogHeader where
  lsn := bytesInt64 (bytes.take 8)
  size := bytesInt32 ((bytes.drop 8).take 4)
  moduleId := bytesInt32 (bytes.drop 12)

@[simp] theorem length_toBytes (header : LogHeader) : header.toBytes.length = headerSize := by
  simp [toBytes, headerSize]

@[simp] theorem ofBytes_toBytes (header : LogHeader) : ofBytes header.toBytes = header := by
  have h8 : header.toBytes.drop 8 = int32Bytes header.size ++ int32Bytes header.moduleId :=
    List.drop_left' (by simp)
  have h12 : header.toBytes.drop 12 = int32Bytes header.moduleId := by
    rw [show 12 = 8 + 4 from rfl, ← List.drop_drop, h8]
    exact List.drop_left' (by simp)
  unfold ofBytes
  rw [h8, h12, toBytes, List.take_left' (by simp), List.take_left' (by simp)]
  simp

theorem toBytes_ofBytes {bytes : List UInt8} (h : bytes.length = headerSize) :
    (ofBytes bytes).toBytes = bytes := by
  unfold headerSize at h
  unfold toBytes ofBytes
  rw [int64Bytes_bytesInt64 (by rw [List.length_take]; omega),
    int32Bytes_bytesInt32 (by rw [List.length_take, List.length_drop]; omega),
    int32Bytes_bytesInt32 (by rw [List.length_drop]; omega),
    show bytes.drop 12 = (bytes.drop 8).drop 4 by rw [List.drop_drop], List.take_append_drop,
    List.take_append_drop]

end LogHeader

/-- `LogEntry::max_payload_size`. -/
def maxPayloadSize : Nat := 4 * 1024 * 1024 - LogHeader.headerSize

/-- `LogEntry`.  `init` refuses a payload that is too large. -/
structure LogEntry where
  lsn : Int64
  moduleId : Int32
  data : List UInt8
  size_le : data.length ≤ maxPayloadSize
  deriving DecidableEq

namespace LogEntry

def header (entry : LogEntry) : LogHeader :=
  ⟨entry.lsn, Int32.ofNat entry.data.length, entry.moduleId⟩

/-- What is written of an entry. -/
def toBytes (entry : LogEntry) : List UInt8 := entry.header.toBytes ++ entry.data

theorem size_header (entry : LogEntry) : entry.header.size.toInt = entry.data.length :=
  Int32.toInt_ofNat_of_lt (Nat.lt_of_le_of_lt entry.size_le (by decide))

@[simp] theorem length_toBytes (entry : LogEntry) :
    entry.toBytes.length = LogHeader.headerSize + entry.data.length := by
  simp [toBytes]

end LogEntry

/-- The bytes of a file that the entries are written to. -/
def logBytes (entries : List LogEntry) : List UInt8 := (entries.map LogEntry.toBytes).flatten

@[simp] theorem logBytes_nil : logBytes [] = [] := rfl

@[simp] theorem logBytes_cons (entry : LogEntry) (entries : List LogEntry) :
    logBytes (entry :: entries) = entry.toBytes ++ logBytes entries := rfl

@[simp] theorem logBytes_append (entries entries' : List LogEntry) :
    logBytes (entries ++ entries') = logBytes entries ++ logBytes entries' := by
  simp [logBytes]

/-! ## `LogFileReader` -/

namespace LogFileReader

/-- `skip_to` from some point of the file on: what is left to be read.  Before the end of the
file a round reads a header at least, so there are no more rounds than bytes. -/
def skipFrom (startLsn : Int64) : Nat → List UInt8 → Except RC (List UInt8)
  | 0, _ => .ok []
  | n + 1, bytes =>
    if bytes.length < LogHeader.headerSize then .ok []
    else
      let header := LogHeader.ofBytes (bytes.take LogHeader.headerSize)
      if startLsn.toInt ≤ header.lsn.toInt then .ok bytes
      else if header.size.toInt < 0 ∨ maxPayloadSize < header.size.toInt then .error .ioerrRead
      else skipFrom startLsn n (bytes.drop (LogHeader.headerSize + header.size.toInt.toNat))

/-- The loop of `iterate`: the entries it hands to the callback, which returns `SUCCESS`, and
its return code. -/
def iterateFrom : Nat → List UInt8 → List LogEntry × Except RC Unit
  | 0, _ => ([], .ok ())
  | n + 1, bytes =>
    if bytes.length < LogHeader.headerSize then ([], .ok ())
    else
      let header := LogHeader.ofBytes (bytes.take LogHeader.headerSize)
      let rest := bytes.drop LogHeader.headerSize
      if h : header.size.toInt < 0 ∨ maxPayloadSize < header.size.toInt then ([], .error .ioerrRead)
      else if rest.length < header.size.toInt.toNat then ([], .error .ioerrRead)
      else
        let entry : LogEntry :=
          { lsn := header.lsn
            moduleId := header.moduleId
            data := rest.take header.size.toInt.toNat
            size_le := by
              rw [List.length_take]
              omega }
        let (entries, result) := iterateFrom n (rest.drop header.size.toInt.toNat)
        (entry :: entries, result)

/-- `iterate`. -/
def iterate (startLsn : Int64) (file : List UInt8) : List LogEntry × Except RC Unit :=
  match skipFrom startLsn file.length file with
  | .error rc => ([], .error rc)
  | .ok rest => iterateFrom rest.length rest

variable {startLsn : Int64} {n m : Nat} {bytes rest : List UInt8} {entry : LogEntry}

theorem iterateFrom_short (h : bytes.length < LogHeader.headerSize) :
    iterateFrom n bytes = ([], .ok ()) := by
  cases n with
  | zero => rfl
  | succ n => rw [iterateFrom, if_pos h]

theorem iterateFrom_congr (hn : bytes.length ≤ n) (hm : bytes.length ≤ m) :
    iterateFrom n bytes = iterateFrom m bytes := by
  induction n generalizing m bytes with
  | zero =>
    have hshort : bytes.length < LogHeader.headerSize := Nat.lt_of_le_of_lt hn (by decide)
    rw [iterateFrom_short hshort, iterateFrom_short hshort]
  | succ n ih =>
    by_cases hshort : bytes.length < LogHeader.headerSize
    · rw [iterateFrom_short hshort, iterateFrom_short hshort]
    · obtain ⟨m, rfl⟩ : ∃ k, m = k + 1 :=
        Nat.exists_eq_add_one.mpr (Nat.lt_of_lt_of_le (by unfold LogHeader.headerSize at hshort; omega) hm)
      rw [iterateFrom, iterateFrom, if_neg hshort, if_neg hshort]
      have hrest : ∀ k, ((bytes.drop LogHeader.headerSize).drop k).length ≤ n ∧
          ((bytes.drop LogHeader.headerSize).drop k).length ≤ m := by
        intro k
        simp only [List.length_drop, LogHeader.headerSize]
        omega
      simp only [ih (hrest _).1 (hrest _).2]

theorem header_of_toBytes (entry : LogEntry) (rest : List UInt8) :
    ¬ (entry.toBytes ++ rest).length < LogHeader.headerSize ∧
      LogHeader.ofBytes ((entry.toBytes ++ rest).take LogHeader.headerSize) = entry.header ∧
      (entry.toBytes ++ rest).drop LogHeader.headerSize = entry.data ++ rest := by
  have hlen := LogHeader.length_toBytes entry.header
  rw [LogEntry.toBytes, List.append_assoc, List.take_left' hlen, List.drop_left' hlen,
    LogHeader.ofBytes_toBytes, List.length_append, hlen]
  exact ⟨by omega, rfl, rfl⟩

theorem iterateFrom_entry (entry : LogEntry) (rest : List UInt8) :
    iterateFrom (n + 1) (entry.toBytes ++ rest) =
      (entry :: (iterateFrom n rest).1, (iterateFrom n rest).2) := by
  obtain ⟨hlen, hheader, hdrop⟩ := header_of_toBytes entry rest
  have hsize := entry.size_header
  have hle := entry.size_le
  have htake : (entry.data ++ rest).take entry.header.size.toInt.toNat = entry.data :=
    List.take_left' (by omega)
  have hrest : (entry.data ++ rest).drop entry.header.size.toInt.toNat = rest :=
    List.drop_left' (by omega)
  rw [iterateFrom, if_neg hlen]
  simp only [hheader, hdrop]
  rw [dif_neg (by omega), if_neg (by rw [List.length_append]; omega)]
  simp only [htake, hrest]
  rfl

theorem iterateFrom_logBytes (entries : List LogEntry) (rest : List UInt8)
    (h : (logBytes entries ++ rest).length ≤ n) :
    iterateFrom n (logBytes entries ++ rest) =
      (entries ++ (iterateFrom rest.length rest).1, (iterateFrom rest.length rest).2) := by
  induction entries generalizing n with
  | nil => exact iterateFrom_congr h (Nat.le_refl _)
  | cons entry entries ih =>
    rw [logBytes_cons, List.append_assoc] at h ⊢
    rw [List.length_append, LogEntry.length_toBytes, LogHeader.headerSize] at h
    obtain ⟨n, rfl⟩ : ∃ k, n = k + 1 := Nat.exists_eq_add_one.mpr (by omega)
    rw [iterateFrom_entry, ih (by omega)]
    rfl

theorem skipFrom_entry_lt (entry : LogEntry) (rest : List UInt8)
    (h : entry.lsn.toInt < startLsn.toInt) :
    skipFrom startLsn (n + 1) (entry.toBytes ++ rest) = skipFrom startLsn n rest := by
  obtain ⟨hlen, hheader, hdrop⟩ := header_of_toBytes entry rest
  have hsize := entry.size_header
  have hle := entry.size_le
  have hrest : (entry.toBytes ++ rest).drop
      (LogHeader.headerSize + entry.header.size.toInt.toNat) = rest := by
    rw [← List.drop_drop, hdrop]
    exact List.drop_left' (by omega)
  rw [skipFrom, if_neg hlen]
  simp only [hheader, hrest]
  rw [if_neg (by rw [show entry.header.lsn = entry.lsn from rfl]; omega), if_neg (by omega)]

theorem skipFrom_entry_ge (entry : LogEntry) (rest : List UInt8)
    (h : startLsn.toInt ≤ entry.lsn.toInt) :
    skipFrom startLsn (n + 1) (entry.toBytes ++ rest) = .ok (entry.toBytes ++ rest) := by
  obtain ⟨hlen, hheader, -⟩ := header_of_toBytes entry rest
  rw [skipFrom, if_neg hlen]
  simp only [hheader]
  exact if_pos h

/-- Of a file of entries, those from the first one on are delivered that is not below the
start. -/
theorem iterate_logBytes (startLsn : Int64) (entries : List LogEntry) :
    iterate startLsn (logBytes entries) =
      (entries.dropWhile fun entry => entry.lsn.toInt < startLsn.toInt, .ok ()) := by
  have hskip : ∀ n, (logBytes entries).length ≤ n → skipFrom startLsn n (logBytes entries) =
      .ok (logBytes (entries.dropWhile fun entry => entry.lsn.toInt < startLsn.toInt)) := by
    induction entries with
    | nil =>
      intro n _
      cases n with
      | zero => rfl
      | succ n => rfl
    | cons entry entries ih =>
      intro n hn
      rw [logBytes_cons, List.length_append, LogEntry.length_toBytes, LogHeader.headerSize] at hn
      obtain ⟨n, rfl⟩ : ∃ k, n = k + 1 := Nat.exists_eq_add_one.mpr (by omega)
      by_cases hlt : entry.lsn.toInt < startLsn.toInt
      · rw [logBytes_cons, skipFrom_entry_lt entry _ hlt, ih n (by omega),
          List.dropWhile_cons_of_pos (by simpa using hlt)]
      · rw [logBytes_cons, skipFrom_entry_ge entry _ (by omega),
          List.dropWhile_cons_of_neg (by simpa using hlt)]
        rfl
  have hiter := iterateFrom_logBytes
    (entries.dropWhile fun entry => entry.lsn.toInt < startLsn.toInt) [] (Nat.le_refl _)
  rw [List.append_nil, show iterateFrom ([] : List UInt8).length [] = ([], .ok ()) from rfl,
    List.append_nil] at hiter
  unfold iterate
  simp only [hskip _ (Nat.le_refl _), hiter]

end LogFileReader

/-! ## `LogFileWriter` -/

/-- `LogFileWriter` with the file that it has open. -/
structure LogFileWriter where
  file : List UInt8
  lastLsn : Int32
  endLsn : Int32

namespace LogFileWriter

/-- `open` by a new writer: what is written goes to the end of the file. -/
def openFile (file : List UInt8) (endLsn : Int32) : LogFileWriter := ⟨file, 0, endLsn⟩

/-- `write`. -/
def write (writer : LogFileWriter) (entry : LogEntry) : Except RC LogFileWriter :=
  if writer.endLsn.toInt < entry.lsn.toInt then .error .logFileFull
  else if entry.lsn.toInt ≤ writer.lastLsn.toInt then .error .invalidArgument
  else
    .ok { writer with
      file := writer.file ++ entry.header.toBytes ++ entry.data
      lastLsn := entry.lsn.toInt32 }

/-- The entries are written one after the other. -/
def writeAll (writer : LogFileWriter) : List LogEntry → Except RC LogFileWriter
  | [] => .ok writer
  | entry :: entries =>
    match writer.write entry with
    | .error rc => .error rc
    | .ok writer' => writer'.writeAll entries

end LogFileWriter

end ObHtap.Clog
