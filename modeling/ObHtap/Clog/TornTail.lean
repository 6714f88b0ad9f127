import ObHtap.Clog.LogFile

/-!
# Torn tails of log files

A crash cuts a log file at some byte.  The file is as good as before exactly when the cut falls
between two entries: a torn payload stops the reader, and the header of the first entry that is
appended to a torn header is read as the rest of it.
-/

namespace ObHtap.Clog

open LogFileReader

/-! ## What the writer accepts -/

theorem LogFileWriter.writeAll_ok {writer writer' : LogFileWriter} {entries : List LogEntry}
    (hlast : 0 ≤ writer.lastLsn.toInt) (h : writer.writeAll entries = .ok writer') :
    writer'.file = writer.file ++ logBytes entries ∧
      ∀ entry ∈ entries, 0 < entry.lsn.toInt ∧ entry.lsn.toInt ≤ writer.endLsn.toInt := by
  induction entries generalizing writer with
  | nil =>
    cases h
    exact ⟨(List.append_nil _).symm, by simp⟩
  | cons entry entries ih =>
    simp only [writeAll, write] at h
    split_ifs at h with hfull hold
    have hend := writer.endLsn.toInt_lt
    have hlsn : entry.lsn.toInt32.toInt = entry.lsn.toInt := by
      rw [Int64.toInt_toInt32]
      apply Int.bmod_eq_of_le <;> omega
    obtain ⟨hfile, hall⟩ := ih (by rw [hlsn]; omega) h
    refine ⟨?_, ?_⟩
    · rw [hfile, logBytes_cons, LogEntry.toBytes]
      simp only [List.append_assoc]
    · intro e he
      rcases List.mem_cons.mp he with rfl | he
      · exact ⟨by omega, by omega⟩
      · exact hall e he

theorem LogFileWriter.writeAll_singleton (file : List UInt8) (endLsn : Int32) (entry : LogEntry)
    (hpos : 0 < entry.lsn.toInt) (hend : entry.lsn.toInt ≤ endLsn.toInt) :
    ∃ writer, (openFile file endLsn).writeAll [entry] = .ok writer ∧
      writer.file = file ++ entry.toBytes := by
  refine ⟨{ openFile file endLsn with
    file := file ++ entry.header.toBytes ++ entry.data
    lastLsn := entry.lsn.toInt32 }, ?_, ?_⟩
  · simp only [writeAll, write]
    rw [if_neg (by simpa [openFile] using hend), if_neg (by simpa [openFile] using hpos)]
    rfl
  · rw [LogEntry.toBytes, List.append_assoc]

/-! ## Cuts -/

/-- The entries that are completely contained in the first `cut` bytes of their file. -/
def contained : List LogEntry → Nat → List LogEntry
  | [], _ => []
  | entry :: entries, cut =>
    if entry.toBytes.length ≤ cut then entry :: contained entries (cut - entry.toBytes.length)
    else []

/-- The cut falls between two entries, or at an end of the file. -/
def BetweenEntries (entries : List LogEntry) (cut : Nat) : Prop :=
  ∃ done rest, entries = done ++ rest ∧ cut = (logBytes done).length

/-- After the cut the reader delivers the entries contained, and those that a writer appends to
the file as well. -/
structure Survives (endLsn : Int32) (entries : List LogEntry) (file : List UInt8) (cut : Nat) :
    Prop where
  delivered : iterate 0 (file.take cut) = (contained entries cut, .ok ())
  reopened : ∀ later writer, (LogFileWriter.openFile (file.take cut) endLsn).writeAll later =
      .ok writer → iterate 0 writer.file = (contained entries cut ++ later, .ok ())

theorem contained_append (done rest : List LogEntry) (cut : Nat) :
    contained (done ++ rest) ((logBytes done).length + cut) = done ++ contained rest cut := by
  induction done with
  | nil => simp
  | cons entry done ih =>
    rw [List.cons_append, contained, logBytes_cons, List.length_append, if_pos (by omega),
      show entry.toBytes.length + (logBytes done).length + cut - entry.toBytes.length =
        (logBytes done).length + cut by omega, ih]
    rfl

/-- A cut that is not between two entries is inside of one. -/
theorem cut_cases {entries : List LogEntry} {cut : Nat} (h : cut ≤ (logBytes entries).length) :
    BetweenEntries entries cut ∨ ∃ done entry rest r, entries = done ++ entry :: rest ∧
      cut = (logBytes done).length + r ∧ 0 < r ∧ r < entry.toBytes.length := by
  induction entries generalizing cut with
  | nil => exact Or.inl ⟨[], [], rfl, Nat.le_zero.mp h⟩
  | cons entry entries ih =>
    by_cases hzero : cut = 0
    · exact Or.inl ⟨[], entry :: entries, rfl, hzero⟩
    by_cases hin : cut < entry.toBytes.length
    · exact Or.inr ⟨[], entry, entries, cut, rfl, by simp, by omega, hin⟩
    rw [logBytes_cons, List.length_append] at h
    rcases ih (show cut - entry.toBytes.length ≤ _ by omega) with
      ⟨done, rest, rfl, hcut⟩ | ⟨done, e, rest, r, rfl, hcut, hr⟩
    · exact Or.inl ⟨entry :: done, rest, rfl, by rw [logBytes_cons, List.length_append]; omega⟩
    · exact Or.inr ⟨entry :: done, e, rest, r, rfl,
        by rw [logBytes_cons, List.length_append]; omega, hr⟩

theorem not_betweenEntries {done rest : List LogEntry} {entry : LogEntry} {r : Nat} (hr : 0 < r)
    (hlt : r < entry.toBytes.length) :
    ¬ BetweenEntries (done ++ entry :: rest) ((logBytes done).length + r) := by
  rintro ⟨done', rest', heq, hcut⟩
  rcases List.append_eq_append_iff.mp heq with ⟨as, rfl, has⟩ | ⟨bs, rfl, hbs⟩
  · cases as with
    | nil =>
      rw [List.append_nil] at hcut
      omega
    | cons a as =>
      obtain ⟨rfl, -⟩ := List.cons.inj has
      rw [logBytes_append, logBytes_cons, List.length_append, List.length_append] at hcut
      omega
  · rw [logBytes_append, List.length_append] at hcut
    omega

/-! ## What the reader makes of a cut file -/

theorem iterate_zero (header : LogHeader) (rest : List UInt8) (h : 0 < header.lsn.toInt) :
    iterate 0 (header.toBytes ++ rest) =
      iterateFrom (header.toBytes ++ rest).length (header.toBytes ++ rest) := by
  have hlen := LogHeader.length_toBytes header
  have hskip : skipFrom 0 (header.toBytes ++ rest).length (header.toBytes ++ rest) =
      .ok (header.toBytes ++ rest) := by
    rw [List.length_append, hlen, LogHeader.headerSize, Nat.add_comm 16, skipFrom,
      if_neg (by rw [List.length_append, hlen]; omega), List.take_left' hlen,
      LogHeader.ofBytes_toBytes]
    exact if_pos (by rw [Int64.toInt_zero]; omega)
  rw [iterate, hskip]

theorem iterate_all {entries : List LogEntry} (h : ∀ entry ∈ entries, 0 < entry.lsn.toInt) :
    iterate 0 (logBytes entries) = (entries, .ok ()) := by
  rw [iterate_logBytes]
  cases entries with
  | nil => rfl
  | cons entry entries =>
    have hpos := h entry List.mem_cons_self
    rw [List.dropWhile_cons_of_neg (by rw [Int64.toInt_zero, decide_eq_true_eq]; omega)]

/-- In a file that begins with entries, the reader goes on after them. -/
theorem iterate_logBytes_append {done : List LogEntry} (h : ∀ entry ∈ done, 0 < entry.lsn.toInt)
    (hne : done ≠ []) (tail : List UInt8) :
    iterate 0 (logBytes done ++ tail) =
      (done ++ (iterateFrom tail.length tail).1, (iterateFrom tail.length tail).2) := by
  obtain ⟨entry, rest, rfl⟩ := List.exists_cons_of_ne_nil hne
  rw [← iterateFrom_logBytes (entry :: rest) tail (Nat.le_refl _), logBytes_cons, LogEntry.toBytes]
  simp only [List.append_assoc]
  exact iterate_zero entry.header _ (h entry List.mem_cons_self)

theorem iterateFrom_torn_payload (entry : LogEntry) (part : List UInt8)
    (h : part.length < entry.data.length) :
    (iterateFrom (entry.header.toBytes ++ part).length (entry.header.toBytes ++ part)).2 =
      .error .ioerrRead := by
  have hlen := LogHeader.length_toBytes entry.header
  have hsize := entry.size_header
  have hle := entry.size_le
  rw [List.length_append, hlen, LogHeader.headerSize, Nat.add_comm 16, iterateFrom,
    if_neg (by rw [List.length_append, hlen]; omega)]
  simp only [List.take_left' hlen, List.drop_left' hlen, LogHeader.ofBytes_toBytes]
  rw [dif_neg (by omega), if_pos (by omega)]

theorem header_of_iterateFrom {n : Nat} {bytes : List UInt8} {entry : LogEntry}
    {entries : List LogEntry} (h : (iterateFrom n bytes).1 = entry :: entries) :
    bytes.take LogHeader.headerSize = entry.header.toBytes := by
  cases n with
  | zero => cases h
  | succ n =>
    simp only [iterateFrom] at h
    split_ifs at h with hshort hsize hpayload
    obtain ⟨rfl, -⟩ := List.cons.inj h
    have hlen : (bytes.take LogHeader.headerSize).length = LogHeader.headerSize := by
      rw [List.length_take]
      omega
    apply (LogHeader.toBytes_ofBytes hlen).symm.trans
    apply congrArg LogHeader.toBytes
    dsimp only [LogEntry.header]
    clear h
    generalize LogHeader.ofBytes (bytes.take LogHeader.headerSize) = header at hsize hpayload ⊢
    have hdata : Int32.ofNat ((bytes.drop LogHeader.headerSize).take
        header.size.toInt.toNat).length = header.size := by
      apply Int32.toInt_inj.mp
      rw [List.length_take, Nat.min_eq_left (by omega), Int32.toInt_ofNat_of_lt
        (Nat.lt_of_le_of_lt (show _ ≤ maxPayloadSize by omega) (by decide))]
      omega
    rw [hdata]

theorem length_of_skipFrom {startLsn : Int64} {n : Nat} {bytes rest : List UInt8}
    (h : skipFrom startLsn n bytes = .ok rest) :
    rest = bytes ∨ rest.length ≤ bytes.length - LogHeader.headerSize := by
  induction n generalizing bytes with
  | zero =>
    cases h
    exact Or.inr (Nat.zero_le _)
  | succ n ih =>
    simp only [skipFrom] at h
    split_ifs at h with hshort hstart hsize
    · cases h
      exact Or.inr (Nat.zero_le _)
    · cases h
      exact Or.inl rfl
    · right
      rcases ih h with rfl | hle
      · rw [List.length_drop]
        omega
      · rw [List.length_drop] at hle
        omega

/-- The reader may skip a header, but there are no two of them here. -/
theorem header_of_iterate {startLsn : Int64} {bytes : List UInt8} {entry : LogEntry}
    {entries : List LogEntry} (h : (iterate startLsn bytes).1 = entry :: entries)
    (hlen : bytes.length < LogHeader.headerSize + LogHeader.headerSize) :
    bytes.take LogHeader.headerSize = entry.header.toBytes := by
  unfold iterate at h
  cases hskip : skipFrom startLsn bytes.length bytes with
  | error rc =>
    rw [hskip] at h
    cases h
  | ok rest =>
    rw [hskip] at h
    rcases length_of_skipFrom hskip with rfl | hle
    · exact header_of_iterateFrom h
    · simp only [iterateFrom_short (show rest.length < LogHeader.headerSize by omega)] at h
      cases h

/-! ## The three kinds of cuts -/

section Cuts

variable {endLsn : Int32} {done rest : List LogEntry} {entry : LogEntry}

theorem contained_nil_of_lt {cut : Nat} (h : cut < entry.toBytes.length) :
    contained (entry :: rest) cut = [] := by
  rw [contained, if_neg (by omega)]

theorem contained_zero (entries : List LogEntry) : contained entries 0 = [] := by
  cases entries with
  | nil => rfl
  | cons entry entries =>
    apply contained_nil_of_lt
    rw [LogEntry.length_toBytes, LogHeader.headerSize]
    omega

theorem survives_of_betweenEntries (hpos : ∀ e ∈ done, 0 < e.lsn.toInt) :
    Survives endLsn (done ++ rest) (logBytes (done ++ rest)) (logBytes done).length := by
  have hcontained : contained (done ++ rest) (logBytes done).length = done := by
    rw [← Nat.add_zero (logBytes done).length, contained_append, contained_zero, List.append_nil]
  have htake : (logBytes (done ++ rest)).take (logBytes done).length = logBytes done := by
    rw [logBytes_append, List.take_left]
  constructor
  · rw [htake, hcontained, iterate_all hpos]
  · intro later writer hwrite
    have hlast : 0 ≤ (LogFileWriter.openFile
        ((logBytes (done ++ rest)).take (logBytes done).length) endLsn).lastLsn.toInt := Int.le_refl 0
    obtain ⟨hfile, hlater⟩ := LogFileWriter.writeAll_ok hlast hwrite
    rw [hfile, show (LogFileWriter.openFile _ endLsn).file = logBytes done from htake,
      ← logBytes_append, hcontained]
    apply iterate_all
    intro e he
    exact (List.mem_append.mp he).elim (hpos e) fun hl => (hlater e hl).1

theorem take_torn (r : Nat) (hlt : r < entry.toBytes.length) :
    (logBytes (done ++ entry :: rest)).take ((logBytes done).length + r) =
      logBytes done ++ entry.toBytes.take r := by
  rw [logBytes_append, List.take_append, List.take_of_length_le (by omega), logBytes_cons,
    Nat.add_sub_cancel_left, List.take_append_of_le_length (Nat.le_of_lt hlt)]

/-- The cut falls inside of a payload: the reader fails. -/
theorem not_survives_of_torn_payload {r : Nat} (hpos : ∀ e ∈ done, 0 < e.lsn.toInt)
    (hlsn : 0 < entry.lsn.toInt) (hr : LogHeader.headerSize ≤ r)
    (hlt : r < entry.toBytes.length) :
    ¬ Survives endLsn (done ++ entry :: rest) (logBytes (done ++ entry :: rest))
      ((logBytes done).length + r) := by
  intro h
  have hd := congrArg Prod.snd h.delivered
  have hlen := LogHeader.length_toBytes entry.header
  have hpart : entry.toBytes.take r =
      entry.header.toBytes ++ entry.data.take (r - LogHeader.headerSize) := by
    rw [LogEntry.toBytes, List.take_append, hlen, List.take_of_length_le (by omega)]
  rw [LogEntry.length_toBytes] at hlt
  have herror := iterateFrom_torn_payload entry
    (entry.data.take (r - LogHeader.headerSize)) (by rw [List.length_take]; omega)
  rw [take_torn r (by rw [LogEntry.length_toBytes]; exact hlt), hpart] at hd
  by_cases hnil : done = []
  · subst hnil
    rw [logBytes_nil, List.nil_append, iterate_zero entry.header _ hlsn, herror] at hd
    cases hd
  · rw [iterate_logBytes_append hpos hnil, herror] at hd
    cases hd

/-- Two headers that differ in their modules cannot both be what is read after a torn header: the
byte where they differ would be one of the torn bytes or of the bytes they have in common. -/
theorem torn_header_misread (torn front : List UInt8) (htorn : 0 < torn.length)
    (hfront : front.length = 12) :
    ¬ ∀ moduleId : Int32, (torn ++ (front ++ int32Bytes moduleId)).take LogHeader.headerSize =
      front ++ int32Bytes moduleId := by
  intro h
  have hbyte : ∀ moduleId : Int32, (front ++ int32Bytes moduleId)[12]? =
      if 12 < torn.length then torn[12]? else front[12 - torn.length]? := by
    intro moduleId
    rw [← h moduleId, List.getElem?_take_of_lt (by decide)]
    split_ifs with hlt
    · exact List.getElem?_append_left hlt
    · rw [List.getElem?_append_right (by omega), List.getElem?_append_left (by omega)]
  have h0 := hbyte 0
  rw [← hbyte 1, List.getElem?_append_right (by omega), List.getElem?_append_right (by omega),
    hfront] at h0
  revert h0
  decide

/-- The cut falls inside of a header: of two entries that differ in their modules, one at least
is not read after it. -/
theorem not_survives_of_torn_header {r : Nat} (hpos : ∀ e ∈ done, 0 < e.lsn.toInt)
    (hlsn : 0 < entry.lsn.toInt) (hend : entry.lsn.toInt ≤ endLsn.toInt) (hr : 0 < r)
    (hlt : r < LogHeader.headerSize) :
    ¬ Survives endLsn (done ++ entry :: rest) (logBytes (done ++ entry :: rest))
      ((logBytes done).length + r) := by
  intro h
  have hlen : r < entry.toBytes.length := by
    rw [LogEntry.length_toBytes]
    omega
  have hcontained : contained (done ++ entry :: rest) ((logBytes done).length + r) = done := by
    rw [contained_append, contained_nil_of_lt hlen, List.append_nil]
  have htorn : (entry.toBytes.take r).length = r := by
    rw [List.length_take]
    omega
  apply torn_header_misread (entry.toBytes.take r) (int64Bytes entry.lsn ++ int32Bytes 0)
    (by omega) (by simp)
  intro moduleId
  let later : LogEntry := ⟨entry.lsn, moduleId, [], Nat.zero_le _⟩
  have hbytes : later.toBytes = int64Bytes entry.lsn ++ int32Bytes 0 ++ int32Bytes moduleId := by
    rw [List.append_assoc]
    exact List.append_nil _
  obtain ⟨writer, hwrite, hfile⟩ := LogFileWriter.writeAll_singleton
    ((logBytes (done ++ entry :: rest)).take ((logBytes done).length + r)) endLsn later hlsn hend
  have hd := congrArg Prod.fst (h.reopened _ writer hwrite)
  rw [hfile, hcontained, take_torn r hlen, List.append_assoc] at hd
  rw [← hbytes, show later.toBytes = later.header.toBytes from List.append_nil _]
  by_cases hnil : done = []
  · subst hnil
    apply header_of_iterate hd
    rw [logBytes_nil, List.nil_append, List.length_append, htorn, LogEntry.length_toBytes]
    exact Nat.add_lt_add_right hlt LogHeader.headerSize
  · rw [iterate_logBytes_append hpos hnil] at hd
    exact header_of_iterateFrom (List.append_cancel_left hd)

end Cuts

/-- A log file outlives a crash exactly when the crash cuts it between two entries. -/
theorem survives_iff_betweenEntries (endLsn : Int32) (entries : List LogEntry)
    (writer : LogFileWriter) (hwrite : (LogFileWriter.openFile [] endLsn).writeAll entries = .ok writer)
    (cut : Nat) (hcut : cut ≤ writer.file.length) :
    Survives endLsn entries writer.file cut ↔ BetweenEntries entries cut := by
  have hlast : 0 ≤ (LogFileWriter.openFile [] endLsn).lastLsn.toInt := Int.le_refl 0
  obtain ⟨hfile, hall⟩ := LogFileWriter.writeAll_ok hlast hwrite
  rw [show writer.file = logBytes entries from hfile] at hcut ⊢
  rcases cut_cases hcut with ⟨done, rest, rfl, rfl⟩ | ⟨done, entry, rest, r, rfl, rfl, hr, hlt⟩
  · have hdone : ∀ e ∈ done, 0 < e.lsn.toInt := fun e he => (hall e (List.mem_append_left _ he)).1
    exact iff_of_true (survives_of_betweenEntries hdone) ⟨done, rest, rfl, rfl⟩
  · have hdone : ∀ e ∈ done, 0 < e.lsn.toInt := fun e he => (hall e (List.mem_append_left _ he)).1
    obtain ⟨hlsn, hend⟩ := hall entry (List.mem_append_right _ List.mem_cons_self)
    apply iff_of_false _ (not_betweenEntries hr hlt)
    by_cases hheader : r < LogHeader.headerSize
    · exact not_survives_of_torn_header hdone hlsn hend hr hheader
    · exact not_survives_of_torn_payload hdone hlsn (Nat.le_of_not_lt hheader) hlt

/-- The first entry of a log, with one byte. -/
def firstEntry : LogEntry := ⟨1, 0, [7], by decide⟩

/-- Another one, with three bytes. -/
def secondEntry : LogEntry := ⟨2, 1, [8, 9, 10], by decide⟩

/-- A cut before the last byte of the second entry, behind the first one. -/
theorem survives_iff_betweenEntries_torn :
    Survives 999 [firstEntry, secondEntry] (logBytes [firstEntry, secondEntry]) 35 ↔
      BetweenEntries [firstEntry, secondEntry] 35 :=
  survives_iff_betweenEntries 999 [firstEntry, secondEntry]
    ⟨logBytes [firstEntry, secondEntry], 2, 999⟩ rfl 35 (by decide)

/-- The crash comes between the header and the payload. -/
theorem cut_payload_not_survives : ¬ Survives 999 [firstEntry] (logBytes [firstEntry]) 16 := by
  intro h
  have hd := congrArg Prod.snd h.delivered
  revert hd
  decide

end ObHtap.Clog
