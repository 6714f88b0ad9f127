import ObHtap.Clog.LogFile

/-!
# The bytes of the log buffer

The buffer counts the bytes of its entries, and an append waits while they are too many.  An entry
that is moved from has no size any more, and a counter that is read from it is off.
-/

namespace ObHtap.Clog

/-- `LogEntry` while it is moved about: its header and its data. -/
structure BufferedEntry where
  header : LogHeader
  data : List UInt8

namespace BufferedEntry

/-- `LogEntry::init`. -/
def init (lsn : Int64) (moduleId : Int32) (data : List UInt8) : Except RC BufferedEntry :=
  if maxPayloadSize < (Int32.ofNat data.length).toInt then .error .invalidArgument
  else .ok ⟨⟨lsn, Int32.ofNat data.length, moduleId⟩, data⟩

/-- What the move constructor and the move assignment leave behind. -/
def movedFrom (entry : BufferedEntry) : BufferedEntry :=
  ⟨{ entry.header with lsn := 0, size := 0 }, []⟩

def totalSize (entry : BufferedEntry) : Int := LogHeader.headerSize + entry.header.size.toInt

end BufferedEntry

/-- `LogEntryBuffer`. -/
structure LogEntryBuffer where
  entries : List BufferedEntry
  bytes : Int
  currentLsn : Int64
  flushedLsn : Int64
  maxBytes : Int

namespace LogEntryBuffer

open BufferedEntry

/-- `init` of a new buffer. -/
def init (lsn : Int64) (maxBytes : Int) : LogEntryBuffer :=
  ⟨[], 0, lsn, lsn, if 0 < maxBytes then maxBytes else 4 * 1024 * 1024⟩

/-- `append`; `none` while it waits for the buffer to be flushed.  The size is taken from the entry
after it has been moved into the buffer. -/
def append (buffer : LogEntryBuffer) (moduleId : Int32) (data : List UInt8) :
    Option (Except RC Int64 × LogEntryBuffer) :=
  if buffer.maxBytes ≤ buffer.bytes then none
  else
    match BufferedEntry.init 0 moduleId data with
    | .error rc => some (.error rc, buffer)
    | .ok entry =>
      let lsn := buffer.currentLsn + 1
      let entry := { entry with header := { entry.header with lsn } }
      some (.ok lsn, { buffer with
        currentLsn := lsn
        entries := buffer.entries ++ [entry]
        bytes := buffer.bytes + entry.movedFrom.totalSize })

/-- The loop of `flush` over the entries that are left; `none` where an assertion fails.  `write`
tells what the writer returns for an entry, given the number of those written before. -/
def flushFrom (write : Nat → BufferedEntry → Except RC Unit) :
    List BufferedEntry → LogEntryBuffer → Nat → Option (Except RC Unit × Nat × LogEntryBuffer)
  | [], buffer, count => some (.ok (), count, { buffer with entries := [] })
  | entry :: rest, buffer, count =>
    if 0 < entry.header.lsn.toInt ∧ 0 < entry.header.size.toInt then
      let buffer := { buffer with bytes := buffer.bytes - entry.totalSize }
      match write count entry with
      | .error rc => some (.error rc, count, { buffer with entries := entry :: rest })
      | .ok () => flushFrom write rest { buffer with flushedLsn := entry.header.lsn } (count + 1)
    else none

/-- `flush`. -/
def flush (buffer : LogEntryBuffer) (write : Nat → BufferedEntry → Except RC Unit) :
    Option (Except RC Unit × Nat × LogEntryBuffer) :=
  flushFrom write buffer.entries buffer 0

/-- The sizes of the entries in the buffer. -/
def buffered (entries : List BufferedEntry) : Int := (entries.map totalSize).sum

/-- `bytes_` is the size of what is in the buffer. -/
def BytesExact (buffer : LogEntryBuffer) : Prop := buffer.bytes = buffered buffer.entries

instance (buffer : LogEntryBuffer) : Decidable buffer.BytesExact :=
  inferInstanceAs (Decidable (_ = _))

/-! ## Runs -/

inductive Call where
  | append (moduleId : Int32) (data : List UInt8)
  | flush (write : Nat → BufferedEntry → Except RC Unit)

/-- The buffer after a call that returns. -/
def step (buffer : LogEntryBuffer) : Call → Option LogEntryBuffer
  | .append moduleId data => (buffer.append moduleId data).map Prod.snd
  | .flush write => (buffer.flush write).map fun result => result.2.2

/-- The buffers between the calls of a run, as long as its calls return. -/
def states (buffer : LogEntryBuffer) : List Call → List LogEntryBuffer
  | [] => [buffer]
  | call :: calls =>
    buffer :: match buffer.step call with
      | some buffer' => buffer'.states calls
      | none => []

/-- The calls of a run that return, each with the buffer before it. -/
def steps (buffer : LogEntryBuffer) : List Call → List (LogEntryBuffer × Call)
  | [] => []
  | call :: calls =>
    match buffer.step call with
    | some buffer' => (buffer, call) :: buffer'.steps calls
    | none => []

/-- An append adds nothing or an entry without a payload, and a flush writes all entries. -/
def Counted (buffer : LogEntryBuffer) : Call → Prop
  | .append _ data => Int32.ofNat data.length = 0 ∨ maxPayloadSize < (Int32.ofNat data.length).toInt
  | .flush write => ∀ i entry, buffer.entries[i]? = some entry → write i entry = .ok ()

variable {buffer buffer' : LogEntryBuffer} {call : Call}

theorem buffered_append (entries : List BufferedEntry) (entry : BufferedEntry) :
    buffered (entries ++ [entry]) = buffered entries + entry.totalSize := by
  simp [buffered]

theorem buffered_cons (entry : BufferedEntry) (entries : List BufferedEntry) :
    buffered (entry :: entries) = entry.totalSize + buffered entries :=
  List.sum_cons

/-- An append counts a header, whatever it has put into the buffer. -/
theorem bytesExact_append_iff {moduleId : Int32} {data : List UInt8} (h : buffer.BytesExact)
    (hstep : buffer.step (.append moduleId data) = some buffer') :
    buffer'.BytesExact ↔ buffer.Counted (.append moduleId data) := by
  unfold step append at hstep
  unfold Counted
  split_ifs at hstep
  · cases hstep
  by_cases hlarge : maxPayloadSize < (Int32.ofNat data.length).toInt
  · simp only [BufferedEntry.init, if_pos hlarge, Option.map_some, Option.some.injEq] at hstep
    obtain rfl := hstep
    exact iff_of_true h (Or.inr hlarge)
  · simp only [BufferedEntry.init, if_neg hlarge, Option.map_some, Option.some.injEq] at hstep
    obtain rfl := hstep
    unfold BytesExact at h ⊢
    rw [buffered_append, h, Int.add_right_inj]
    unfold totalSize movedFrom
    simp only [hlarge, or_false]
    rw [Int.add_right_inj, ← Int32.toInt_inj]
    exact eq_comm

/-- A flush that stops at an entry has taken off its bytes and put it back. -/
theorem bytesExact_flushFrom_iff {write : Nat → BufferedEntry → Except RC Unit}
    {entries : List BufferedEntry} {count : Nat} {result : Except RC Unit × Nat × LogEntryBuffer}
    (h : buffer.bytes = buffered entries)
    (hflush : flushFrom write entries buffer count = some result) :
    result.2.2.BytesExact ↔
      ∀ i entry, entries[i]? = some entry → write (count + i) entry = .ok () := by
  induction entries generalizing buffer count with
  | nil =>
    obtain rfl := Option.some.inj hflush
    exact iff_of_true h (by simp)
  | cons entry rest ih =>
    rw [buffered_cons] at h
    unfold flushFrom at hflush
    split_ifs at hflush with hvalid
    cases hwrite : write count entry with
    | error rc =>
      rw [hwrite] at hflush
      obtain rfl := Option.some.inj hflush
      refine iff_of_false (fun hexact => ?_) fun hall => ?_
      · unfold BytesExact at hexact
        rw [buffered_cons] at hexact
        have htotal : entry.totalSize = LogHeader.headerSize + entry.header.size.toInt := rfl
        simp only at hexact
        omega
      · have := hall 0 entry rfl
        rw [Nat.add_zero, hwrite] at this
        cases this
    | ok =>
      rw [hwrite] at hflush
      rw [ih (by simp only; omega) hflush]
      constructor
      · intro hall i held hheld
        cases i with
        | zero =>
          obtain rfl := Option.some.inj hheld
          exact hwrite
        | succ i =>
          rw [Nat.add_succ, ← Nat.succ_add]
          exact hall i held hheld
      · intro hall i held hheld
        rw [Nat.succ_add, ← Nat.add_succ]
        exact hall (i + 1) held hheld

theorem bytesExact_step_iff (h : buffer.BytesExact) (hstep : buffer.step call = some buffer') :
    buffer'.BytesExact ↔ buffer.Counted call := by
  cases call with
  | append moduleId data => exact bytesExact_append_iff h hstep
  | flush write =>
    obtain ⟨result, hflush, rfl⟩ := Option.map_eq_some_iff.mp hstep
    have hiff := bytesExact_flushFrom_iff h hflush
    simp only [Nat.zero_add] at hiff
    exact hiff

theorem mem_states_self (buffer : LogEntryBuffer) (calls : List Call) :
    buffer ∈ buffer.states calls := by
  cases calls with
  | nil => exact List.mem_singleton_self buffer
  | cons call calls => exact List.mem_cons_self

/-- In every run the counter is right after every call exactly if every append adds nothing but
headers and every flush writes all entries. -/
theorem bytesExact_iff (buffer : LogEntryBuffer) (h : buffer.BytesExact) (calls : List Call) :
    (∀ t ∈ buffer.states calls, t.BytesExact) ↔ ∀ c ∈ buffer.steps calls, c.1.Counted c.2 := by
  induction calls generalizing buffer with
  | nil => simp [states, steps, h]
  | cons call calls ih =>
    unfold states steps
    cases hstep : buffer.step call with
    | none => simp [h]
    | some buffer' =>
      simp only [List.forall_mem_cons]
      rw [← bytesExact_step_iff h hstep]
      constructor
      · rintro ⟨-, hall⟩
        have h' := hall buffer' (mem_states_self buffer' calls)
        exact ⟨h', (ih buffer' h').mp hall⟩
      · rintro ⟨h', hall⟩
        exact ⟨h, (ih buffer' h').mpr hall⟩

/-- A flush, two entries without a payload, and a flush that does not take them. -/
def headersOnly : List Call :=
  [.flush fun _ _ => .ok (), .append 0 [], .append 1 [], .flush fun _ _ => .ok ()]

theorem bytesExact_headersOnly :
    (init 0 0).BytesExact ∧ ∀ t ∈ (init 0 0).states headersOnly, t.BytesExact := by
  refine ⟨rfl, (bytesExact_iff (init 0 0) rfl headersOnly).mpr ?_⟩
  have hsteps : (init 0 0).steps headersOnly = [(_, _), (_, _), (_, _)] := rfl
  rw [hsteps]
  simp only [List.forall_mem_cons]
  exact ⟨fun _ _ _ => rfl, Or.inl rfl, Or.inl rfl, by simp⟩

/-- The payload of an entry is not counted. -/
theorem append_not_counted :
    (init 0 0).BytesExact ∧ ∃ t ∈ (init 0 0).states [.append 0 [7]], ¬ t.BytesExact := by
  refine ⟨rfl, _, List.mem_of_getElem? (i := 1) rfl, ?_⟩
  decide

end LogEntryBuffer

end ObHtap.Clog
