import ObHtap.Common.RC
import ObHtap.Library.Triple
import ObHtap.Net.RingBuffer

/-!
# Buffered writers

`BufferedWriter` (`buffered_writer.cpp`) collects in a ring buffer what is written to a socket.  A
full buffer is flushed; so as long as all that has been written has room in the buffer, none of it
is sent.
-/

namespace ObHtap

/-- What becomes of the calls of `::write`, by their number and the bytes to write: an error, or
the number of bytes that are taken.  A call that is interrupted is made again. -/
structure Socket where
  accepts : Nat → Nat → Option Nat
  accepts_spec : ∀ {k n m}, accepts k n = some m → 0 < n → 0 < m ∧ m ≤ n

/-- No call fails. -/
def Socket.Reliable (socket : Socket) : Prop :=
  ∀ k n, 0 < n → (socket.accepts k n).isSome

/-- A writer with what the peer has received so far and the number of calls of `::write`. -/
structure BufferedWriter where
  fd : Int
  ring : RingBuffer
  sent : List UInt8
  calls : Nat

abbrev WriteM := EStateM RC BufferedWriter

namespace BufferedWriter

variable (socket : Socket)

/-- `BufferedWriter::flush_internal`, in so many rounds at most, until so many bytes are sent. -/
def flushInternal : Nat → Nat → WriteM Unit
  | 0, _ => pure ()
  | rounds + 1, size => do
    let w ← get
    if w.fd < 0 then throw .invalidArgument
    else if w.ring.dataSize = 0 ∨ size = 0 then pure ()
    else
      match socket.accepts w.calls w.ring.buffer.length with
      | none => throw .ioerrWrite
      | some n =>
        set { w with
          ring := w.ring.forward n
          sent := w.sent ++ w.ring.buffer.take n
          calls := w.calls + 1 }
        flushInternal rounds (size - n)

/-- The first half of `BufferedWriter::write`: a full buffer is flushed. -/
def makeRoom (size : Nat) : WriteM Unit := do
  let w ← get
  if w.ring.remain = 0 then flushInternal socket w.ring.dataSize size else pure ()

/-- `BufferedWriter::write`, with the number of bytes written. -/
def write (data : List UInt8) : WriteM Nat := do
  let w ← get
  if w.fd < 0 then throw .invalidArgument
  else do
    makeRoom socket data.length
    modifyGet fun w =>
      ((w.ring.write data.length data).2, { w with ring := (w.ring.write data.length data).1 })

/-- `BufferedWriter::writen`, in so many rounds at most. -/
def writenRounds : Nat → List UInt8 → WriteM Unit
  | 0, _ => pure ()
  | rounds + 1, data => do
    if data = [] then pure ()
    else
      let size ← write socket data
      writenRounds rounds (data.drop size)

/-- `BufferedWriter::writen`. -/
def writen (data : List UInt8) : WriteM Unit := do
  let w ← get
  if w.fd < 0 then throw .invalidArgument
  else writenRounds socket data.length data

/-- `BufferedWriter::flush`, in so many rounds at most. -/
def flush : Nat → WriteM Unit
  | 0 => pure ()
  | rounds + 1 => do
    let w ← get
    if w.fd < 0 then throw .invalidArgument
    else if w.ring.dataSize = 0 then pure ()
    else
      flushInternal socket w.ring.dataSize w.ring.dataSize
      flush rounds

/-- `BufferedWriter::clear_buffer`. -/
def clearBuffer : WriteM Unit :=
  modify fun w => { w with ring := w.ring.clear }

/-! ## What is written is sent or waits -/

/-- Bytes have been written: they are behind those that had been written before, and as long as
there is room for them nothing is sent. -/
structure Wrote (w : BufferedWriter) (data : List UInt8) (w' : BufferedWriter) : Prop where
  all : w'.sent ++ w'.ring.contents = w.sent ++ w.ring.contents ++ data
  sent : w.sent <+: w'.sent
  kept : w.ring.dataSize + data.length ≤ w.ring.capacity → w'.sent = w.sent
  capacity : w'.ring.capacity = w.ring.capacity
  fd : w'.fd = w.fd

variable {socket} {w w' w'' : BufferedWriter} {data data' : List UInt8}

theorem Wrote.refl (w : BufferedWriter) : Wrote w [] w :=
  ⟨(List.append_nil _).symm, List.prefix_refl _, fun _ => rfl, rfl, rfl⟩

theorem Wrote.size (h : Wrote w data w') :
    w'.sent.length + w'.ring.dataSize = w.sent.length + w.ring.dataSize + data.length := by
  have hlength := congrArg List.length h.all
  simpa only [List.length_append, RingBuffer.length_contents] using hlength

theorem Wrote.trans (h : Wrote w data w') (h' : Wrote w' data' w'') :
    Wrote w (data ++ data') w'' where
  all := by rw [h'.all, h.all, List.append_assoc]
  sent := h.sent.trans h'.sent
  kept hroom := by
    rw [List.length_append] at hroom
    have hsent := h.kept (by omega)
    have hsize := h.size
    rw [hsent] at hsize
    have hcapacity := h.capacity
    rw [h'.kept (by omega), hsent]
  capacity := h'.capacity.trans h.capacity
  fd := h'.fd.trans h.fd

/-- Nothing is sent exactly as long as there is room. -/
theorem Wrote.sent_eq_iff (h : Wrote w data w') :
    w'.sent = w.sent ↔ w.ring.dataSize + data.length ≤ w.ring.capacity := by
  refine ⟨fun hsent => ?_, h.kept⟩
  have hsize := h.size
  have hle := w'.ring.size_le
  have hcapacity := h.capacity
  rw [hsent] at hsize
  omega

/-- Bytes that wait are sent. -/
structure Flushed (w w' : BufferedWriter) : Prop where
  all : w'.sent ++ w'.ring.contents = w.sent ++ w.ring.contents
  sent : w.sent <+: w'.sent
  capacity : w'.ring.capacity = w.ring.capacity
  fd : w'.fd = w.fd

theorem Flushed.refl (w : BufferedWriter) : Flushed w w := ⟨rfl, List.prefix_refl _, rfl, rfl⟩

theorem Flushed.trans (h : Flushed w w') (h' : Flushed w' w'') : Flushed w w'' :=
  ⟨h'.all.trans h.all, h.sent.trans h'.sent, h'.capacity.trans h.capacity, h'.fd.trans h.fd⟩

theorem Flushed.size_le (h : Flushed w w') : w'.ring.dataSize ≤ w.ring.dataSize := by
  have hlength := congrArg List.length h.all
  have hsent := h.sent.length_le
  rw [List.length_append, List.length_append, RingBuffer.length_contents,
    RingBuffer.length_contents] at hlength
  omega

/-- By induction on the rounds: each call of `::write` sends something. -/
theorem flushInternal_spec (hsocket : socket.Reliable) (hfd : 0 ≤ w.fd) {rounds size : Nat}
    (hrounds : w.ring.dataSize ≤ rounds) :
    Triple (fun s => s = w) (flushInternal socket rounds size)
      (fun _ s => Flushed w s ∧ (0 < size → 0 < w.ring.dataSize →
          s.ring.dataSize < w.ring.dataSize) ∧
        (w.ring.dataSize ≤ size → s.ring.dataSize = 0)) fun _ _ => False := by
  induction rounds generalizing w size with
  | zero =>
    refine Triple.pure ?_
    rintro s rfl
    have hzero := Nat.le_zero.mp hrounds
    exact ⟨.refl s, fun _ hpos => absurd hzero (Nat.ne_of_gt hpos), fun _ => hzero⟩
  | succ rounds ih =>
    unfold flushInternal
    apply Triple.get_bind
    rw [if_neg (Int.not_lt.mpr hfd)]
    by_cases hend : w.ring.dataSize = 0 ∨ size = 0
    · rw [if_pos hend]
      refine Triple.pure ?_
      rintro s rfl
      refine ⟨.refl s, fun hsize hpos => ?_, fun hle => ?_⟩
      · omega
      · omega
    · rw [if_neg hend]
      obtain ⟨hdata, hsize⟩ := not_or.mp hend
      have hpos := w.ring.buffer_spec.2 (Nat.pos_of_ne_zero hdata)
      have hbuffer := w.ring.length_buffer_le
      obtain ⟨n, hn⟩ := Option.isSome_iff_exists.mp (hsocket w.calls _ hpos)
      obtain ⟨hnpos, hnle⟩ := socket.accepts_spec hn hpos
      have hndata : n ≤ w.ring.dataSize := Nat.le_trans hnle hbuffer
      rw [hn]
      dsimp only
      have hleft : (w.ring.forward n).dataSize = w.ring.dataSize - n :=
        if_neg (Nat.not_lt.mpr hndata)
      set w₁ : BufferedWriter :=
        ⟨w.fd, w.ring.forward n, w.sent ++ w.ring.buffer.take n, w.calls + 1⟩ with hw₁
      have hone : Flushed w w₁ := by
        refine ⟨?_, List.prefix_append _ _, rfl, rfl⟩
        rw [hw₁, List.append_assoc, RingBuffer.take_buffer hnle,
          RingBuffer.contents_forward hndata, List.take_append_drop]
      refine Triple.bind (Q := fun _ s => s = w₁) (Triple.set fun _ _ => rfl) fun _ => ?_
      refine (@ih w₁ hfd (size - n) ?_).post ?_
      · change (w.ring.forward n).dataSize ≤ rounds
        omega
      · rintro _ s ⟨hrest, -, hall⟩
        have hle := hrest.size_le
        change s.ring.dataSize ≤ (w.ring.forward n).dataSize at hle
        change (w.ring.forward n).dataSize ≤ size - n → _ at hall
        refine ⟨hone.trans hrest, fun _ _ => by omega, fun hsmall => hall (by omega)⟩

theorem makeRoom_spec (hsocket : socket.Reliable) (hfd : 0 ≤ w.fd) {size : Nat}
    (hsize : 0 < size) :
    Triple (fun s => s = w) (makeRoom socket size)
      (fun _ s => Flushed w s ∧ 0 < s.ring.remain ∧ (0 < w.ring.remain → s.sent = w.sent))
      fun _ _ => False := by
  unfold makeRoom
  apply Triple.get_bind
  by_cases hfull : w.ring.remain = 0
  · rw [if_pos hfull]
    refine (flushInternal_spec hsocket hfd (Nat.le_refl _)).post ?_
    rintro _ s ⟨hflushed, hless, -⟩
    have hcapacity := hflushed.capacity
    have hle := w.ring.size_le
    have hlt := w.ring.write_lt
    unfold RingBuffer.remain at hfull ⊢
    have hdata := hless hsize (by omega)
    exact ⟨hflushed, by omega, fun hroom => absurd hfull (Nat.ne_of_gt hroom)⟩
  · rw [if_neg hfull]
    refine Triple.pure ?_
    rintro s rfl
    exact ⟨.refl s, Nat.pos_of_ne_zero hfull, fun _ => rfl⟩

theorem write_spec (hsocket : socket.Reliable) (hfd : 0 ≤ w.fd) (hdata : data ≠ []) :
    Triple (fun s => s = w) (write socket data)
      (fun size s => Wrote w (data.take size) s ∧ 0 < size) fun _ _ => False := by
  have hpos := List.length_pos_iff.mpr hdata
  unfold write
  apply Triple.get_bind
  rw [if_neg (Int.not_lt.mpr hfd)]
  refine (makeRoom_spec hsocket hfd hpos).bind fun _ => Triple.modifyGet ?_
  rintro s ⟨hflushed, hroom, hkept⟩
  obtain ⟨hcontents, hsize, hcapacity⟩ :=
    @RingBuffer.write_spec s.ring data data.length (Nat.le_refl _)
  have htake : data.take s.ring.remain = data.take (s.ring.write data.length data).2 := by
    rw [hsize]
    rcases Nat.le_total data.length s.ring.remain with hshort | hlong
    · rw [Nat.min_eq_left hshort, List.take_of_length_le hshort, List.take_length]
    · rw [Nat.min_eq_right hlong]
  refine ⟨⟨?_, hflushed.sent, fun hfits => ?_, hcapacity.trans hflushed.capacity, hflushed.fd⟩,
    by omega⟩
  · dsimp only
    rw [hcontents, htake, ← List.append_assoc, hflushed.all]
  · apply hkept
    rw [List.length_take] at hfits
    unfold RingBuffer.remain
    omega

theorem writenRounds_spec (hsocket : socket.Reliable) {rounds : Nat} (hfd : 0 ≤ w.fd)
    (hrounds : data.length ≤ rounds) :
    Triple (fun s => s = w) (writenRounds socket rounds data) (fun _ s => Wrote w data s)
      fun _ _ => False := by
  induction rounds generalizing w data with
  | zero =>
    obtain rfl : data = [] := List.eq_nil_of_length_eq_zero (Nat.le_zero.mp hrounds)
    refine Triple.pure ?_
    rintro s rfl
    exact .refl s
  | succ rounds ih =>
    unfold writenRounds
    by_cases hdata : data = []
    · rw [if_pos hdata, hdata]
      refine Triple.pure ?_
      rintro s rfl
      exact .refl s
    · rw [if_neg hdata]
      refine (write_spec hsocket hfd hdata).bind fun size => ?_
      rintro s ⟨hwrote, hsize⟩
      have hrest := @ih s (data.drop size) (hwrote.fd ▸ hfd) (by rw [List.length_drop]; omega)
      refine hrest.post ?_ s rfl
      intro _ s' hwrote'
      have hboth := hwrote.trans hwrote'
      rwa [List.take_append_drop] at hboth

theorem writen_spec (hsocket : socket.Reliable) (hfd : 0 ≤ w.fd) :
    Triple (fun s => s = w) (writen socket data) (fun _ s => Wrote w data s)
      fun _ _ => False := by
  unfold writen
  apply Triple.get_bind
  rw [if_neg (Int.not_lt.mpr hfd)]
  exact writenRounds_spec hsocket hfd (Nat.le_refl _)

theorem flush_spec (hsocket : socket.Reliable) (hfd : 0 ≤ w.fd) {rounds : Nat}
    (hrounds : w.ring.dataSize ≤ rounds) :
    Triple (fun s => s = w) (flush socket rounds)
      (fun _ s => Flushed w s ∧ s.ring.dataSize = 0) fun _ _ => False := by
  induction rounds generalizing w with
  | zero =>
    refine Triple.pure ?_
    rintro s rfl
    exact ⟨.refl s, Nat.le_zero.mp hrounds⟩
  | succ rounds ih =>
    unfold flush
    apply Triple.get_bind
    rw [if_neg (Int.not_lt.mpr hfd)]
    by_cases hempty : w.ring.dataSize = 0
    · rw [if_pos hempty]
      refine Triple.pure ?_
      rintro s rfl
      exact ⟨.refl s, hempty⟩
    · rw [if_neg hempty]
      refine (flushInternal_spec hsocket hfd (Nat.le_refl _)).bind fun _ => ?_
      rintro s ⟨hflushed, -, hall⟩
      have hzero := hall (Nat.le_refl _)
      refine (@ih s (hflushed.fd ▸ hfd) (by omega)).post ?_ s rfl
      rintro _ s' ⟨hflushed', hempty'⟩
      exact ⟨hflushed.trans hflushed', hempty'⟩

end BufferedWriter

end ObHtap
