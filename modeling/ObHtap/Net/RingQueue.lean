import ObHtap.Library.BoundedQueue
import ObHtap.Net.BufferedWriter

/-!
# Ring buffers as queues

The calls on a `RingBuffer` one after the other, and what a `BufferedWriter` makes of it.  The
positions are 32-bit integers; their sum in `read_pos` must not overflow.
-/

namespace ObHtap

namespace RingBuffer

variable {b : RingBuffer} {data : List UInt8}

/-- `read_pos` does not overflow. -/
def InRange (b : RingBuffer) : Prop :=
  b.writePos + b.capacity < 2 ^ 31 + b.dataSize

instance (b : RingBuffer) : Decidable b.InRange :=
  inferInstanceAs (Decidable (_ < _))

theorem inRange_of_capacity (h : b.capacity ≤ 2 ^ 30) : b.InRange := by
  have hlt := b.write_lt
  unfold InRange
  omega

/-- The loop of `RingBuffer::write`, with the number of bytes written; none where a position
overflows. -/
def writeLoop : Nat → RingBuffer → List UInt8 → Option (RingBuffer × Nat)
  | 0, b, _ => some (b, 0)
  | rounds + 1, b, data =>
    if h : data ≠ [] ∧ 0 < b.remain then
      if b.InRange then do
        let (b', size) ← writeLoop rounds
          (b.copy (data.take b.tmpBufSize) (length_take_tmpBufSize_le h))
          (data.drop b.tmpBufSize)
        some (b', (data.take b.tmpBufSize).length + size)
      else none
    else some (b, 0)

/-- `RingBuffer::buffer`, where a position may overflow. -/
def bufferCall (b : RingBuffer) : Option (List UInt8) :=
  if b.dataSize = 0 then some []
  else if b.InRange then some b.buffer
  else none

/-- The loop of `RingBuffer::read`, with the bytes read. -/
def readLoop : Nat → RingBuffer → Nat → Option (RingBuffer × List UInt8)
  | 0, b, _ => some (b, [])
  | rounds + 1, b, size =>
    if size = 0 ∨ b.dataSize = 0 then some (b, [])
    else do
      let chunk := (← b.bufferCall).take size
      let (b', bytes) ← readLoop rounds (b.forward chunk.length) (size - chunk.length)
      some (b', chunk ++ bytes)

/-- A call on the buffer with its answer. -/
def perform (b : RingBuffer) : QueueCall UInt8 → Option (RingBuffer × QueueAnswer UInt8)
  | .write size data _ =>
    if size < 0 then some (b, .refused)
    else (writeLoop size.toNat b (data.take size.toNat)).map fun (b', n) => (b', .size n)
  | .read size =>
    if size < 0 then some (b, .refused)
    else (readLoop size.toNat b size.toNat).map fun (b', bytes) => (b', .elements bytes)
  | .buffer => b.bufferCall.map fun bytes => (b, .elements bytes)
  | .forward size =>
    if size ≤ 0 ∨ b.dataSize < size then some (b, .refused)
    else some (b.forward size.toNat, .done)

/-- The calls one after the other, with their answers. -/
def performs : RingBuffer → List (QueueCall UInt8) →
    Option (RingBuffer × List (QueueCall UInt8 × QueueAnswer UInt8))
  | b, [] => some (b, [])
  | b, call :: calls => do
    let (b', answer) ← b.perform call
    let (b'', answers) ← performs b' calls
    some (b'', (call, answer) :: answers)

/-! ## One call -/

theorem writeLoop_eq {rounds : Nat} (h : b.capacity ≤ 2 ^ 30) :
    writeLoop rounds b data = some (write rounds b data) := by
  induction rounds generalizing b data with
  | zero => rfl
  | succ rounds ih =>
    rw [writeLoop, write]
    split_ifs with hmore hrange
    · rw [ih (b := b.copy _ _) h]
      rfl
    · exact absurd (inRange_of_capacity h) hrange
    · rfl

theorem bufferCall_eq (h : b.capacity ≤ 2 ^ 30) : b.bufferCall = some b.buffer := by
  unfold bufferCall
  split_ifs with hzero hrange
  · rw [buffer, if_pos hzero]
  · rfl
  · exact absurd (inRange_of_capacity h) hrange

/-- By induction on the rounds: each takes a byte off the front. -/
theorem readLoop_spec {rounds size : Nat} (h : b.capacity ≤ 2 ^ 30) (hsize : size ≤ rounds) :
    ∃ b', readLoop rounds b size = some (b', b.contents.take size) ∧
      b'.contents = b.contents.drop size ∧ b'.capacity = b.capacity := by
  induction rounds generalizing b size with
  | zero =>
    obtain rfl : size = 0 := Nat.le_zero.mp hsize
    exact ⟨b, rfl, rfl, rfl⟩
  | succ rounds ih =>
    rw [readLoop]
    split_ifs with hend
    · have hnone : b.contents.take size = [] ∧ b.contents.drop size = b.contents := by
        rcases hend with rfl | hzero
        · exact ⟨rfl, rfl⟩
        · rw [contents_eq_nil hzero]
          exact ⟨List.take_nil, List.drop_nil⟩
      exact ⟨b, by rw [hnone.1], hnone.2.symm, rfl⟩
    · obtain ⟨hpos, hdata⟩ := not_or.mp hend
      rw [bufferCall_eq h]
      have hle := b.length_buffer_le
      have hbuffer := b.buffer_spec.2 (Nat.pos_of_ne_zero hdata)
      set n := (b.buffer.take size).length with hn
      have hlength : n = min size b.buffer.length := List.length_take
      have hchunk : b.buffer.take size = b.contents.take n := by
        rw [← take_buffer (by omega), hlength, List.take_eq_take_min]
      obtain ⟨b', hread, hcontents, hcapacity⟩ := @ih (b.forward n) (size - n) h (by omega)
      refine ⟨b', ?_, ?_, hcapacity⟩
      · change Option.bind (readLoop rounds (b.forward n) (size - n)) _ = _
        rw [hread]
        change some (b', b.buffer.take size ++ (b.forward n).contents.take (size - n)) = _
        rw [hchunk, contents_forward (by omega), ← List.take_add, Nat.add_sub_cancel' (by omega)]
      · rw [hcontents, contents_forward (by omega), List.drop_drop, Nat.add_sub_cancel' (by omega)]

/-- A call on a buffer is one on the queue of its bytes. -/
theorem perform_spec (h : b.capacity ≤ 2 ^ 30) (call : QueueCall UInt8) :
    ∃ b' answer out, b.perform call = some (b', answer) ∧
      QueueStep b.capacity b.contents call answer out b'.contents ∧ b'.capacity = b.capacity := by
  have hlength := b.length_contents
  cases call with
  | write size data hdata =>
    rw [perform]
    split_ifs with hneg
    · exact ⟨b, .refused, [], rfl, .refused hneg, rfl⟩
    · obtain ⟨hcontents, hsize, hcapacity⟩ := @write_spec b (data.take size.toNat) size.toNat
        (List.length_take_le _ _)
      have hn : (write size.toNat b (data.take size.toNat)).2 =
          min size.toNat (b.capacity - b.contents.length) := by
        rw [hsize, List.length_take, hlength, remain]
        omega
      refine ⟨_, _, [], by rw [writeLoop_eq h]; rfl, ?_, hcapacity⟩
      have htake : min b.remain size.toNat = (write size.toNat b (data.take size.toNat)).2 := by
        rw [hn, hlength, remain, Nat.min_comm]
      rw [hcontents, List.take_take, htake]
      exact .write hdata (Int.not_lt.mp hneg) hn
  | read size =>
    rw [perform]
    split_ifs with hneg
    · exact ⟨b, .refused, [], rfl, .refused hneg, rfl⟩
    · obtain ⟨b', hread, hcontents, hcapacity⟩ := readLoop_spec h (Nat.le_refl size.toNat)
      refine ⟨b', _, b.contents.take size.toNat, by rw [hread]; rfl, ?_, hcapacity⟩
      rw [hcontents]
      exact .read (Int.not_lt.mp hneg)
  | buffer =>
    refine ⟨b, .elements b.buffer, [], ?_, ?_, rfl⟩
    · rw [perform, bufferCall_eq h]
      rfl
    · rw [b.buffer_spec.1]
      refine .buffer ?_ fun hne => b.buffer_spec.2 ?_
      · rw [hlength]
        exact b.length_buffer_le
      · rw [← hlength]
        exact List.length_pos_iff.mpr hne
  | forward size =>
    rw [perform]
    split_ifs with hbad
    · exact ⟨b, .refused, [], rfl, .refused (by rwa [QueueCall.Refused, hlength]), rfl⟩
    · refine ⟨_, _, b.contents.take size.toNat, rfl, ?_, rfl⟩
      rw [contents_forward (by omega)]
      exact .forward (by omega) (by omega)

/-! ## All calls -/

/-- A buffer of so many bytes answers all calls as a queue does. -/
def IsQueue (capacity : Nat) (h : 0 < capacity) : Prop :=
  ∀ calls : List (QueueCall UInt8), ∃ b answers out,
    (create capacity h).performs calls = some (b, answers) ∧ answers.map Prod.fst = calls ∧
      QueueRun capacity [] answers out b.contents

theorem performs_spec (h : b.capacity ≤ 2 ^ 30) (calls : List (QueueCall UInt8)) :
    ∃ b' answers out, b.performs calls = some (b', answers) ∧ answers.map Prod.fst = calls ∧
      QueueRun b.capacity b.contents answers out b'.contents := by
  induction calls generalizing b with
  | nil => exact ⟨b, [], [], rfl, rfl, .nil _⟩
  | cons call calls ih =>
    obtain ⟨b₁, answer, out, hone, hstep, hcapacity⟩ := perform_spec h call
    obtain ⟨b₂, answers, out', hrest, hcalls, hrun⟩ := @ih b₁ (hcapacity ▸ h)
    refine ⟨b₂, (call, answer) :: answers, out ++ out', ?_, ?_, ?_⟩
    · rw [performs, hone]
      change Option.bind (b₁.performs calls) _ = _
      rw [hrest]
      rfl
    · rw [List.map_cons, hcalls]
    · exact .cons hstep (hcapacity ▸ hrun)

theorem isQueue_of_capacity {capacity : Nat} (h : 0 < capacity) (hle : capacity ≤ 2 ^ 30) :
    IsQueue capacity h := by
  intro calls
  have hspec := performs_spec (b := create capacity h) hle calls
  exact hspec

theorem writeLoop_nil (rounds : Nat) (b : RingBuffer) : writeLoop rounds b [] = some (b, 0) := by
  cases rounds with
  | zero => rfl
  | succ rounds => exact dif_neg fun h => h.1 rfl

/-- The first bytes are copied in one round. -/
theorem writeLoop_create {capacity : Nat} (h : 0 < capacity) (rounds : Nat)
    (hne : data ≠ []) (hle : data.length ≤ capacity) (hint : capacity < 2 ^ 31) :
    ∃ b, writeLoop (rounds + 1) (create capacity h) data = some (b, data.length) ∧
      b.capacity = capacity ∧ b.dataSize = data.length ∧ b.writePos = data.length % capacity := by
  have hread : (create capacity h).readPos = 0 := (create capacity h).readPos_eq.trans rfl
  have htmp : (create capacity h).tmpBufSize = capacity := by
    rw [tmpBufSize, hread]
    rfl
  have hall : data.take (create capacity h).tmpBufSize = data := by
    rw [htmp]
    exact List.take_of_length_le hle
  have hnone : data.drop (create capacity h).tmpBufSize = [] := by
    rw [htmp]
    exact List.drop_of_length_le hle
  have hrange : (create capacity h).InRange := by
    change 0 + capacity < 2 ^ 31 + 0
    omega
  have hcount : (data.take (create capacity h).tmpBufSize).length = data.length :=
    congrArg List.length hall
  rw [writeLoop, dif_pos ⟨hne, h⟩, if_pos hrange, hnone, writeLoop_nil]
  refine ⟨_, congrArg some (Prod.ext rfl hcount), rfl, ?_, ?_⟩
  · exact (Nat.zero_add _).trans hcount
  · exact congrArg (· % capacity) ((Nat.zero_add _).trans hcount)

/-- In a buffer of more than a gibibyte, `read_pos` overflows behind the bytes that have been taken
out. -/
theorem not_isQueue {capacity : Nat} (h : 0 < capacity) (hbig : 2 ^ 30 < capacity)
    (hint : capacity < 2 ^ 31) : ¬ IsQueue capacity h := by
  intro hqueue
  obtain ⟨n, hn⟩ : ∃ n, 2 ^ 31 - capacity = n + 1 := ⟨2 ^ 31 - capacity - 1, by omega⟩
  have hlength : (List.replicate (n + 1) (0 : UInt8)).length = n + 1 := List.length_replicate
  have hne : List.replicate (n + 1) (0 : UInt8) ≠ [] := List.cons_ne_nil _ _
  obtain ⟨b₁, hloop, hcapacity, hsize, hpos⟩ := writeLoop_create h n hne (by omega) hint
  rw [hlength] at hsize hpos
  rw [Nat.mod_eq_of_lt (by omega)] at hpos
  have hwrite : (create capacity h).perform (.write (n + 1 : Nat) (List.replicate (n + 1) 0)
      (by omega)) = some (b₁, .size (n + 1)) := by
    have htake : (List.replicate (n + 1) (0 : UInt8)).take (n + 1) = List.replicate (n + 1) 0 :=
      List.take_of_length_le (by omega)
    rw [perform, if_neg (by omega)]
    change (writeLoop (n + 1) _ (List.take (n + 1) _)).map _ = _
    rw [htake, hloop, hlength]
    rfl
  have hforward : b₁.perform (.forward (n + 1 : Nat)) = some (b₁.forward (n + 1), .done) := by
    rw [perform, if_neg (by omega)]
    rfl
  have hlast : (b₁.forward (n + 1)).perform (.write 1 [0] (by decide)) = none := by
    have hempty : (b₁.forward (n + 1)).dataSize = 0 := by
      change (if b₁.dataSize < n + 1 then b₁.dataSize else b₁.dataSize - (n + 1)) = 0
      rw [hsize, if_neg (Nat.lt_irrefl _), Nat.sub_self]
    have hroom : 0 < (b₁.forward (n + 1)).remain := by
      unfold remain
      rw [hempty]
      change 0 < b₁.capacity - 0
      omega
    have hout : ¬ (b₁.forward (n + 1)).InRange := by
      unfold InRange
      rw [hempty]
      change ¬ b₁.writePos + b₁.capacity < 2 ^ 31 + 0
      omega
    rw [perform, if_neg (by decide)]
    change (writeLoop 1 _ [0]).map _ = none
    rw [writeLoop, dif_pos ⟨List.cons_ne_nil _ _, hroom⟩, if_neg hout]
    rfl
  obtain ⟨b, answers, out, hperforms, -, -⟩ := hqueue [.write (n + 1 : Nat)
    (List.replicate (n + 1) 0) (by omega), .forward (n + 1 : Nat), .write 1 [0] (by decide)]
  rw [performs, hwrite] at hperforms
  change Option.bind ((b₁.performs _)) _ = _ at hperforms
  rw [performs, hforward] at hperforms
  change Option.bind (Option.bind ((b₁.forward (n + 1)).performs _) _) _ = _ at hperforms
  rw [performs, hlast] at hperforms
  cases hperforms

end RingBuffer

/-! ## Writers -/

inductive WriterCall where
  | writen (data : List UInt8)
  | flush

/-- What the calls have written. -/
def WriterCall.written : List WriterCall → List UInt8
  | [] => []
  | .writen data :: calls => data ++ written calls
  | .flush :: calls => written calls

namespace BufferedWriter

def perform (socket : Socket) : WriterCall → WriteM Unit
  | .writen data => writen socket data
  | .flush => do
    let w ← get
    flush socket w.ring.dataSize

/-- A writer with a buffer of so many bytes hands on what is written to it: what is sent and what is
still in the buffer. -/
def IsTransparent (capacity : Nat) (h : 0 < capacity) : Prop :=
  ∀ (socket : Socket) (fd : Int) (calls : List WriterCall), socket.Reliable → 0 ≤ fd →
    Triple (fun w => w = ⟨fd, RingBuffer.create capacity h, [], 0⟩)
      (calls.forM (perform socket))
      (fun _ w => w.sent ++ w.ring.contents = WriterCall.written calls ∧ w.ring.InRange)
      fun _ _ => False

variable {socket : Socket} {w : BufferedWriter}

theorem perform_spec (hsocket : socket.Reliable) (hfd : 0 ≤ w.fd) (call : WriterCall) :
    Triple (fun s => s = w) (perform socket call)
      (fun _ s => s.sent ++ s.ring.contents =
          w.sent ++ w.ring.contents ++ WriterCall.written [call] ∧
        s.ring.capacity = w.ring.capacity ∧ s.fd = w.fd) fun _ _ => False := by
  cases call with
  | writen data =>
    refine (writen_spec hsocket hfd).post fun _ s h => ⟨?_, h.capacity, h.fd⟩
    exact h.all.trans (congrArg (_ ++ ·) (List.append_nil data).symm)
  | flush =>
    refine Triple.get_bind ((flush_spec hsocket hfd (Nat.le_refl _)).post fun _ s h => ?_)
    exact ⟨h.1.all.trans (List.append_nil _).symm, h.1.capacity, h.1.fd⟩

theorem performs_spec (hsocket : socket.Reliable) (hfd : 0 ≤ w.fd) (calls : List WriterCall) :
    Triple (fun s => s = w) (calls.forM (perform socket))
      (fun _ s => s.sent ++ s.ring.contents =
          w.sent ++ w.ring.contents ++ WriterCall.written calls ∧
        s.ring.capacity = w.ring.capacity) fun _ _ => False := by
  induction calls generalizing w with
  | nil =>
    refine Triple.pure ?_
    rintro s rfl
    exact ⟨(List.append_nil _).symm, rfl⟩
  | cons call calls ih =>
    refine (perform_spec hsocket hfd call).bind fun _ => ?_
    rintro s ⟨hall, hcapacity, hsfd⟩
    refine (@ih s (hsfd ▸ hfd)).post ?_ s rfl
    rintro _ s' ⟨hall', hcapacity'⟩
    refine ⟨?_, hcapacity'.trans hcapacity⟩
    rw [hall', hall, List.append_assoc]
    cases call with
    | writen data =>
      rw [WriterCall.written, WriterCall.written, WriterCall.written, List.append_nil]
    | flush => rfl

theorem isTransparent_of_capacity {capacity : Nat} (h : 0 < capacity) (hle : capacity ≤ 2 ^ 30) :
    IsTransparent capacity h := by
  intro socket fd calls hsocket hfd
  refine (performs_spec (w := ⟨fd, _, [], 0⟩) hsocket hfd calls).post fun _ s hs => ⟨hs.1, ?_⟩
  exact RingBuffer.inRange_of_capacity (hs.2 ▸ hle)

end BufferedWriter

/-- Ring buffers and writers keep what is written up to a capacity of a gibibyte. -/
theorem keepsWritten_iff {capacity : Nat} (h : 0 < capacity) (hint : capacity < 2 ^ 31) :
    RingBuffer.IsQueue capacity h ∧ BufferedWriter.IsTransparent capacity h ↔
      capacity ≤ 2 ^ 30 := by
  constructor
  · intro ⟨hqueue, _⟩
    by_contra hbig
    exact RingBuffer.not_isQueue h (Nat.lt_of_not_le hbig) hint hqueue
  · exact fun hle =>
      ⟨RingBuffer.isQueue_of_capacity h hle, BufferedWriter.isTransparent_of_capacity h hle⟩

/-- The default size. -/
theorem keepsWritten_default :
    RingBuffer.IsQueue 131072 (by decide) ∧ BufferedWriter.IsTransparent 131072 (by decide) :=
  (keepsWritten_iff (by decide) (by decide)).mpr (by decide)

theorem not_keepsWritten_largest : ¬ ∀ (capacity : Nat) (h : 0 < capacity), capacity < 2 ^ 31 →
    RingBuffer.IsQueue capacity h ∧ BufferedWriter.IsTransparent capacity h := fun h =>
  RingBuffer.not_isQueue (by decide) (by decide) (by decide)
    (h (2 ^ 31 - 1) (by decide) (by decide)).1

end ObHtap
