import Mathlib.Data.List.TakeWhile
import Mathlib.Tactic.SplitIfs

/-!
# Requests of the plain protocol

`PlainCommunicator::read_event` (`plain_communicator.cpp`): a request is what comes before the first
zero byte, and has room in a buffer of a fixed size.
-/

namespace ObHtap

/-- What the calls of `::read` give, by their number and the number of bytes that are there and have
room: an error, or how many of them.  A call that is interrupted is made again. -/
structure Peer where
  gives : Nat → Nat → Option Nat
  gives_spec : ∀ {k n m}, gives k n = some m → 0 < n → 0 < m ∧ m ≤ n

/-- No call fails. -/
def Peer.Reliable (peer : Peer) : Prop :=
  ∀ k n, 0 < n → (peer.gives k n).isSome

/-- What `read_event` returns: `SUCCESS` with the query, or a return code. -/
inductive ReadOutcome where
  | success (query : List UInt8)
  | ioerrTooLong
  | ioerrClose
  | ioerrRead
  deriving DecidableEq

namespace PlainCommunicator

def maxPacketSize : Nat := 131072

/-- The loop of `read_event`, in so many rounds at most, with the bytes received and those to come
before the peer closes. -/
def readLoop (peer : Peer) : Nat → Nat → List UInt8 → List UInt8 → Option ReadOutcome
  | 0, _, _, _ => none
  | rounds + 1, calls, received, rest =>
    let there := min (maxPacketSize - received.length) rest.length
    -- a call for no bytes returns 0 as one does when the peer has closed
    if there = 0 then some .ioerrClose
    else
      match peer.gives calls there with
      | none => some .ioerrRead
      | some readLen =>
        let buf := received ++ rest.take readLen
        if maxPacketSize < readLen + received.length then some .ioerrTooLong
        else if 0 ∈ rest.take readLen then some (.success (buf.takeWhile (· ≠ 0)))
        else readLoop peer rounds (calls + 1) buf (rest.drop readLen)

/-- `PlainCommunicator::read_event` on the bytes that the peer sends before it closes. -/
def readEvent (peer : Peer) (stream : List UInt8) : Option ReadOutcome :=
  readLoop peer (maxPacketSize + 1) 0 [] stream

/-- What a request is. -/
def requestOf (stream : List UInt8) : ReadOutcome :=
  if 0 ∈ stream.take maxPacketSize then .success (stream.takeWhile (· ≠ 0))
  else if maxPacketSize ≤ stream.length then .ioerrTooLong
  else .ioerrClose

variable {peer : Peer} {received rest : List UInt8}

theorem takeWhile_append_of_mem {l l' : List UInt8} (h : 0 ∈ l) :
    (l ++ l').takeWhile (· ≠ 0) = l.takeWhile (· ≠ 0) := by
  induction l with
  | nil => cases h
  | cons b l ih =>
    by_cases hb : b = 0
    · rw [List.cons_append, List.takeWhile_cons_of_neg (by simpa using hb),
        List.takeWhile_cons_of_neg (by simpa using hb)]
    · rw [List.cons_append, List.takeWhile_cons_of_pos (by simpa using hb),
        List.takeWhile_cons_of_pos (by simpa using hb),
        ih ((List.mem_cons.mp h).resolve_left (Ne.symm hb))]

/-- The loop ends with the bytes before the first zero byte, or when it has no room left or the peer
has closed; by induction on the rounds, each of which receives a byte. -/
theorem readLoop_spec (hpeer : peer.Reliable) {rounds calls : Nat}
    (hroom : received.length ≤ maxPacketSize) (hzero : 0 ∉ received)
    (hrounds : maxPacketSize < rounds + received.length) :
    readLoop peer rounds calls received rest =
      some (if 0 ∈ (received ++ rest).take maxPacketSize then
        .success ((received ++ rest).takeWhile (· ≠ 0)) else .ioerrClose) := by
  induction rounds generalizing calls received rest with
  | zero => omega
  | succ rounds ih =>
    set there := min (maxPacketSize - received.length) rest.length with hthere
    have htake : (received ++ rest).take maxPacketSize =
        received ++ rest.take (maxPacketSize - received.length) := by
      rw [List.take_append, List.take_of_length_le hroom]
    by_cases hend : there = 0
    · have hnone : 0 ∉ (received ++ rest).take maxPacketSize := by
        have hnil : rest.take (maxPacketSize - received.length) = [] := by
          rw [List.take_eq_nil_iff, ← List.length_eq_zero_iff]
          omega
        rw [htake, hnil, List.append_nil]
        exact hzero
      rw [readLoop, if_neg hnone]
      exact if_pos hend
    · obtain ⟨readLen, hread⟩ :=
        Option.isSome_iff_exists.mp (hpeer calls there (Nat.pos_of_ne_zero hend))
      obtain ⟨hpos, hle⟩ := peer.gives_spec hread (Nat.pos_of_ne_zero hend)
      have hlength : (rest.take readLen).length = readLen := by
        rw [List.length_take]
        omega
      have hall : received ++ rest = received ++ rest.take readLen ++ rest.drop readLen := by
        rw [List.append_assoc, List.take_append_drop]
      rw [readLoop]
      change (if there = 0 then _ else _) = _
      rw [if_neg hend, hread]
      change (if maxPacketSize < readLen + received.length then _ else _) = _
      rw [if_neg (by omega)]
      by_cases hmem : 0 ∈ rest.take readLen
      · have hfound : 0 ∈ (received ++ rest).take maxPacketSize := by
          have hsub := List.take_subset_take_left rest
            (show readLen ≤ maxPacketSize - received.length by omega)
          rw [htake]
          exact List.mem_append_right _ (hsub hmem)
        rw [if_pos hmem, if_pos hfound, hall,
          takeWhile_append_of_mem (List.mem_append_right _ hmem)]
      · have hnot : 0 ∉ received ++ rest.take readLen := fun h =>
          (List.mem_append.mp h).elim hzero hmem
        rw [if_neg hmem, ih ?_ hnot ?_, ← hall]
        · rw [List.length_append, hlength]
          omega
        · rw [List.length_append, hlength]
          omega

/-- What is returned is a request however it has come in, or else that the peer has closed. -/
theorem readEvent_eq (hpeer : peer.Reliable) (stream : List UInt8) : readEvent peer stream =
    some (if 0 ∈ stream.take maxPacketSize then .success (stream.takeWhile (· ≠ 0))
      else .ioerrClose) :=
  readLoop_spec hpeer (Nat.zero_le _) List.not_mem_nil (Nat.lt_succ_self _)

theorem readsRequest_iff (peer : Peer) (hpeer : peer.Reliable) (stream : List UInt8) :
    readEvent peer stream = some (requestOf stream) ↔
      0 ∈ stream.take maxPacketSize ∨ stream.length < maxPacketSize := by
  rw [readEvent_eq hpeer, Option.some.injEq, requestOf]
  split_ifs with hfound hlong
  · exact iff_of_true rfl (Or.inl hfound)
  · exact iff_of_false nofun fun h => h.elim hfound (Nat.not_lt.mpr hlong)
  · exact iff_of_true rfl (Or.inr (Nat.lt_of_not_le hlong))

/-- A peer whose bytes come one by one. -/
def bytewise : Peer where
  gives _ _ := some 1
  gives_spec h hn := by
    cases h
    exact ⟨Nat.one_pos, hn⟩

/-- A request of one byte. -/
theorem readsRequest_bytewise : readEvent bytewise [65, 0] = some (requestOf [65, 0]) :=
  (readsRequest_iff bytewise (fun _ _ _ => rfl) [65, 0]).mpr (Or.inr (by decide))

/-- A request that fills the buffer. -/
theorem not_readsRequest_full : ¬ ∀ (peer : Peer) (stream : List UInt8), peer.Reliable →
    readEvent peer stream = some (requestOf stream) := by
  intro h
  have hfull := h bytewise (List.replicate maxPacketSize 65) fun _ _ _ => rfl
  have hnone : 0 ∉ (List.replicate maxPacketSize (65 : UInt8)).take maxPacketSize := fun hmem =>
    absurd (List.eq_of_mem_replicate (List.mem_of_mem_take hmem)) (by decide)
  rw [readEvent_eq fun _ _ _ => rfl, requestOf, if_neg hnone, if_neg hnone,
    if_pos (by rw [List.length_replicate])] at hfull
  cases hfull

end PlainCommunicator

end ObHtap
