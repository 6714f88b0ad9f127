import Mathlib.Data.List.Basic

/-!
# Bounded queues

What the calls on a first-in-first-out queue of a fixed capacity answer.  A queue may show less than
all that is in it, but what it shows is at its front.
-/

namespace ObHtap

/-- A call on a queue.  A size may be out of range, but what is written has as many elements. -/
inductive QueueCall (α : Type) where
  | write (size : Int) (data : List α) (h : size ≤ data.length)
  | read (size : Int)
  | buffer
  | forward (size : Int)

inductive QueueAnswer (α : Type) where
  | refused
  | size (n : Nat)
  | elements (elements : List α)
  | done

namespace QueueCall

variable {α : Type}

/-- A size is out of range. -/
def Refused (length : Nat) : QueueCall α → Prop
  | write size _ _ | read size => size < 0
  | buffer => False
  | forward size => size ≤ 0 ∨ length < size

end QueueCall

variable {α : Type} {capacity : Nat} {contents after out : List α}

/-- A call on a queue with its answer, what it takes out, and what is in the queue then. -/
inductive QueueStep (capacity : Nat) (contents : List α) :
    QueueCall α → QueueAnswer α → List α → List α → Prop where
  | refused {call : QueueCall α} (h : call.Refused contents.length) :
    QueueStep capacity contents call .refused [] contents
  | write {size : Int} {data : List α} (hdata : size ≤ data.length) (h : 0 ≤ size) {n : Nat}
    (hn : n = min size.toNat (capacity - contents.length)) :
    QueueStep capacity contents (.write size data hdata) (.size n) [] (contents ++ data.take n)
  | read {size : Int} (h : 0 ≤ size) :
    QueueStep capacity contents (.read size) (.elements (contents.take size.toNat))
      (contents.take size.toNat) (contents.drop size.toNat)
  | buffer {n : Nat} (hn : n ≤ contents.length) (hpos : contents ≠ [] → 0 < n) :
    QueueStep capacity contents .buffer (.elements (contents.take n)) [] contents
  | forward {size : Int} (h : 0 < size) (hle : size ≤ contents.length) :
    QueueStep capacity contents (.forward size) .done (contents.take size.toNat)
      (contents.drop size.toNat)

/-- Calls on a queue, one after the other. -/
inductive QueueRun (capacity : Nat) :
    List α → List (QueueCall α × QueueAnswer α) → List α → List α → Prop where
  | nil (contents : List α) : QueueRun capacity contents [] [] contents
  | cons {contents middle after out out' : List α} {call : QueueCall α} {answer : QueueAnswer α}
    {calls : List (QueueCall α × QueueAnswer α)}
    (hstep : QueueStep capacity contents call answer out middle)
    (hrun : QueueRun capacity middle calls out' after) :
    QueueRun capacity contents ((call, answer) :: calls) (out ++ out') after

end ObHtap
