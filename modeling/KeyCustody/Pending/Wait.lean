import KeyCustody.Outcome
import KeyCustody.Pending.Table
/-!
# Waiting for an answer

To wait is to take the receiving end of a slot, to sit until one of three things is ready (the
answer, a tick that is only logged, the deadline), and to remove the slot under the id. When several
things are ready, any of them may be the one that counts, so the choice is an argument. The removal
is a step of its own: the slot that it finds may by then be another one.

## Main definitions

* `WaitError`, `Waiter`: how a wait can end without a value, and a wait that has begun.
* `Waiter.begin`: the start of a wait.
* `Branch`, `Waiter.isReady`, `Waiter.choose`: what ends the sitting.
* `Waiter.leave`, `Waiter.cancel`: the end of a wait, and a wait that is given up.
-/

namespace KeyCustody.Pending

variable {α : Type}

/-- How a wait ends without a value. -/
inductive WaitError where
  /-- There is no slot, or its receiving end is taken, or the slot went away. -/
  | unknown
  /-- The deadline passed first. -/
  | timeout
  deriving DecidableEq, Repr

/-- The milliseconds of the last instant that the clock can show. -/
def lastInstant : Nat := Nat.pow 2 63 * 1000

/-- A wait that has begun. Instants and periods are in milliseconds. -/
structure Waiter where
  id : String
  /-- The registration whose receiving end it has. -/
  registration : Nat
  poll : Nat
  deadline : Nat
  /-- The next tick. -/
  nextTick : Nat
  deriving DecidableEq, Repr

/-- What ends the sitting of a waiter, or interrupts it. -/
inductive Branch where
  | answer
  | tick
  | deadline
  deriving DecidableEq, Repr

namespace Waiter

/-- The start of a wait at instant `now`. The ticker is started after the receiving end is taken: a
period of zero or a first tick beyond the last instant makes it break down, and the end is lost. -/
def begin (t : Table α) (id : String) (poll timeout now : Nat) :
    Table α × Outcome WaitError Waiter :=
  match t.takeReceiver id with
  | (t, none) => (t, .failure .unknown)
  | (t, some registration) =>
    if lastInstant ≤ now + poll then (t.dropReceiver registration, .breakdown .instantOverflow)
    else if poll = 0 then (t.dropReceiver registration, .breakdown .zeroPeriod)
    else
      (t, .value { id, registration, poll, deadline := now + timeout, nextTick := now + poll })

/-- Whether a branch is ready at instant `now`. -/
def isReady (w : Waiter) (t : Table α) (now : Nat) : Branch → Bool
  | .answer =>
    match t.receive w.registration with
    | .empty => false
    | _ => true
  | .tick => w.nextTick ≤ now
  | .deadline => w.deadline ≤ now

/-- What a ready branch makes of the wait at instant `now`: a result, or the wait goes on. -/
def choose (w : Waiter) (t : Table α) (now : Nat) : Branch → Waiter ⊕ Except WaitError α
  | .answer =>
    match t.receive w.registration with
    | .value v => .inr (.ok v)
    | .closed => .inr (.error .unknown)
    | .empty => .inl w
  | .tick => .inl { w with nextTick := now + w.poll }
  | .deadline => if w.deadline ≤ now then .inr (.error .timeout) else .inl w

/-- The end of a wait: the slot under its id is removed and the receiving end dropped. -/
def leave (w : Waiter) (t : Table α) : Table α :=
  (t.remove w.id).dropReceiver w.registration

/-- A wait that is given up: the receiving end is dropped, and the slot stays. -/
def cancel (w : Waiter) (t : Table α) : Table α :=
  t.dropReceiver w.registration

/-- The result of a wait that prefers an answer to the deadline, if it has one at instant `now`, and
the table after it. -/
def settle? (w : Waiter) (t : Table α) (now : Nat) : Option (Table α × Except WaitError α) :=
  let result (b : Branch) : Option (Table α × Except WaitError α) :=
    match w.choose t now b with
    | .inr r => some (w.leave t, r)
    | .inl _ => none
  (result .answer).or (result .deadline)

end Waiter

end KeyCustody.Pending
