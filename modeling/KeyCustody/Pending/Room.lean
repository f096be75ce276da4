import KeyCustody.Pending.Wait
/-!
# Waiters side by side

A table with a clock and the waiters that sit on it, each under a name. After every change each
waiter that has a result leaves with it, in the order in which they came, and leaving is a change in
turn. The clock moves only when it is told to, or when somebody waits in person.

## Main definitions

* `Room`: table, clock and waiters.
* `Room.start`, `Room.cancel`, `Room.collect`: waiters under a name.
* `Room.change`, `Room.advance`: changes of the table and of the clock.
* `Room.wait`: a wait in person.
-/

namespace KeyCustody.Pending

variable {α : Type}

/-- How a wait under a name ended. -/
inductive Ending (α : Type) where
  | value (v : α)
  | failure (e : WaitError)
  | cancelled
  | breakdown

/-- What is known of a wait under a name. -/
inductive Report (α : Type) where
  | waiting (w : Waiter)
  | over (e : Ending α)

/-- A table with a clock and waiters. -/
structure Room (α : Type) where
  table : Table α
  /-- Milliseconds on the clock. -/
  now : Nat
  waiters : Assoc String (Report α)

namespace Room

/-- The room without slots and waiters. -/
def empty : Room α := ⟨.empty, 0, []⟩

/-- The ending of a wait with the given result. -/
def ending : Except WaitError α → Ending α
  | .ok v => .value v
  | .error e => .failure e

/-- The room after the first of the waiters with a result has left, if there is one. -/
def leaveFirst? (r : Room α) : List (String × Report α) → Option (Room α)
  | [] => none
  | (name, .waiting w) :: rest =>
    match w.settle? r.table r.now with
    | some (table, result) =>
      some { r with table, waiters := Assoc.put r.waiters name (.over (ending result)) }
    | none => leaveFirst? r rest
  | _ :: rest => leaveFirst? r rest

/-- The room after every waiter with a result has left. The fuel is the number of waiters. -/
def leaveAll : (fuel : Nat) → Room α → Room α
  | 0, r => r
  | fuel + 1, r =>
    match r.leaveFirst? r.waiters with
    | some r => leaveAll fuel r
    | none => r

/-- The room after every waiter with a result has left. -/
def settle (r : Room α) : Room α :=
  leaveAll r.waiters.length r

/-- The room after a change of the table, with the answer of the change. -/
def change {β : Type} (r : Room α) (f : Table α → Table α × β) : Room α × β :=
  let (table, b) := f r.table
  ({ r with table }.settle, b)

/-- The room at a later time. -/
def advance (r : Room α) (ms : Nat) : Room α :=
  { r with now := r.now + ms }.settle

/-- The room with a wait under a name, in the place of any that had it. -/
def start (r : Room α) (name id : String) (poll timeout : Nat) : Room α :=
  let (table, outcome) := Waiter.begin r.table id poll timeout r.now
  let report : Report α := match outcome with
    | .value w => .waiting w
    | .failure e => .over (.failure e)
    | .breakdown _ => .over .breakdown
  { r with table, waiters := Assoc.put (Assoc.erase r.waiters name) name report }.settle

/-- The room after the wait under a name is given up, if it is not over. -/
def cancel (r : Room α) (name : String) : Room α :=
  match Assoc.get? r.waiters name with
  | some (.waiting w) =>
    { r with
      table := w.cancel r.table
      waiters := Assoc.put r.waiters name (.over .cancelled) }.settle
  | _ => r

/-- What is known of the wait under a name, which is forgotten if it is over. -/
def collect (r : Room α) (name : String) : Room α × Option (Report α) :=
  match Assoc.get? r.waiters name with
  | some (.over e) => ({ r with waiters := Assoc.erase r.waiters name }, some (.over e))
  | report => (r, report)

/-- A wait in person: the clock moves to the deadline if there is no answer before. -/
def wait (r : Room α) (id : String) (poll timeout : Nat) : Room α × Ending α :=
  let (table, outcome) := Waiter.begin r.table id poll timeout r.now
  let r := { r with table }
  match outcome with
  | .failure e => (r.settle, .failure e)
  | .breakdown _ => (r.settle, .breakdown)
  | .value w =>
    match w.settle? r.table r.now with
    | some (table, result) => ({ r with table }.settle, ending result)
    | none =>
      let r := r.advance timeout
      match w.settle? r.table r.now with
      | some (table, result) => ({ r with table }.settle, ending result)
      | none => (r, .failure .timeout)

end Room

end KeyCustody.Pending
