import KeyCustody.Assoc
/-!
# Slots for answers

A request that leaves a node has a slot under its message id, in which the answer to it arrives. To
register a slot is to open a channel that carries one value. The slot holds both ends of the
channel until they are taken: whoever delivers takes the sending end, whoever waits takes the
receiving one, and each can be taken once. A new registration under the same id replaces the slot
but does not touch ends that were taken from it.

Delivery has two halves. The first takes the sending end out of the slot, and the second sends;
other changes of the table may come between them.

## Main definitions

* `Channel`, `Slot`, `Table`: channels by the number of their registration, and slots by id.
* `Table.insert`, `Table.remove`: registration, and its end.
* `Table.takeSender`, `Table.send`, `Table.deliver`: delivery.
* `Table.takeReceiver`, `Table.receive`, `Table.dropReceiver`: the receiving end.
-/

namespace KeyCustody.Pending

variable {α : Type}

/-- A channel for one value. -/
structure Channel (α : Type) where
  /-- The value that was sent and not yet received. -/
  value? : Option α
  /-- Whether the sending end is still there. -/
  hasSender : Bool
  /-- Whether the receiving end is still there. -/
  hasReceiver : Bool
  deriving DecidableEq, Repr

/-- A slot, with the ends of its channel that were not taken. -/
structure Slot where
  /-- The number of the registration. -/
  registration : Nat
  holdsSender : Bool
  holdsReceiver : Bool
  deriving DecidableEq, Repr

/-- The slots of a node. -/
structure Table (α : Type) where
  slots : Assoc String Slot
  /-- The channels of all registrations so far, by their numbers. -/
  channels : List (Channel α)
  deriving DecidableEq, Repr

namespace Table

/-- The table without slots. -/
def empty : Table α := ⟨[], []⟩

/-- Whether there is a slot under the id. -/
def contains (t : Table α) (id : String) : Bool :=
  Assoc.contains t.slots id

/-- The number of slots. -/
def size (t : Table α) : Nat :=
  t.slots.length

/-- The channel of a registration. -/
def channel? (t : Table α) (registration : Nat) : Option (Channel α) :=
  t.channels[registration]?

/-- The table with the channel of a registration changed. -/
def updateChannel (t : Table α) (registration : Nat) (f : Channel α → Channel α) : Table α :=
  { t with channels := t.channels.modify registration f }

/-! ### Registration -/

/-- The table without the slot under the id; the ends that it holds are dropped. -/
def remove (t : Table α) (id : String) : Table α :=
  match Assoc.get? t.slots id with
  | none => t
  | some s =>
    let t := t.updateChannel s.registration fun c =>
      { c with
        hasSender := c.hasSender && !s.holdsSender
        hasReceiver := c.hasReceiver && !s.holdsReceiver }
    { t with slots := Assoc.erase t.slots id }

/-- The table with a fresh slot under the id, in the place of any that it had. -/
def insert (t : Table α) (id : String) : Table α :=
  let t := t.remove id
  { slots := Assoc.put t.slots id ⟨t.channels.length, true, true⟩
    channels := t.channels ++ [⟨none, true, true⟩] }

/-! ### Delivery -/

/-- The first half of a delivery: the registration whose sending end is taken from the slot. There
is none if there is no slot or the end was taken before. If the receiving end was taken and is gone,
the slot is of no use and removed. -/
def takeSender (t : Table α) (id : String) : Table α × Option Nat :=
  match Assoc.get? t.slots id with
  | none => (t, none)
  | some s =>
    if !s.holdsSender then (t, none)
    else if !s.holdsReceiver && !((t.channel? s.registration).any Channel.hasReceiver) then
      (t.remove id, none)
    else
      ({ t with slots := Assoc.put t.slots id { s with holdsSender := false } },
        some s.registration)

/-- The second half: the value is sent, if the receiving end is still there. -/
def send (t : Table α) (registration : Nat) (v : α) : Table α × Bool :=
  let accepted := (t.channel? registration).any Channel.hasReceiver
  (t.updateChannel registration fun c =>
    { c with value? := if accepted then some v else c.value?, hasSender := false }, accepted)

/-- Both halves of a delivery without anything between them. -/
def deliver (t : Table α) (id : String) (v : α) : Table α × Bool :=
  match t.takeSender id with
  | (t, none) => (t, false)
  | (t, some registration) => t.send registration v

/-! ### The receiving end -/

/-- The registration whose receiving end is taken from the slot, if there is a slot that holds
it. -/
def takeReceiver (t : Table α) (id : String) : Table α × Option Nat :=
  match Assoc.get? t.slots id with
  | none => (t, none)
  | some s =>
    if s.holdsReceiver then
      ({ t with slots := Assoc.put t.slots id { s with holdsReceiver := false } },
        some s.registration)
    else (t, none)

/-- What the receiving end sees. -/
inductive Reception (α : Type) where
  | value (v : α)
  /-- The sending end is gone and there is no value. -/
  | closed
  | empty
  deriving DecidableEq, Repr

/-- What the receiving end of a registration sees. -/
def receive (t : Table α) (registration : Nat) : Reception α :=
  match t.channel? registration with
  | none => .closed
  | some c =>
    match c.value? with
    | some v => .value v
    | none => if c.hasSender then .empty else .closed

/-- The table after the receiving end of a registration is dropped, with a value in it. -/
def dropReceiver (t : Table α) (registration : Nat) : Table α :=
  t.updateChannel registration fun c => { c with value? := none, hasReceiver := false }

end Table

end KeyCustody.Pending
