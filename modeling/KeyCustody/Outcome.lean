/-!
# How a computation ends

Most operations of a node end with a value or with a failure that they report. A few can also break
down: they divide by zero, or code that the node only hosts gives up. A breakdown is no failure of
the operation's own kind, and the caller that isolates it turns it into one.

## Main definitions

* `Breakdown`: why a computation broke down, with the words in which it is reported.
* `Outcome`: value, failure or breakdown.
-/

namespace KeyCustody

/-- Why a computation broke down. -/
inductive Breakdown where
  | divisionByZero
  | subtractionOverflow
  /-- A period of length zero between the ticks of a clock. -/
  | zeroPeriod
  /-- An instant beyond the last one that the clock can show. -/
  | instantOverflow
  /-- Hosted code gave up with these words. -/
  | words (text : String)
  /-- Hosted code gave up without words. -/
  | wordless
  deriving DecidableEq, Repr

/-- The words in which a breakdown is reported. -/
def Breakdown.message : Breakdown → String
  | .divisionByZero => "attempt to divide by zero"
  | .subtractionOverflow => "attempt to subtract with overflow"
  | .zeroPeriod => "`period` must be non-zero."
  | .instantOverflow => "overflow when adding duration to instant"
  | .words text => text
  | .wordless => "non-string panic payload"

/-- How a computation ends. -/
inductive Outcome (ε α : Type) where
  | value (a : α)
  | failure (e : ε)
  | breakdown (b : Breakdown)
  deriving DecidableEq, Repr

namespace Outcome

variable {ε ε' α β : Type}

/-- The outcome of going on with the value, if there is one. -/
def bind (x : Outcome ε α) (f : α → Outcome ε β) : Outcome ε β :=
  match x with
  | .value a => f a
  | .failure e => .failure e
  | .breakdown b => .breakdown b

instance : Monad (Outcome ε) where
  pure := .value
  bind := bind

@[simp] theorem value_bind (a : α) (f : α → Outcome ε β) : (value a >>= f) = f a := rfl

@[simp] theorem failure_bind (e : ε) (f : α → Outcome ε β) :
    (failure e >>= f) = failure e := rfl

@[simp] theorem breakdown_bind (b : Breakdown) (f : α → Outcome ε β) :
    (breakdown b >>= f) = breakdown b := rfl

/-- A result that cannot break down. -/
def ofExcept : Except ε α → Outcome ε α
  | .ok a => .value a
  | .error e => .failure e

/-- The outcome with its failure told in other terms. -/
def mapFailure (f : ε → ε') : Outcome ε α → Outcome ε' α
  | .value a => .value a
  | .failure e => .failure (f e)
  | .breakdown b => .breakdown b

end Outcome

end KeyCustody
