/-!
# Association lists

Maps as lists of pairs in the order in which their keys first came in. Each of the operations keeps
the keys distinct.

## Main definitions

* `Assoc`: the list.
* `Assoc.get?`, `Assoc.contains`, `Assoc.keys`: views.
* `Assoc.put`, `Assoc.erase`, `Assoc.modify`: changes.
-/

namespace KeyCustody

/-- A map as a list of pairs. -/
abbrev Assoc (κ α : Type) := List (κ × α)

namespace Assoc

variable {κ α : Type} [DecidableEq κ]

/-- What the map has for a key. -/
def get? (m : Assoc κ α) (k : κ) : Option α :=
  match m with
  | [] => none
  | (j, a) :: m => if j = k then some a else get? m k

/-- Whether the map has anything for a key. -/
def contains (m : Assoc κ α) (k : κ) : Bool :=
  (get? m k).isSome

/-- The keys of the map. -/
def keys (m : Assoc κ α) : List κ :=
  m.map Prod.fst

/-- The map with `a` for a key, in the place of what it had for it. -/
def put (m : Assoc κ α) (k : κ) (a : α) : Assoc κ α :=
  match m with
  | [] => [(k, a)]
  | (j, b) :: m => if j = k then (k, a) :: m else (j, b) :: put m k a

/-- The map without a key. -/
def erase (m : Assoc κ α) (k : κ) : Assoc κ α :=
  m.filter fun p => p.1 ≠ k

/-- The map with what `f` makes of what it has for a key, or of `d` if it has nothing. -/
def modify (m : Assoc κ α) (k : κ) (d : α) (f : α → α) : Assoc κ α :=
  put m k (f ((get? m k).getD d))

theorem get?_put (m : Assoc κ α) (k j : κ) (a : α) :
    get? (put m k a) j = if j = k then some a else get? m j := by
  induction m with
  | nil => simp [put, get?, eq_comm]
  | cons p m ih => grind [put, get?]

theorem get?_erase (m : Assoc κ α) (k j : κ) :
    get? (erase m k) j = if j = k then none else get? m j := by
  induction m with
  | nil => simp [erase, get?]
  | cons p m ih =>
    simp only [erase, List.filter_cons] at ih ⊢
    grind [get?]

end Assoc

end KeyCustody
