/-
What a reader finds at the front of its input.

A reader works on a list from the front and never looks back, so a success is a value together
with the part of the list that it left.  The part left is no longer than a bound that the reader
promises; carrying the proof in the result is what lets readers call one another, and themselves,
as deep as the input goes without any limit on the depth.
-/

namespace SelectPlanner

/-- A value read off the front of a list of `τ`, leaving at most `bound` items. -/
structure Reading (τ : Type) (bound : Nat) (α : Type) where
  /-- What was read. -/
  value : α
  /-- What comes after it. -/
  rest : List τ
  /-- Nothing was put back. -/
  within : rest.length ≤ bound

namespace Reading

variable {τ α β : Type} {bound wider : Nat}

/-- The same reading with another value. -/
def map (f : α → β) (r : Reading τ bound α) : Reading τ bound β :=
  ⟨f r.value, r.rest, r.within⟩

/-- The same reading for a weaker promise. -/
def widen (r : Reading τ bound α) (h : bound ≤ wider) : Reading τ wider α :=
  ⟨r.value, r.rest, Nat.le_trans r.within h⟩

@[simp]
theorem map_value (f : α → β) (r : Reading τ bound α) : (r.map f).value = f r.value := rfl

@[simp]
theorem map_rest (f : α → β) (r : Reading τ bound α) : (r.map f).rest = r.rest := rfl

@[simp]
theorem widen_value (r : Reading τ bound α) (h : bound ≤ wider) :
    (r.widen h).value = r.value := rfl

@[simp]
theorem widen_rest (r : Reading τ bound α) (h : bound ≤ wider) : (r.widen h).rest = r.rest := rfl

end Reading

end SelectPlanner
