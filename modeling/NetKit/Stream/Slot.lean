/-!
# Slots — numbers for the kinds of annotation, given out at first use

Streams carry cells for the kinds of annotation that have been used on any of them. `Slots.allocate`
gives an `Annotation` the next free number when it is first used, and the kind keeps it for good; until
then no stream has a cell for it.

## Contents
- `Annotation`: the kinds.
- `Slots`, `Slots.number?`, `Slots.allocate`: the numbers given out so far, and giving one out.
-/

namespace NetKit

/-- The kinds of annotation. -/
inductive Annotation where
  /-- The depth of indentation. -/
  | indent
  /-- The level of detail. -/
  | detail
  deriving DecidableEq, Repr

/-- The number of each kind, if it has one, and the next free number. -/
structure Slots where
  indent : Option Nat
  detail : Option Nat
  next : Nat
  deriving DecidableEq, Repr

namespace Slots

/-- No kind has a slot. -/
def fresh : Slots := ⟨none, none, 0⟩

/-- Both kinds have a slot, `indent` the first. -/
def settled : Slots := ⟨some 0, some 1, 2⟩

/-- The number of `kind`, if it has one. -/
def number? (s : Slots) : Annotation → Option Nat
  | .indent => s.indent
  | .detail => s.detail

/-- Gives `kind` the number `next`. -/
def grant (s : Slots) : Annotation → Slots
  | .indent => { s with indent := some s.next, next := s.next + 1 }
  | .detail => { s with detail := some s.next, next := s.next + 1 }

/-- The number of `kind`, the slots after it was asked for, and whether `grant` was needed. -/
def allocate (s : Slots) (kind : Annotation) : Nat × Slots × Bool :=
  match s.number? kind with
  | some id => (id, s, false)
  | none => (s.next, s.grant kind, true)

/-- `allocate` is idle for a kind that has a number. -/
theorem allocate_of_number {s : Slots} {kind : Annotation} {id : Nat}
    (h : s.number? kind = some id) : s.allocate kind = (id, s, false) := by
  unfold allocate
  rw [h]

/-- The number that `allocate` answers is the one that it keeps. -/
theorem number_allocate (s : Slots) (kind : Annotation) :
    (s.allocate kind).2.1.number? kind = some (s.allocate kind).1 := by
  unfold allocate
  cases h : s.number? kind with
  | none => cases kind <;> rfl
  | some id => exact h

/-- `allocate` leaves the other kind's number alone. -/
theorem number_allocate_other (s : Slots) {kind other : Annotation} (h : other ≠ kind) :
    (s.allocate kind).2.1.number? other = s.number? other := by
  unfold allocate
  cases s.number? kind with
  | some id => rfl
  | none =>
    cases kind with
    | indent =>
      cases other with
      | indent => exact absurd rfl h
      | detail => rfl
    | detail =>
      cases other with
      | indent => rfl
      | detail => exact absurd rfl h

end Slots

end NetKit
