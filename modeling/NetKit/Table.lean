/-!
# Tables — a value at every index

A table is total: every index has a value from the start, and setting one index leaves the others
alone. Registers, streams and gates are kept in tables, so that no operation has an index to reject.
-/

namespace NetKit

/-- A total map from `ι`. -/
abbrev Table (ι α : Type) := ι → α

/-- `t` with `a` at `i`. -/
def Table.set {ι α : Type} [DecidableEq ι] (t : Table ι α) (i : ι) (a : α) : Table ι α :=
  fun j => if j = i then a else t j

section

variable {ι α : Type} [DecidableEq ι]

@[simp] theorem Table.set_same (t : Table ι α) (i : ι) (a : α) : t.set i a i = a := by
  simp [Table.set]

theorem Table.set_self (t : Table ι α) (i : ι) : t.set i (t i) = t := by
  funext j
  by_cases h : j = i
  · rw [h, Table.set_same]
  · simp [Table.set, h]

theorem Table.set_other (t : Table ι α) {i j : ι} (a : α) (h : j ≠ i) : t.set i a j = t j := by
  simp [Table.set, h]

end

end NetKit
