import NetKit.Stream.Script

/-!
# Values of annotations — reading them past slots and cells

A stream keeps its annotations in cells, the cells are numbered by `Slots`, and `Slots.allocate` gives out
a number when a kind of annotation is first used on any stream. None of this shows in `Streams.value`, as
long as no two kinds share a slot and no stream has cells beyond the slots given out. That condition is
`Streams.Consistent`; every operation keeps it. `Streams.update` changes one value, and `Streams.act`
changes none and touches one sink at most.

A scope that overflow checks refuse (`Streams.admits`) leaves the streams as they are: its depth is not
zero, so that there is a slot and a cell already (`Streams.touch_of_not_admits`). A scope that is entered
has a sum within `Int64`, from which its amount can be taken away again (`Script.toInt_leave`).

## Contents
- `InInt64.toInt_ofInt`, `InInt64.toInt_add`: numbers in the range of `Int64`.
- `Slots.WellFormed`, `Streams.Consistent`: the condition.
- `Streams.value_update_same`, `Streams.value_update_other`, `Streams.Consistent.update`: updates.
- `Streams.SameCells`, `Streams.sameCells_act`: actions.
- `Streams.sinks`: the sinks, which no update touches.
- `Streams.touch_of_not_admits`, `Script.run_scope_of_not_admits`: scopes that are refused.
- `Streams.value_leave`, `Script.value_run`, `Script.toInt_leave`: scopes and whole runs.
-/

namespace NetKit

/-! ## The range of depths -/

theorem inInt64_toInt (n : Int64) : InInt64 n.toInt := ⟨n.minValue_le_toInt, n.toInt_le⟩

namespace InInt64

/-- A number in range is the value of the `Int64` made of it. -/
theorem toInt_ofInt {n : Int} (h : InInt64 n) : (Int64.ofInt n).toInt = n := by
  obtain ⟨hmin, hmax⟩ := h
  rw [Int64.toInt_minValue] at hmin
  rw [Int64.toInt_maxValue] at hmax
  exact Int64.toInt_ofInt_of_le hmin (Int.lt_of_le_sub_one hmax)

/-- A sum in range does not wrap around. -/
theorem toInt_add {a b : Int64} (h : InInt64 (a.toInt + b.toInt)) :
    (a + b).toInt = a.toInt + b.toInt := by
  have hsum : Int64.ofInt (a.toInt + b.toInt) = a + b := by
    rw [Int64.ofInt_add, Int64.ofInt_toInt, Int64.ofInt_toInt]
  rw [← hsum]
  exact h.toInt_ofInt

end InInt64

/-! ## The condition -/

/-- Every number given out is below `next`, and no two kinds have the same number. -/
structure Slots.WellFormed (slots : Slots) : Prop where
  lt_next : ∀ {kind id}, slots.number? kind = some id → id < slots.next
  injective : ∀ {kind other id}, slots.number? kind = some id → slots.number? other = some id →
    kind = other

theorem Slots.wellFormed_fresh : Slots.fresh.WellFormed where
  lt_next {kind id} h := by cases kind <;> cases h
  injective {kind other id} h := by cases kind <;> cases h

theorem Slots.wellFormed_settled : Slots.settled.WellFormed where
  lt_next {kind id} h := by cases kind <;> cases h <;> decide
  injective {kind other id} h h' := by
    cases kind with
    | indent =>
        cases other with
        | indent => rfl
        | detail => cases h; cases h'
    | detail =>
        cases other with
        | indent => cases h; cases h'
        | detail => rfl

theorem Slots.next_le_allocate (slots : Slots) (kind : Annotation) :
    slots.next ≤ (slots.allocate kind).2.1.next := by
  unfold Slots.allocate
  cases slots.number? kind with
  | some id => exact Nat.le_refl _
  | none => cases kind <;> exact Nat.le_succ _

/-- `allocate` gives a number below the `next` one after that. -/
theorem Slots.WellFormed.allocate_lt {slots : Slots} (h : slots.WellFormed) (kind : Annotation) :
    (slots.allocate kind).1 < (slots.allocate kind).2.1.next := by
  unfold Slots.allocate
  cases hnumber : slots.number? kind with
  | some id => exact h.lt_next hnumber
  | none => cases kind <;> exact Nat.lt_succ_self _

/-- `allocate` gives a kind that is new a number that no other kind has. -/
theorem Slots.WellFormed.allocate_ne {slots : Slots} (h : slots.WellFormed) {kind other : Annotation}
    (hne : other ≠ kind) {id : Nat} (hother : slots.number? other = some id) :
    id ≠ (slots.allocate kind).1 := by
  unfold Slots.allocate
  cases hnumber : slots.number? kind with
  | some id' =>
      rintro rfl
      exact hne (h.injective hother hnumber)
  | none => exact Nat.ne_of_lt (h.lt_next hother)

theorem Slots.WellFormed.allocate {slots : Slots} (h : slots.WellFormed) (kind : Annotation) :
    (slots.allocate kind).2.1.WellFormed where
  lt_next {k id} hk := by
    by_cases hkind : k = kind
    · subst hkind
      rw [Slots.number_allocate] at hk
      exact Option.some.inj hk ▸ h.allocate_lt k
    · rw [Slots.number_allocate_other slots hkind] at hk
      exact Nat.lt_of_lt_of_le (h.lt_next hk) (slots.next_le_allocate kind)
  injective {k other id} hk hother := by
    by_cases hkind : k = kind
    · by_cases hokind : other = kind
      · rw [hkind, hokind]
      · subst hkind
        rw [Slots.number_allocate] at hk
        rw [Slots.number_allocate_other slots hokind] at hother
        exact absurd (Option.some.inj hk).symm (h.allocate_ne hokind hother)
    · rw [Slots.number_allocate_other slots hkind] at hk
      by_cases hokind : other = kind
      · subst hokind
        rw [Slots.number_allocate] at hother
        exact absurd (Option.some.inj hother).symm (h.allocate_ne hkind hk)
      · rw [Slots.number_allocate_other slots hokind] at hother
        exact h.injective hk hother

/-- The slots are `WellFormed`, and no stream has cells beyond them. -/
structure Streams.Consistent (p : Streams) : Prop where
  slots : p.slots.WellFormed
  cells : ∀ s, (p.table s).cells.length ≤ p.slots.next

/-- A cell that a stream does not have reads as zero. -/
theorem Stream.cell_eq_zero {s : Stream} {id : Nat} (h : s.cells.length ≤ id) : s.cell id = 0 := by
  unfold Stream.cell
  rw [List.getD_eq_getElem?_getD, List.getElem?_eq_none h, Option.getD_none]

namespace Streams

/-- Streams without annotations. -/
def start (slots : Slots) (sinks : Table Nat Sink) : Streams :=
  ⟨slots, fun s => Stream.ofSink (sinks s)⟩

theorem consistent_start {slots : Slots} (h : slots.WellFormed) (sinks : Table Nat Sink) :
    (start slots sinks).Consistent :=
  ⟨h, fun _ => Nat.zero_le _⟩

theorem value_start (slots : Slots) (sinks : Table Nat Sink) (kind : Annotation) (s : Nat) :
    (start slots sinks).value kind s = 0 := by
  unfold value
  split
  · rfl
  · exact Stream.cell_eq_zero (Nat.zero_le _)

/-- The sinks of all streams. -/
def sinks (p : Streams) : Table Nat Sink := fun s => (p.table s).sink

/-! ## Updates -/

variable {p : Streams} {kind : Annotation} {s : Nat} {f : Int64 → Int64}

theorem slots_update : (p.update kind s f).value.slots = (p.slots.allocate kind).2.1 := rfl

theorem table_update : (p.update kind s f).value.table =
    p.table.set s ((p.table s).setCell (p.slots.allocate kind).1
      (f ((p.table s).cell (p.slots.allocate kind).1))) := rfl

/-- The cell that `allocate` gives a kind holds its value, also while the kind has no number. -/
theorem Consistent.cell_allocate (h : p.Consistent) (kind : Annotation) (s : Nat) :
    (p.table s).cell (p.slots.allocate kind).1 = p.value kind s := by
  unfold value Slots.allocate
  cases p.slots.number? kind with
  | some id => rfl
  | none => exact Stream.cell_eq_zero (h.cells s)

/-- The values after `update`, read through the numbers before it. -/
theorem value_update_kind (t : Nat) : (p.update kind s f).value.value kind t =
    ((p.update kind s f).value.table t).cell (p.slots.allocate kind).1 := by
  unfold value
  rw [slots_update, Slots.number_allocate]

/-- **`update` changes the value that it is for.** -/
theorem value_update_same (h : p.Consistent) :
    (p.update kind s f).value.value kind s = f (p.value kind s) := by
  rw [value_update_kind, table_update, Table.set_same, Stream.cell_setCell_same, h.cell_allocate]

/-- **`update` changes no other value**, neither of another kind nor of another stream. -/
theorem value_update_other (h : p.Consistent) {kind' : Annotation} {t : Nat}
    (hne : kind' ≠ kind ∨ t ≠ s) : (p.update kind s f).value.value kind' t = p.value kind' t := by
  by_cases hkind : kind' = kind
  · subst hkind
    have ht : t ≠ s := hne.resolve_left (fun h => h rfl)
    rw [value_update_kind, table_update, Table.set_other _ _ ht, h.cell_allocate]
  · unfold value
    rw [slots_update, Slots.number_allocate_other _ hkind]
    cases hnumber : p.slots.number? kind' with
    | none => rfl
    | some id =>
        simp only
        rw [table_update]
        by_cases ht : t = s
        · subst ht
          rw [Table.set_same, Stream.cell_setCell_other _ _ (h.slots.allocate_ne hkind hnumber)]
        · rw [Table.set_other _ _ ht]

theorem Consistent.update (h : p.Consistent) : (p.update kind s f).value.Consistent where
  slots := h.slots.allocate kind
  cells t := by
    have hnext := p.slots.next_le_allocate kind
    have hid := h.slots.allocate_lt kind
    have ht := h.cells t
    rw [slots_update, table_update]
    by_cases hts : t = s
    · subst hts
      rw [Table.set_same, Stream.length_cells_setCell]
      omega
    · rw [Table.set_other _ _ hts]
      omega

theorem sinks_update : (p.update kind s f).value.sinks = p.sinks := by
  funext t
  unfold sinks
  rw [table_update]
  by_cases ht : t = s
  · subst ht; rw [Table.set_same]; rfl
  · rw [Table.set_other _ _ ht]

/-! ### The two ends of a scope are updates -/

theorem Consistent.enter (h : p.Consistent) (kind : Annotation) (s : Nat) (amount : Int64) :
    (p.enter kind s amount).value.Consistent := h.update

theorem Consistent.leave (h : p.Consistent) (kind : Annotation) (s : Nat) (amount before : Int64) :
    (p.leave kind s amount before).value.Consistent := h.update

theorem sinks_leave (p : Streams) (kind : Annotation) (s : Nat) (amount before : Int64) :
    (p.leave kind s amount before).value.sinks = p.sinks := sinks_update

/-! ## Actions -/

/-- The same slots, and the same cells on every stream. -/
def SameCells (p q : Streams) : Prop :=
  q.slots = p.slots ∧ ∀ t, (q.table t).cells = (p.table t).cells

theorem sameCells_refl (p : Streams) : SameCells p p := ⟨rfl, fun _ => rfl⟩

theorem sameCells_setSink (p : Streams) (s : Nat) (sink : Sink) : SameCells p (p.setSink s sink) := by
  refine ⟨rfl, fun t => ?_⟩
  show ((p.table.set s { p.table s with sink := sink }) t).cells = (p.table t).cells
  by_cases ht : t = s
  · subst ht; rw [Table.set_same]
  · rw [Table.set_other _ _ ht]

variable {q : Streams}

theorem SameCells.consistent (h : SameCells p q) (hp : p.Consistent) : q.Consistent where
  slots := h.1 ▸ hp.slots
  cells t := by rw [h.1, h.2 t]; exact hp.cells t

theorem SameCells.value (h : SameCells p q) (kind : Annotation) (t : Nat) :
    q.value kind t = p.value kind t := by
  unfold Streams.value Stream.cell
  rw [h.1, h.2 t]

theorem sameCells_detailLevel (p : Streams) (s : Nat) : SameCells p (p.detailLevel s).2.value := by
  unfold detailLevel
  split
  · exact sameCells_refl p
  · split <;> exact sameCells_setSink p s _

/-- **`act` changes no cell.** -/
theorem sameCells_act (interfaces : Interfaces) (p : Streams) (s : Nat) (action : Action) :
    SameCells p (p.act interfaces s action).2.value := by
  cases action with
  | depth => exact sameCells_refl p
  | level => exact sameCells_detailLevel p s
  | indentation => exact sameCells_refl p
  | writeIndentation => exact sameCells_setSink p s _
  | write data => exact sameCells_setSink p s _
  | offer data => exact sameCells_setSink p s _
  | offerPieces parts => exact sameCells_setSink p s _
  | writeSink data => exact sameCells_setSink p s _
  | writeAddress text =>
      unfold act
      simp only
      split
      · exact sameCells_refl p
      · exact sameCells_setSink p s _
  | flush => exact sameCells_setSink p s _

/-- The level that `detailLevel` answers is the value of the detail annotation, hint or not. -/
theorem level_eq_value (p : Streams) (s : Nat) : (p.detailLevel s).1 = p.value .detail s := by
  unfold detailLevel value
  cases p.slots.number? .detail with
  | some id => rfl
  | none => simp only; split <;> rfl

/-- Once the levels have a slot, `detailLevel` only reads it. -/
theorem detailLevel_of_isSome (h : (p.slots.number? .detail).isSome = true) (s : Nat) :
    p.detailLevel s = (p.value .detail s, .quiet p) := by
  obtain ⟨id, hid⟩ := Option.isSome_iff_exists.mp h
  unfold detailLevel value
  rw [hid]

/-! ## Scopes -/

/-- Only an indentation of a stream that is indented already can be refused. -/
theorem value_ne_zero_of_not_admits {machine : Machine} {amount : Int64}
    (h : p.admits machine kind s amount = false) : p.value kind s ≠ 0 := by
  unfold admits at h
  split at h
  · intro hzero
    have hsum : (p.depth s).toInt + amount.toInt = amount.toInt := by
      rw [depth, hzero, Int64.toInt_zero, Int.zero_add]
    rw [hsum] at h
    exact of_decide_eq_false h (inInt64_toInt amount)
  · cases h
  · cases h

/-- An annotation that is not zero has its slot and its cell, so that `touch` changes nothing. -/
theorem touch_of_value_ne_zero (h : p.value kind s ≠ 0) : p.touch kind s = .quiet p := by
  cases hnumber : p.slots.number? kind with
  | none =>
      unfold value at h
      rw [hnumber] at h
      exact absurd rfl h
  | some id =>
      have hvalue : p.value kind s = (p.table s).cell id := by
        unfold value
        rw [hnumber]
      have hid : id < (p.table s).cells.length := by
        refine Nat.lt_of_not_le fun hle => h ?_
        rw [hvalue, Stream.cell_eq_zero hle]
      unfold touch update
      rw [Slots.allocate_of_number hnumber]
      simp only [id_eq, Stream.setCell_cell _ hid, Table.set_self]
      rfl

/-- **A scope that is refused changes nothing and logs nothing.** -/
theorem touch_of_not_admits {machine : Machine} {amount : Int64}
    (h : p.admits machine kind s amount = false) : p.touch kind s = .quiet p :=
  touch_of_value_ne_zero (value_ne_zero_of_not_admits h)

/-- `admits` depends on the value that the scope changes. -/
theorem admits_congr {machine : Machine} {amount : Int64} (h : q.value kind s = p.value kind s) :
    q.admits machine kind s amount = p.admits machine kind s amount := by
  cases kind with
  | indent =>
      have hdepth : q.depth s = p.depth s := h
      unfold admits
      rw [hdepth]
  | detail =>
      unfold admits
      cases machine.overflow <;> rfl

/-- A build without overflow checks admits every scope. -/
theorem admits_of_wraps {machine : Machine} (h : machine.overflow = .wraps) (p : Streams)
    (kind : Annotation) (s : Nat) (amount : Int64) : p.admits machine kind s amount = true := by
  unfold admits
  rw [h]

/-- **`leave` undoes `enter`**: the values are those from before, if those in between are what `enter` has
    made them. -/
theorem value_leave {amount : Int64} (hp : p.Consistent) (hq : q.Consistent)
    (hvalues : ∀ k t, q.value k t = (p.enter kind s amount).value.value k t) (k : Annotation)
    (t : Nat) : (q.leave kind s amount (p.value kind s)).value.value k t = p.value k t := by
  unfold leave
  by_cases hsame : k = kind ∧ t = s
  · obtain ⟨rfl, rfl⟩ := hsame
    rw [value_update_same hq, hvalues, enter, value_update_same hp]
    -- an indentation is subtracted again, a level is put back
    cases k with
    | indent => exact Int64.add_sub_cancel ..
    | detail => rfl
  · have hne : k ≠ kind ∨ t ≠ s := Decidable.not_and_iff_or_not.mp hsame
    rw [value_update_other hq hne, hvalues, enter, value_update_other hp hne]

end Streams

/-! ## Runs -/

namespace Script

variable {machine : Machine} {kind : Annotation} {s : Nat} {amount : Int64} {p : Streams}

/-- A scope that is refused is a panic. -/
theorem run_scope_of_not_admits (h : p.admits machine kind s amount = false) (body next : Script) :
    (scope kind s amount body next).run machine p = ⟨p, [], some overflowText⟩ := by
  have htouch := Streams.touch_of_not_admits h
  rw [run, h, if_neg Bool.false_ne_true]
  simp only [htouch]
  rfl

/-- The largest depth and one more: the sum wraps around to the smallest `Int64` in one build, and is a panic
    in the other one. -/
example :
    let script := scope .indent 0 Int64.maxValue (scope .indent 0 1 done done) done
    let run := fun overflow => script.run ⟨.loopbackOnly, overflow⟩
      (.start .settled fun _ => .empty none none)
    (run .wraps).trace.entries.map ScriptEntry.depth =
        [Int64.maxValue, Int64.minValue, Int64.maxValue, 0] ∧ (run .wraps).panic = none ∧
      (run .panics).trace.entries.map ScriptEntry.depth = [Int64.maxValue] ∧
      (run .panics).panic = some overflowText := by
  decide

/-- **`run` leaves all values as it found them**, whether it ends normally or with a panic. -/
theorem value_run (machine : Machine) (script : Script) {p : Streams} (hp : p.Consistent) :
    (script.run machine p).streams.Consistent ∧
      ∀ kind s, (script.run machine p).streams.value kind s = p.value kind s := by
  -- both parts at once: a scope inside another is entered from a consistent state
  induction script generalizing p with
  | done => exact ⟨hp, fun _ _ => rfl⟩
  | act s action next ih =>
      have hcells := Streams.sameCells_act machine.interfaces p s action
      obtain ⟨hc, hvalue⟩ := ih (hcells.consistent hp)
      exact ⟨hc, fun kind t => (hvalue kind t).trans (hcells.value kind t)⟩
  | scope kind s amount body next ihBody ihNext =>
      cases hadmits : p.admits machine kind s amount with
      | false =>
          rw [run_scope_of_not_admits hadmits]
          exact ⟨hp, fun _ _ => rfl⟩
      | true =>
          obtain ⟨hinner, hvalues⟩ := ihBody (hp.enter kind s amount)
          have hleft := hinner.leave kind s amount (p.value kind s)
          have hrestored := Streams.value_leave hp hinner hvalues
          -- the scope is left before it is asked whether there was a panic
          rw [run, if_pos hadmits]
          simp only
          split
          · exact ⟨hleft, hrestored⟩
          · obtain ⟨hc, hvalue⟩ := ihNext hleft
            exact ⟨hc, fun k t => (hvalue k t).trans (hrestored k t)⟩
  | attempt s body next ihBody ihNext =>
      obtain ⟨hinner, hvalues⟩ := ihBody hp
      obtain ⟨hc, hvalue⟩ := ihNext hinner
      exact ⟨hc, fun k t => (hvalue k t).trans (hvalues k t)⟩
  | panic reason next => exact ⟨hp, fun _ _ => rfl⟩

/-- **Leaving an indentation does not overflow** in a build with overflow checks: the steps inside have
    given back the depth that `enter` has made, and taking the amount away is exact. -/
theorem toInt_leave (hp : p.Consistent) (hpanics : machine.overflow = .panics)
    (hadmits : p.admits machine .indent s amount = true) (body : Script) :
    ((body.run machine (p.enter .indent s amount).value).streams.depth s - amount).toInt =
      ((body.run machine (p.enter .indent s amount).value).streams.depth s).toInt - amount.toInt := by
  have hinside : (body.run machine (p.enter .indent s amount).value).streams.depth s =
      p.depth s + amount := by
    obtain ⟨-, hvalues⟩ := body.value_run machine (hp.enter .indent s amount)
    exact (hvalues .indent s).trans (Streams.value_update_same hp)
  have hsum : (p.depth s + amount).toInt = (p.depth s).toInt + amount.toInt := by
    have hin : InInt64 ((p.depth s).toInt + amount.toInt) := by
      unfold Streams.admits at hadmits
      rw [hpanics] at hadmits
      exact of_decide_eq_true hadmits
    exact hin.toInt_add
  rw [hinside, Int64.add_sub_cancel, hsum, Int.add_sub_cancel]

end Script

end NetKit
