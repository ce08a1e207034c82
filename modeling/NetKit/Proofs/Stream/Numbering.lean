import Mathlib.Data.List.Induction
import Mathlib.Data.List.Nodup
import Mathlib.Data.List.Perm.Subperm
import NetKit.Proofs.Stream.Allocation

/-!
# Numbering — slots in the order of first use

A kind of annotation has no slot until a scope of this kind is entered for the first time, on whichever
stream. It then gets the next number, so that at any time the numbers are the places of the kinds in the
order of their first uses (`Slots.NumberedBy`), and since that order only grows at its end, a number never
changes.

`Streams.leave` asks for its slot in the same way as `Streams.enter`, and so would give one out. It never does,
as the scope has been entered; nor does a scope that overflow checks refuse, as a stream that is indented has
the slot (`Streams.touch_of_not_admits`). This is behind the two ways of a move (`ScriptMove.firstUse_cases`):
it is the first use of a kind, and logs `Event.slotAllocated`, or it gives out nothing and logs nothing of the
kind. Everything that is said of a whole run follows by induction on its record.

## Contents
- `Slots.NumberedBy`, `Slots.NumberedBy.allocate_of_mem`, `Slots.NumberedBy.allocate_of_not_mem`: numbers.
- `firstUses`, `allocations`: the order of first uses in a record, and what it makes to be logged.
- `ScriptMove.firstUse_cases`, `ScriptMoves.numbered`: moves, and chains of them.
- `Streams.AllocatedBy`, `Script.slots_follow_first_uses`: the slots and the cells in every run.
-/

namespace NetKit

/-! ## Numbers -/

/-- The slots are given out to `kinds`, and the number of each is its place among them. -/
structure Slots.NumberedBy (slots : Slots) (kinds : List Annotation) : Prop where
  nodup : kinds.Nodup
  number : ∀ kind id, slots.number? kind = some id ↔ kinds[id]? = some kind
  next : slots.next = kinds.length

/-- There are two kinds. -/
theorem Annotation.length_le_of_nodup {kinds : List Annotation} (h : kinds.Nodup) :
    kinds.length ≤ 2 := by
  have hall : kinds ⊆ [.indent, .detail] := by
    intro kind _
    cases kind <;> simp
  exact (List.Nodup.subperm h hall).length_le

namespace Slots

theorem numberedBy_fresh : fresh.NumberedBy [] where
  nodup := List.nodup_nil
  number kind id := by cases kind <;> simp [fresh, number?]
  next := rfl

variable {slots : Slots} {kinds : List Annotation} {kind : Annotation}

theorem number_grant (slots : Slots) (kind other : Annotation) :
    (slots.grant kind).number? other =
      if other = kind then some slots.next else slots.number? other := by
  cases kind <;> cases other <;> rfl

theorem next_grant (slots : Slots) (kind : Annotation) :
    (slots.grant kind).next = slots.next + 1 := by
  cases kind <;> rfl

namespace NumberedBy

/-- **A kind that is used again keeps its number.** -/
theorem allocate_of_mem (h : slots.NumberedBy kinds) (hmem : kind ∈ kinds) :
    ∃ id, slots.allocate kind = (id, slots, false) := by
  obtain ⟨id, hid⟩ := List.mem_iff_getElem?.mp hmem
  exact ⟨id, allocate_of_number ((h.number kind id).mpr hid)⟩

/-- **A kind that is used for the first time gets the number of kinds before it.** -/
theorem allocate_of_not_mem (h : slots.NumberedBy kinds) (hnew : kind ∉ kinds) :
    slots.allocate kind = (kinds.length, slots.grant kind, true) := by
  have hnone : slots.number? kind = none := by
    cases hnumber : slots.number? kind with
    | none => rfl
    | some id => exact absurd (List.mem_iff_getElem?.mpr ⟨id, (h.number kind id).mp hnumber⟩) hnew
  unfold allocate
  rw [hnone, h.next]

/-- A kind that is granted a slot is the last one. -/
theorem grant (h : slots.NumberedBy kinds) (hnew : kind ∉ kinds) :
    (slots.grant kind).NumberedBy (kinds ++ [kind]) where
  nodup := by
    rw [← List.concat_eq_append, List.nodup_concat]
    exact ⟨hnew, h.nodup⟩
  number other id := by
    have hplace : (kinds ++ [kind])[id]? = some other ↔
        kinds[id]? = some other ∨ id = kinds.length ∧ kind = other := by grind
    rw [hplace, number_grant, h.next]
    split
    · next heq =>
        subst heq
        have hnone : kinds[id]? ≠ some other := fun hid => hnew (List.mem_iff_getElem?.mpr ⟨id, hid⟩)
        rw [Option.some.injEq, or_iff_right hnone, and_iff_left rfl, eq_comm]
    · next hne =>
        have hother : ¬(id = kinds.length ∧ kind = other) := fun hlast => hne hlast.2.symm
        rw [or_iff_left hother, h.number]
  next := by rw [next_grant, h.next, List.length_append, List.length_singleton]

/-- The numbers are those up to the next one. -/
theorem exists_number_iff (h : slots.NumberedBy kinds) (id : Nat) :
    (∃ kind, slots.number? kind = some id) ↔ id < kinds.length := by
  constructor
  · rintro ⟨kind, hkind⟩
    exact (List.getElem?_eq_some_iff.mp ((h.number kind id).mp hkind)).1
  · intro hid
    exact ⟨kinds[id], (h.number _ id).mpr (List.getElem?_eq_getElem hid)⟩

/-- No two kinds have the same number. -/
theorem number_injective (h : slots.NumberedBy kinds) {other : Annotation} {id : Nat}
    (hid : slots.number? kind = some id) (hother : slots.number? other = some id) : kind = other :=
  Option.some.inj (((h.number kind id).mp hid).symm.trans ((h.number other id).mp hother))

/-- A kind keeps its number when other kinds come after it. -/
theorem number_append {slots' : Slots} {more : List Annotation} {id : Nat} (h : slots.NumberedBy kinds)
    (h' : slots'.NumberedBy (kinds ++ more)) (hid : slots.number? kind = some id) :
    slots'.number? kind = some id := by
  have hplace := (h.number kind id).mp hid
  have hlt := (List.getElem?_eq_some_iff.mp hplace).1
  rw [h'.number, List.getElem?_append_left hlt]
  exact hplace

end NumberedBy

end Slots

/-! ## First uses -/

/-- The kind of the scope that is entered, if one is. -/
def ScriptNote.entered? : ScriptNote → Option Annotation
  | entered kind => some kind
  | acted _ _ => none
  | left _ => none
  | caught _ => none

theorem ScriptNote.entered?_eq_some_iff {note : ScriptNote} {kind : Annotation} :
    note.entered? = some kind ↔ note = .entered kind := by
  cases note <;> simp [entered?]

/-- The kinds of the scopes that are entered, in the order of the record. -/
def enteredKinds (groups : List (Logged ScriptEntry)) : List Annotation :=
  groups.filterMap fun g => g.value.note.entered?

/-- The kinds of the scopes that are entered, in the order in which each is entered for the first time. -/
def firstUses (groups : List (Logged ScriptEntry)) : List Annotation := (enteredKinds groups).eraseDups

/-- The events `slotAllocated` when slots are given out to `kinds`, numbered in their order. -/
def allocations (kinds : List Annotation) : List Event :=
  kinds.zipIdx.map fun use => .slotAllocated use.1 use.2

section

variable {groups : List (Logged ScriptEntry)} {g : Logged ScriptEntry} {kind : Annotation}

/-- `firstUses` only grows at its end. -/
theorem firstUses_append (groups more : List (Logged ScriptEntry)) :
    firstUses (groups ++ more) = firstUses groups ++
      ((enteredKinds more).removeAll (enteredKinds groups)).eraseDups := by
  have happend : enteredKinds (groups ++ more) = enteredKinds groups ++ enteredKinds more :=
    List.filterMap_append
  rw [firstUses, happend, List.eraseDups_append]
  rfl

theorem enteredKinds_singleton (g : Logged ScriptEntry) :
    enteredKinds [g] = g.value.note.entered?.toList := by
  unfold enteredKinds
  cases hnote : g.value.note.entered? <;> simp [hnote]

/-- A first use is the last one in `firstUses`. -/
theorem firstUses_append_new (hnote : g.value.note = .entered kind) (hnew : kind ∉ firstUses groups) :
    firstUses (groups ++ [g]) = firstUses groups ++ [kind] := by
  rw [firstUses, List.mem_eraseDups] at hnew
  have hkept : [kind].removeAll (enteredKinds groups) = [kind] := by
    simpa [List.removeAll] using hnew
  rw [firstUses_append, enteredKinds_singleton, ScriptNote.entered?_eq_some_iff.mpr hnote,
    Option.toList_some, hkept]
  rfl

/-- Anything else makes no difference to `firstUses`. -/
theorem firstUses_append_old (hold : ∀ kind, g.value.note = .entered kind → kind ∈ firstUses groups) :
    firstUses (groups ++ [g]) = firstUses groups := by
  have hdropped : g.value.note.entered?.toList.removeAll (enteredKinds groups) = [] := by
    cases hnote : g.value.note.entered? with
    | none => rfl
    | some kind =>
        have hmem := hold kind (ScriptNote.entered?_eq_some_iff.mp hnote)
        rw [firstUses, List.mem_eraseDups] at hmem
        simpa [List.removeAll] using hmem
  rw [firstUses_append, enteredKinds_singleton, hdropped]
  exact List.append_nil _

end

theorem allocations_append (kinds : List Annotation) (kind : Annotation) :
    allocations (kinds ++ [kind]) = allocations kinds ++ [.slotAllocated kind kinds.length] := by
  unfold allocations
  rw [List.zipIdx_append, List.map_append, Nat.zero_add]
  rfl

/-! ## Moves -/

variable {interfaces : Interfaces} {p : Streams} {g : Logged ScriptEntry}
  {groups : List (Logged ScriptEntry)} {kinds : List Annotation}

theorem Streams.Unwound.consistent {q : Streams} (h : p.Unwound q) (hp : p.Consistent) :
    q.Consistent := by
  induction h with
  | stays => exact hp
  | leaves _ _ s amount before ih => exact ih.leave _ s amount before

theorem ScriptMove.consistent (h : ScriptMove interfaces p g) (hp : p.Consistent) :
    g.value.state.Consistent := by
  cases h with
  | acted s action => exact (Streams.sameCells_act interfaces p s action).consistent hp
  | entered kind s amount => exact hp.enter kind s amount
  | left _ s amount before => exact hp.leave _ s amount before
  | caught reason s hunwound => exact hunwound.consistent hp

/-- `enter` gives out what `allocate` does, and logs this. -/
theorem Streams.enter_of_allocate {kind : Annotation} {id : Nat} {slots : Slots} {isNew : Bool}
    (h : p.slots.allocate kind = (id, slots, isNew)) (s : Nat) (amount : Int64) :
    (p.enter kind s amount).value.slots = slots ∧
      (p.enter kind s amount).events = if isNew then [.slotAllocated kind id] else [] := by
  unfold enter update
  rw [h]
  exact ⟨rfl, rfl⟩

/-- **A `ScriptMove` is the first use of a kind, or it gives out nothing.** -/
theorem ScriptMove.firstUse_cases (h : ScriptMove interfaces p g) (hp : p.slots.NumberedBy kinds) :
    (∃ kind, g.value.note = .entered kind ∧ kind ∉ kinds ∧
      g.events = [.slotAllocated kind kinds.length] ∧
      g.value.state.slots.NumberedBy (kinds ++ [kind])) ∨
    ((∀ kind, g.value.note = .entered kind → kind ∈ kinds) ∧
      g.events.filter Event.isAllocation = [] ∧ g.value.state.slots = p.slots) := by
  -- an entry that enters no scope is no first use
  have hno : ∀ {note : ScriptNote}, note.entered? = none →
      ∀ kind, note = .entered kind → kind ∈ kinds := by
    rintro _ hnone kind rfl
    cases hnone
  cases h with
  | acted s action =>
      refine .inr ⟨hno rfl, ?_, (Streams.sameCells_act interfaces p s action).1⟩
      have hkept := Streams.filter_events_act interfaces p s action
      rw [List.filter_eq_nil_iff]
      intro e he
      rw [← hkept, List.mem_filter] at he
      simpa using he.2
  | entered kind s amount =>
      by_cases hmem : kind ∈ kinds
      · obtain ⟨id, hallocate⟩ := hp.allocate_of_mem hmem
        obtain ⟨hslots, hevents⟩ := Streams.enter_of_allocate hallocate s amount
        refine .inr ⟨?_, ?_, hslots⟩
        · intro kind' hnote
          exact ScriptNote.entered.inj hnote ▸ hmem
        · rw [hevents]
          rfl
      · obtain ⟨hslots, hevents⟩ := Streams.enter_of_allocate (hp.allocate_of_not_mem hmem) s amount
        refine .inl ⟨kind, rfl, hmem, hevents, ?_⟩
        rw [hslots]
        exact hp.grant hmem
  | @left kind hslot s amount before =>
      have hslots : (p.leave kind s amount before).value.slots = p.slots :=
        Streams.slots_update_of_isSome hslot
      exact .inr ⟨hno rfl, rfl, hslots⟩
  | caught reason s hunwound => exact .inr ⟨hno rfl, rfl, hunwound.slots⟩

/-- What `firstUses` of a record make of the slots and the log. -/
structure Numbered (p : Streams) (groups : List (Logged ScriptEntry)) : Prop where
  consistent : (stateAfter p groups).Consistent
  slots : (stateAfter p groups).slots.NumberedBy (firstUses groups)
  events : (groups.flatMap Logged.events).filter Event.isAllocation = allocations (firstUses groups)

/-- **In a chain of moves the slots are `NumberedBy` first use.** -/
theorem ScriptMoves.numbered (h : ScriptMoves interfaces p groups) (hp : p.Consistent)
    (hfresh : p.slots.NumberedBy []) : Numbered p groups := by
  -- on the end of the chain, where the order of first uses grows
  induction groups using List.reverseRecOn with
  | nil => exact ⟨hp, hfresh, rfl⟩
  | append_singleton groups g ih =>
      obtain ⟨hearlier, hmove⟩ := h.split
      obtain ⟨hconsistent, hslots, hevents⟩ := ih hearlier
      have hstate : stateAfter p (groups ++ [g]) = g.value.state := stateAfter_append p groups [g]
      have hlogged : ((groups ++ [g]).flatMap Logged.events).filter Event.isAllocation =
          allocations (firstUses groups) ++ g.events.filter Event.isAllocation := by
        rw [List.flatMap_append, List.filter_append, hevents, List.flatMap_singleton]
      rcases hmove.firstUse_cases hslots with ⟨kind, hnote, hnew, hevent, hnext⟩ | ⟨hold, hquiet, hsame⟩
      · refine ⟨hstate ▸ hmove.consistent hconsistent, ?_, ?_⟩
        · rw [hstate, firstUses_append_new hnote hnew]
          exact hnext
        · rw [hlogged, hevent, firstUses_append_new hnote hnew, allocations_append]
          rfl
      · refine ⟨hstate ▸ hmove.consistent hconsistent, ?_, ?_⟩
        · rw [hstate, firstUses_append_old hold, hsame]
          exact hslots
        · rw [hlogged, hquiet, firstUses_append_old hold, List.append_nil]

/-! ## Runs -/

/-- The events of a trace are those of its groups and those after the last one. -/
theorem Trace.events_eq_flatMap_grouped {α : Type} (pending : List Event) (t : Trace α) :
    pending ++ events t = (grouped pending t).flatMap Logged.events ++ trailing pending t := by
  induction t generalizing pending with
  | nil => exact List.append_nil pending
  | cons happening t ih =>
      cases happening with
      | event e => exact (List.append_assoc pending [e] (events t)).symm.trans (ih (pending ++ [e]))
      | entry a =>
          rw [events_entry, grouped, trailing, List.flatMap_cons, List.append_assoc, ← ih [],
            List.nil_append]

/-- Slots are given out to `kinds` and to no other: they are distinct and at most two, the number of each is
    its place, the numbers are those below how many they are, and no stream has more cells than that. -/
structure Streams.AllocatedBy (p : Streams) (kinds : List Annotation) : Prop where
  nodup : kinds.Nodup
  length_le : kinds.length ≤ 2
  number : ∀ kind id, p.slots.number? kind = some id ↔ kinds[id]? = some kind
  injective : ∀ kind other id, p.slots.number? kind = some id → p.slots.number? other = some id →
    kind = other
  dense : ∀ id, (∃ kind, p.slots.number? kind = some id) ↔ id < kinds.length
  cells : ∀ s, (p.table s).cells.length ≤ kinds.length

theorem Streams.Consistent.allocatedBy (hp : p.Consistent) (h : p.slots.NumberedBy kinds) :
    p.AllocatedBy kinds where
  nodup := h.nodup
  length_le := Annotation.length_le_of_nodup h.nodup
  number := h.number
  injective _ _ _ := h.number_injective
  dense := h.exists_number_iff
  cells s := h.next ▸ hp.cells s

theorem Numbered.allocatedBy {q : Streams} (h : Numbered p groups)
    (hunwound : (stateAfter p groups).Unwound q) : q.AllocatedBy (firstUses groups) :=
  (hunwound.consistent h.consistent).allocatedBy (hunwound.slots ▸ h.slots)

/-- What a move of a run is about, after the `kinds` that have been used before: it enters the first scope
    of a kind, for which the next number is given out and logged, or nothing is given out. -/
structure FirstUseOnly (kinds : List Annotation) (before : Streams) (g : Logged ScriptEntry) : Prop where
  first : ∀ kind, g.value.note = .entered kind → kind ∉ kinds →
    g.events = [.slotAllocated kind kinds.length] ∧
      g.value.state.slots.number? kind = some kinds.length
  other : (∀ kind, g.value.note = .entered kind → kind ∈ kinds) →
    g.value.state.slots = before.slots ∧ ∀ e ∈ g.events, e.isAllocation = false

theorem ScriptMove.firstUseOnly (h : ScriptMove interfaces p g) (hp : p.slots.NumberedBy kinds) :
    FirstUseOnly kinds p g := by
  rcases h.firstUse_cases hp with ⟨kind, hnote, hnew, hevents, hslots⟩ | ⟨hold, hquiet, hsame⟩
  · refine ⟨fun kind' hnote' _ => ?_, fun hold => absurd (hold kind hnote) hnew⟩
    obtain rfl : kind = kind' := ScriptNote.entered.inj (hnote.symm.trans hnote')
    exact ⟨hevents, (hslots.number kind _).mpr List.getElem?_concat_length⟩
  · refine ⟨fun kind hnote hnew => absurd (hold kind hnote) hnew, fun _ => ⟨hsame, fun e he => ?_⟩⟩
    exact Bool.eq_false_iff.mpr (List.filter_eq_nil_iff.mp hquiet e he)

theorem Event.level_of_isAllocation {e : Event} (h : e.isAllocation = true) : e.level = .debug := by
  cases e with
  | slotAllocated => rfl
  | scopeResolved => cases h
  | detailUnset => cases h
  | hintFailed => cases h
  | gateFailed => cases h
  | gatePanicked => cases h

/-- **Slots are given out once, in the order of first use, and by entering scopes only.** In a run that starts
    without slots and cells, at any time the kinds that have slots are those whose scopes have been entered
    so far. There are two at most, the number of each is its place in the order of first use, and no stream has
    more cells than kinds have slots; this also holds while a panic leaves scopes. A number does not change
    any more. Entering the first scope of a kind gives it the next number and logs this; no other step, and no
    scope that is left, gives out a slot or logs that one is given out. So the events about slots are one for
    each kind that was used, in the order of first use, with its number. -/
theorem Script.slots_follow_first_uses (machine : Machine) (script : Script)
    (sinks : Table Nat Sink) :
    let start := Streams.start .fresh sinks
    let run := script.run machine start
    let record := run.trace.grouped []
    (∀ earlier later, record = earlier ++ later → ∀ q, (stateAfter start earlier).Unwound q →
      q.AllocatedBy (firstUses earlier)) ∧
    run.streams.AllocatedBy (firstUses record) ∧
    (∀ earlier between later, record = earlier ++ between ++ later → ∀ q q',
      (stateAfter start earlier).Unwound q → (stateAfter start (earlier ++ between)).Unwound q' →
        ∀ kind id, q.slots.number? kind = some id → q'.slots.number? kind = some id) ∧
    (∀ earlier g later, record = earlier ++ g :: later →
      FirstUseOnly (firstUses earlier) (stateAfter start earlier) g) ∧
    run.trace.events.filter Event.isAllocation = allocations (firstUses record) ∧
    ∀ e ∈ run.trace.events, e.isAllocation = true → e.level = .debug := by
  intro start run record
  have hstart : start.Consistent := Streams.consistent_start Slots.wellFormed_fresh sinks
  have hrun : run.MovesFrom machine.interfaces start := moves_run machine script start
  have hnumbered : ∀ {earlier later}, record = earlier ++ later → Numbered start earlier := by
    intro earlier later hrecord
    have hmoves := hrun.moves
    rw [show run.trace.grouped [] = earlier ++ later from hrecord] at hmoves
    exact hmoves.of_append.numbered hstart Slots.numberedBy_fresh
  have hwhole : Numbered start record := hnumbered (List.append_nil record).symm
  refine ⟨fun earlier later hrecord q hq => (hnumbered hrecord).allocatedBy hq,
    hwhole.allocatedBy hrun.unwound, ?_, ?_, ?_, fun e _ => Event.level_of_isAllocation⟩
  · intro earlier between later hrecord q q' hq hq' kind id hid
    have hearlier := (hnumbered (hrecord.trans (List.append_assoc ..))).slots
    have hlater := (hnumbered hrecord).slots
    rw [firstUses_append] at hlater
    rw [hq.slots] at hid
    rw [hq'.slots]
    exact hearlier.number_append hlater hid
  · intro earlier g later hrecord
    have hmoves := hrun.moves
    rw [show run.trace.grouped [] = earlier ++ g :: later from hrecord] at hmoves
    exact hmoves.split.2.firstUseOnly (hnumbered hrecord).slots
  · have hevents := Trace.events_eq_flatMap_grouped [] run.trace
    rw [hrun.trailing, List.append_nil, List.nil_append] at hevents
    rw [hevents]
    exact hwhole.events

/-- A level is used before any indentation, on another stream, and both scopes are left by a panic: the state after
    the first entry, the number that is kept to the end, and the whole log. -/
theorem Script.slots_follow_first_uses_detail_first :
    let script := attempt 0
      (scope .detail 1 3 (scope .indent 0 2 (panic "lost".toList done) done) done)
      (scope .indent 1 1 (act 1 .level done) done)
    let run := script.run .loopbackOnly (.start .fresh fun _ => .empty none none)
    ∃ first others, run.trace.grouped [] = first :: others ∧
      first.value.state.AllocatedBy [.detail] ∧
      FirstUseOnly [] (.start .fresh fun _ => .empty none none) first ∧
      run.streams.AllocatedBy [.detail, .indent] ∧
      run.streams.slots.number? .detail = some 0 ∧
      run.trace.events.filter Event.isAllocation =
        [.slotAllocated .detail 0, .slotAllocated .indent 1] := by
  intro script run
  obtain ⟨hstates, hfinal, hstays, hmoves, hevents, -⟩ :=
    slots_follow_first_uses .loopbackOnly script fun _ => .empty none none
  have hmovesFrom := moves_run .loopbackOnly script (.start .fresh fun _ => .empty none none)
  refine ⟨_, _, rfl, hstates [_] _ rfl _ .stays, hmoves [] _ _ rfl, hfinal, ?_, hevents⟩
  exact hstays [_] _ [] (List.append_nil _).symm _ _ .stays hmovesFrom.unwound .detail 0 rfl

end NetKit
