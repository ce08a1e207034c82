import NetKit.Proofs.Stream.Steps

/-!
# Moves of the streams — what happens between one entry of a run and the next

The record of a run has an entry for every step that ends, and events between the entries. In
`Trace.grouped` each event stands with the entry that follows it, and so belongs to a step: an action or the
start of a scope logs its events just before its own entry, and nothing else is logged. In particular
`Streams.leave` never gives out a slot, as `Streams.enter` has done so, and slots are never taken back; and
a scope that is refused logs nothing.

So a run is a chain of moves (`Script.moves_run`), each of which leads from the state of one entry to the
state of the next one. A panic leaves scopes without an entry; this shows in the entry of the step that
catches it, and after the last entry if nothing does (`Streams.Unwound`).

From the chain one reads what has been given out so far: a kind of annotation has a slot if it had one at the
start, or if a scope of this kind has been entered since (`ScriptMoves.isSome_number_iff`).

## Contents
- `Trace.trailing`, `Trace.grouped_append`: grouped traces one after the other.
- `Slots.isSome_number_allocate_iff`, `Script.isSome_number_run`: what has a slot.
- `Script.run_scope_of_admits`: scopes, of which leaving logs nothing.
- `Streams.Unwound`, `ScriptMove`, `ScriptMoves`: moves, and chains of them.
- `ScriptMoves.split`, `ScriptMoves.isSome_number_iff`: what a chain says of its entries.
- `Script.moves_run`: whole runs.
-/

namespace NetKit

/-! ## Grouped traces -/

namespace Trace

variable {α : Type}

/-- The events of a trace since its last entry, and `pending` if it has none. -/
def trailing (pending : List Event) : Trace α → List Event
  | [] => pending
  | .event e :: t => trailing (pending ++ [e]) t
  | .entry _ :: t => trailing [] t

theorem grouped_append (pending : List Event) (t u : Trace α) :
    grouped pending (t ++ u) = grouped pending t ++ grouped (trailing pending t) u := by
  induction t generalizing pending with
  | nil => rfl
  | cons happening t ih =>
      cases happening with
      | event e => exact ih (pending ++ [e])
      | entry a => exact congrArg (⟨a, pending⟩ :: ·) (ih [])

theorem trailing_append (pending : List Event) (t u : Trace α) :
    trailing pending (t ++ u) = trailing (trailing pending t) u := by
  induction t generalizing pending with
  | nil => rfl
  | cons happening t ih =>
      cases happening with
      | event e => exact ih (pending ++ [e])
      | entry a => exact ih []

theorem grouped_ofEvents (pending events : List Event) :
    grouped pending (ofEvents events : Trace α) = [] := by
  induction events generalizing pending with
  | nil => rfl
  | cons e events ih => exact ih (pending ++ [e])

theorem trailing_ofEvents (pending events : List Event) :
    trailing pending (ofEvents events : Trace α) = pending ++ events := by
  induction events generalizing pending with
  | nil => exact (List.append_nil pending).symm
  | cons e events ih => exact (ih (pending ++ [e])).trans (List.append_assoc pending [e] events)

/-- Events and an entry are one group. -/
theorem grouped_step (events : List Event) (a : α) (t : Trace α) :
    grouped [] (ofEvents events ++ .entry a :: t) = ⟨a, events⟩ :: grouped [] t := by
  rw [grouped_append, grouped_ofEvents, trailing_ofEvents]
  rfl

theorem trailing_step (events : List Event) (a : α) (t : Trace α) :
    trailing [] (ofEvents events ++ .entry a :: t) = trailing [] t := by
  rw [trailing_append]
  rfl

end Trace

/-! ## Slots -/

/-- A kind has a slot after `allocate` if it had one, or if it has been asked for. -/
theorem Slots.isSome_number_allocate_iff (slots : Slots) (kind other : Annotation) :
    ((slots.allocate kind).2.1.number? other).isSome = true ↔
      (slots.number? other).isSome = true ∨ kind = other := by
  by_cases hkind : other = kind
  · subst hkind
    rw [number_allocate]
    exact ⟨fun _ => .inr rfl, fun _ => rfl⟩
  · rw [number_allocate_other slots hkind]
    exact ⟨.inl, fun h => h.resolve_right (fun heq => hkind heq.symm)⟩

namespace Streams

variable {p q : Streams} {kind : Annotation} {s : Nat} {f : Int64 → Int64}

/-- `update` of a kind that has a slot gives out none. -/
theorem slots_update_of_isSome (h : (p.slots.number? kind).isSome = true) :
    (p.update kind s f).value.slots = p.slots := by
  obtain ⟨id, hid⟩ := Option.isSome_iff_exists.mp h
  rw [slots_update, Slots.allocate_of_number hid]

/-- `update` of a kind that has a slot logs nothing. -/
theorem events_update_of_isSome (h : (p.slots.number? kind).isSome = true) :
    (p.update kind s f).events = [] := by
  obtain ⟨id, hid⟩ := Option.isSome_iff_exists.mp h
  unfold update
  rw [Slots.allocate_of_number hid]
  rfl

end Streams

namespace Script

variable (machine : Machine) (p : Streams)

theorem run_act (s : Nat) (action : Action) (next : Script) :
    (act s action next).run machine p = ScriptRun.after
      (Trace.ofEvents (p.act machine.interfaces s action).2.events ++
        [.entry ⟨.acted action (p.act machine.interfaces s action).1, s,
          (p.act machine.interfaces s action).2.value⟩])
      (next.run machine (p.act machine.interfaces s action).2.value) := rfl

theorem run_attempt (s : Nat) (body next : Script) :
    (attempt s body next).run machine p = ScriptRun.after
      ((body.run machine p).trace ++
        [.entry ⟨.caught (body.run machine p).panic, s, (body.run machine p).streams⟩])
      (next.run machine (body.run machine p).streams) := rfl

/-- A kind that has a slot keeps it through `run`. -/
theorem isSome_number_run (script : Script) {kind : Annotation}
    (h : (p.slots.number? kind).isSome = true) :
    ((script.run machine p).streams.slots.number? kind).isSome = true := by
  induction script generalizing p with
  | done => exact h
  | act s action next ih =>
      have hslots := (Streams.sameCells_act machine.interfaces p s action).1
      exact ih (p.act machine.interfaces s action).2.value (by rw [hslots]; exact h)
  | scope kind' s amount body next ihBody ihNext =>
      cases hadmits : p.admits machine kind' s amount with
      | false =>
          rw [run_scope_of_not_admits hadmits]
          exact h
      | true =>
          -- both ends of the scope ask for its slot, and asking for one takes none away
          have hallocate : ∀ {slots : Slots}, (slots.number? kind).isSome = true →
              ((slots.allocate kind').2.1.number? kind).isSome = true :=
            fun h => (Slots.isSome_number_allocate_iff _ kind' kind).mpr (.inl h)
          have hinner := ihBody (p.enter kind' s amount).value (hallocate h)
          have hleft : ((scopeEnd machine p kind' s amount body).slots.number? kind).isSome = true :=
            hallocate hinner
          rw [run, if_pos hadmits]
          simp only
          split
          · exact hleft
          · exact ihNext _ hleft
  | attempt s body next ihBody ihNext => exact ihNext _ (ihBody p h)
  | panic reason next => exact h

variable (kind : Annotation) (s : Nat) (amount : Int64) (body next : Script)

/-- The kind of a scope has a slot when the steps inside it have ended. -/
theorem isSome_number_inside : ((body.run machine (p.enter kind s amount).value).streams.slots.number?
    kind).isSome = true :=
  isSome_number_run machine _ body
    ((Slots.isSome_number_allocate_iff p.slots kind kind).mpr (.inr rfl))

/-- **`run` of a scope that is admitted**: leaving it logs nothing. -/
theorem run_scope_of_admits (hadmits : p.admits machine kind s amount = true) :
    (scope kind s amount body next).run machine p = ScriptRun.after
      (Trace.ofEvents (p.enter kind s amount).events ++
        [.entry ⟨.entered kind, s, (p.enter kind s amount).value⟩])
      (match (body.run machine (p.enter kind s amount).value).panic with
      | some reason => ⟨scopeEnd machine p kind s amount body,
          (body.run machine (p.enter kind s amount).value).trace, some reason⟩
      | none => (next.run machine (scopeEnd machine p kind s amount body)).after
          ((body.run machine (p.enter kind s amount).value).trace ++
            [.entry ⟨.left kind, s, scopeEnd machine p kind s amount body⟩])) := by
  -- the steps inside leave the scope its slot, so that leaving it finds one
  have hquiet : ((body.run machine (p.enter kind s amount).value).streams.leave kind s amount
      (p.value kind s)).events = [] :=
    Streams.events_update_of_isSome (isSome_number_inside machine p kind s amount body)
  rw [run, if_pos hadmits]
  simp only [hquiet]
  cases (body.run machine (p.enter kind s amount).value).panic with
  | some reason => simp [ScriptRun.after, Trace.ofEvents, scopeEnd]
  | none => simp [ScriptRun.after, Trace.ofEvents, scopeEnd]

end Script

/-! ## Moves -/

namespace Streams

variable {p q : Streams} {kind : Annotation}

/-- States that a panic can lead to: scopes are left, of kinds that have a slot. -/
inductive Unwound (p : Streams) : Streams → Prop where
  | stays : Unwound p p
  | leaves {q : Streams} (h : Unwound p q) {kind : Annotation}
      (hslot : (q.slots.number? kind).isSome = true) (s : Nat) (amount before : Int64) :
      Unwound p (q.leave kind s amount before).value

theorem Unwound.slots (h : Unwound p q) : q.slots = p.slots := by
  induction h with
  | stays => rfl
  | leaves _ hslot s amount before ih => exact (slots_update_of_isSome hslot).trans ih

end Streams

/-- What leads from a state to an entry, grouped with its events. -/
inductive ScriptMove (interfaces : Interfaces) (p : Streams) : Logged ScriptEntry → Prop where
  | acted (s : Nat) (action : Action) : ScriptMove interfaces p
      ⟨⟨.acted action (p.act interfaces s action).1, s, (p.act interfaces s action).2.value⟩,
        (p.act interfaces s action).2.events⟩
  | entered (kind : Annotation) (s : Nat) (amount : Int64) : ScriptMove interfaces p
      ⟨⟨.entered kind, s, (p.enter kind s amount).value⟩, (p.enter kind s amount).events⟩
  | left {kind : Annotation} (hslot : (p.slots.number? kind).isSome = true) (s : Nat)
      (amount before : Int64) : ScriptMove interfaces p
      ⟨⟨.left kind, s, (p.leave kind s amount before).value⟩, []⟩
  | caught (reason : Option Text) (s : Nat) {q : Streams} (h : p.Unwound q) :
      ScriptMove interfaces p ⟨⟨.caught reason, s, q⟩, []⟩

/-- The state after some entries. -/
def stateAfter (p : Streams) : List (Logged ScriptEntry) → Streams
  | [] => p
  | g :: groups => stateAfter g.value.state groups

/-- Entries each of which is a `ScriptMove` from the state of the one before. -/
inductive ScriptMoves (interfaces : Interfaces) : Streams → List (Logged ScriptEntry) → Prop where
  | nil (p : Streams) : ScriptMoves interfaces p []
  | cons {p : Streams} {g : Logged ScriptEntry} {groups : List (Logged ScriptEntry)}
      (hmove : ScriptMove interfaces p g) (hrest : ScriptMoves interfaces g.value.state groups) :
      ScriptMoves interfaces p (g :: groups)

theorem stateAfter_append (p : Streams) (groups groups' : List (Logged ScriptEntry)) :
    stateAfter p (groups ++ groups') = stateAfter (stateAfter p groups) groups' := by
  induction groups generalizing p with
  | nil => rfl
  | cons g groups ih => exact ih g.value.state

variable {interfaces : Interfaces} {p : Streams} {g : Logged ScriptEntry}
  {groups groups' : List (Logged ScriptEntry)}

/-- A `ScriptMove` gives a slot to the kind whose scope it enters, and to no other. -/
theorem ScriptMove.isSome_number_iff (h : ScriptMove interfaces p g) (kind : Annotation) :
    (g.value.state.slots.number? kind).isSome = true ↔
      (p.slots.number? kind).isSome = true ∨ g.value.note = .entered kind := by
  have hsame : ∀ {q : Streams} {note : ScriptNote}, q.slots = p.slots → note ≠ .entered kind →
      ((q.slots.number? kind).isSome = true ↔
        (p.slots.number? kind).isSome = true ∨ note = .entered kind) := by
    intro q note hslots hnote
    rw [hslots]
    exact ⟨.inl, fun h => h.resolve_right hnote⟩
  cases h with
  | acted s action =>
      exact hsame (Streams.sameCells_act interfaces p s action).1 (fun h => nomatch h)
  | entered kind' s amount =>
      have hentered : ScriptNote.entered kind' = .entered kind ↔ kind' = kind :=
        ⟨ScriptNote.entered.inj, congrArg _⟩
      rw [hentered]
      exact Slots.isSome_number_allocate_iff p.slots kind' kind
  | @left kind' hslot s amount before =>
      have hslots : (p.leave kind' s amount before).value.slots = p.slots :=
        Streams.slots_update_of_isSome hslot
      exact hsame hslots (fun h => nomatch h)
  | caught reason s hunwound => exact hsame hunwound.slots (fun h => nomatch h)

namespace ScriptMoves

theorem append (h : ScriptMoves interfaces p groups)
    (h' : ScriptMoves interfaces (stateAfter p groups) groups') :
    ScriptMoves interfaces p (groups ++ groups') := by
  induction h with
  | nil => exact h'
  | cons hmove _ ih => exact .cons hmove (ih h')

/-- An entry in a chain, with the state before it. -/
theorem split {earlier later : List (Logged ScriptEntry)}
    (h : ScriptMoves interfaces p (earlier ++ g :: later)) :
    ScriptMoves interfaces p earlier ∧ ScriptMove interfaces (stateAfter p earlier) g := by
  induction earlier generalizing p with
  | nil =>
      cases h with
      | cons hmove _ => exact ⟨.nil p, hmove⟩
  | cons first earlier ih =>
      cases h with
      | cons hmove hrest =>
          obtain ⟨hearlier, hg⟩ := ih hrest
          exact ⟨.cons hmove hearlier, hg⟩

/-- A part of a chain from its start is one. -/
theorem of_append {later : List (Logged ScriptEntry)} (h : ScriptMoves interfaces p (groups ++ later)) :
    ScriptMoves interfaces p groups := by
  cases later with
  | nil => rwa [List.append_nil] at h
  | cons g later => exact h.split.1

/-- **A kind has a slot if it had one at the start, or if a scope of this kind has been entered since.** -/
theorem isSome_number_iff (h : ScriptMoves interfaces p groups) (kind : Annotation) :
    ((stateAfter p groups).slots.number? kind).isSome = true ↔
      (p.slots.number? kind).isSome = true ∨ ∃ g ∈ groups, g.value.note = .entered kind := by
  induction h with
  | nil p =>
      have hnone : ¬∃ g ∈ ([] : List (Logged ScriptEntry)), g.value.note = .entered kind := by
        rintro ⟨g, hg, -⟩
        cases hg
      exact ⟨.inl, fun h => h.resolve_right hnone⟩
  | @cons p g groups hmove _ ih =>
      show ((stateAfter g.value.state groups).slots.number? kind).isSome = true ↔ _
      rw [ih, hmove.isSome_number_iff, or_assoc]
      simp only [List.mem_cons, exists_eq_or_imp]

end ScriptMoves

/-! ## Runs -/

/-- What a run comes to: its entries are a chain of moves, nothing is logged after the last one, and from
    there a panic leaves scopes. -/
structure ScriptRun.MovesFrom (interfaces : Interfaces) (p : Streams) (r : ScriptRun) : Prop where
  moves : ScriptMoves interfaces p (r.trace.grouped [])
  trailing : r.trace.trailing [] = []
  ends : r.panic = none → r.streams = stateAfter p (r.trace.grouped [])
  unwound : (stateAfter p (r.trace.grouped [])).Unwound r.streams

namespace ScriptRun

variable {r : ScriptRun} {entry : ScriptEntry} {events : List Event}

/-- A run with an entry before it. -/
theorem MovesFrom.step (hmove : ScriptMove interfaces p ⟨entry, events⟩)
    (hrest : r.MovesFrom interfaces entry.state) :
    (r.after (Trace.ofEvents events ++ [.entry entry])).MovesFrom interfaces p := by
  have htrace : (r.after (Trace.ofEvents events ++ [.entry entry])).trace =
      Trace.ofEvents events ++ .entry entry :: r.trace :=
    List.append_assoc (Trace.ofEvents events) [.entry entry] r.trace
  have hgrouped := Trace.grouped_step events entry r.trace
  refine ⟨?_, ?_, ?_, ?_⟩
  · rw [htrace, hgrouped]; exact .cons hmove hrest.moves
  · rw [htrace, Trace.trailing_step]; exact hrest.trailing
  · rw [htrace, hgrouped]; exact hrest.ends
  · rw [htrace, hgrouped]; exact hrest.unwound

/-- A run after another one, with an entry between them. -/
theorem MovesFrom.andThen {earlier : ScriptRun} (hearlier : earlier.MovesFrom interfaces p)
    (hmove : ScriptMove interfaces (stateAfter p (earlier.trace.grouped [])) ⟨entry, []⟩)
    (hrest : r.MovesFrom interfaces entry.state) :
    (r.after (earlier.trace ++ [.entry entry])).MovesFrom interfaces p := by
  have htrace : (r.after (earlier.trace ++ [.entry entry])).trace =
      earlier.trace ++ .entry entry :: r.trace :=
    List.append_assoc earlier.trace [.entry entry] r.trace
  -- no event waits for this entry, as none is left behind the last entry before it
  have hgrouped : Trace.grouped [] (earlier.trace ++ .entry entry :: r.trace) =
      earlier.trace.grouped [] ++ ⟨entry, []⟩ :: r.trace.grouped [] := by
    rw [Trace.grouped_append, hearlier.trailing]
    rfl
  refine ⟨?_, ?_, ?_, ?_⟩
  · rw [htrace, hgrouped]; exact hearlier.moves.append (.cons hmove hrest.moves)
  · rw [htrace, Trace.trailing_append]; exact hrest.trailing
  · rw [htrace, hgrouped, stateAfter_append]; exact hrest.ends
  · rw [htrace, hgrouped, stateAfter_append]; exact hrest.unwound

end ScriptRun

/-- A scope that is admitted is a move, a run of the steps inside it, and a move behind them unless they
    panic. -/
theorem Script.moves_scope {machine : Machine} {kind : Annotation} {s : Nat} {amount : Int64}
    {body next : Script} (hadmits : p.admits machine kind s amount = true)
    (hbody : (body.run machine (p.enter kind s amount).value).MovesFrom machine.interfaces
      (p.enter kind s amount).value)
    (hnext : (next.run machine (scopeEnd machine p kind s amount body)).MovesFrom machine.interfaces
      (scopeEnd machine p kind s amount body)) :
    ((scope kind s amount body next).run machine p).MovesFrom machine.interfaces p := by
  have hslot := isSome_number_inside machine p kind s amount body
  rw [run_scope_of_admits _ _ _ _ _ _ _ hadmits]
  refine ScriptRun.MovesFrom.step (.entered kind s amount) ?_
  cases hpanic : (body.run machine (p.enter kind s amount).value).panic with
  | some reason =>
      -- the scope is left, but there is no entry of it
      exact ⟨hbody.moves, hbody.trailing, fun h => (nomatch h), hbody.unwound.leaves hslot s _ _⟩
  | none =>
      have hmove : ScriptMove machine.interfaces
          (stateAfter (p.enter kind s amount).value
            ((body.run machine (p.enter kind s amount).value).trace.grouped []))
          ⟨⟨.left kind, s, scopeEnd machine p kind s amount body⟩, []⟩ := by
        rw [← hbody.ends hpanic]
        exact .left hslot s amount (p.value kind s)
      exact hbody.andThen hmove hnext

/-- **The record of a run is a chain of `ScriptMove`s.** -/
theorem Script.moves_run (machine : Machine) (script : Script) (p : Streams) :
    (script.run machine p).MovesFrom machine.interfaces p := by
  induction script generalizing p with
  | done => exact ⟨.nil p, rfl, fun _ => rfl, .stays⟩
  | act s action next ih => exact (ih _).step (.acted s action)
  | scope kind s amount body next ihBody ihNext =>
      cases hadmits : p.admits machine kind s amount with
      | true => exact moves_scope hadmits (ihBody _) (ihNext _)
      | false =>
          rw [run_scope_of_not_admits hadmits]
          exact ⟨.nil p, rfl, fun h => (nomatch h), .stays⟩
  | attempt s body next ihBody ihNext =>
      have hbody := ihBody p
      exact hbody.andThen (.caught _ s hbody.unwound) (ihNext _)
  | panic reason next => exact ⟨.nil p, rfl, fun h => (nomatch h), .stays⟩

end NetKit
