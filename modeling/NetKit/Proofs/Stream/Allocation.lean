import NetKit.Proofs.Stream.Isolation
import NetKit.Proofs.Stream.Moves

/-!
# Allocation — it does not show when slots are given out

`Slots.allocate` gives a kind of annotation its slot when it is first used on any stream, so the numbers of
the slots depend on which kind comes first, and cells come up at different times. A process in which both slots
were given out before shows the same on all streams: the same answers, bytes, flushes, depths, levels and
panics. It only lacks the events `Event.slotAllocated`. The one thing that must not happen is that a level is
asked for before any was set, as this writes `hintText` in the first process and nothing in the second.

Two states show the same if all values and all sinks are the same (`Streams.ShowsSame`), where nothing is said
of the slots and cells behind the values. `Streams.update` and `Streams.act` respect this, scopes are refused in
both states or in neither, and the induction is on the script for all pairs of such states.

## Contents
- `Trace.withoutAllocations`, `Trace.views`: a trace as it can be seen.
- `Streams.ShowsSame`, `Streams.ShowsSame.update`, `Streams.ShowsSame.act`: states that show the same.
- `HintFree`, `Script.showsSame_scope`, `Script.showsSame_run`: runs.
- `Script.run_fresh_shows`: a fresh process and one with both slots.
-/

namespace NetKit

/-! ## Traces as they can be seen -/

/-- The event is `slotAllocated`. -/
def Event.isAllocation : Event → Bool
  | slotAllocated .. => true
  | scopeResolved .. => false
  | detailUnset => false
  | hintFailed .. => false
  | gateFailed => false
  | gatePanicked => false

/-- What an entry shows: the step with its answer, and what can be seen of all streams after it. -/
structure EntryView where
  note : ScriptNote
  stream : Nat
  streams : Nat → StreamView

/-- The `EntryView` of an entry. -/
def ScriptEntry.view (e : ScriptEntry) : EntryView := ⟨e.note, e.stream, e.state.view⟩

namespace Trace

/-- The trace without `slotAllocated`. -/
def withoutAllocations {α : Type} (t : Trace α) : Trace α :=
  t.filter fun
    | .event e => !e.isAllocation
    | .entry _ => true

/-- The trace with the views of its entries. -/
def views (t : Trace ScriptEntry) : Trace EntryView :=
  t.map fun
    | .event e => .event e
    | .entry e => .entry e.view

theorem views_append (t u : Trace ScriptEntry) : views (t ++ u) = views t ++ views u :=
  List.map_append

theorem withoutAllocations_append {α : Type} (t u : Trace α) :
    withoutAllocations (t ++ u) = withoutAllocations t ++ withoutAllocations u :=
  List.filter_append t u

theorem withoutAllocations_ofEvents {α : Type} (events : List Event) :
    withoutAllocations (ofEvents events : Trace α) = ofEvents (events.filter (!·.isAllocation)) :=
  List.filter_map

end Trace

/-! ## States that show the same -/

namespace Streams

variable {p q : Streams} {kind : Annotation} {s : Nat}

theorem sinks_setSink (p : Streams) (s : Nat) (sink : Sink) :
    (p.setSink s sink).sinks = p.sinks.set s sink := by
  funext t
  by_cases ht : t = s
  · subst ht
    rw [Table.set_same]
    exact p.sink_setSink_same t sink
  · rw [Table.set_other _ _ ht]
    exact congrArg Stream.sink (p.table_setSink_other ht sink)

/-- `p` and `q` have the same values and the same sinks, whatever the slots are, of which `q` has all. -/
structure ShowsSame (p q : Streams) : Prop where
  left : p.Consistent
  right : q.Consistent
  complete : q.slots.Complete
  values : ∀ kind s, q.value kind s = p.value kind s
  sinks : q.sinks = p.sinks

namespace ShowsSame

theorem view (h : ShowsSame p q) : q.view = p.view := by
  funext s
  have hsink : (q.table s).sink = (p.table s).sink := congrFun h.sinks s
  unfold Streams.view Streams.depth
  rw [level_eq_value, level_eq_value, hsink, h.values, h.values]

/-- `enter` and `leave` are updates, which change the same value. -/
theorem update (h : ShowsSame p q) (kind : Annotation) (s : Nat) (f : Int64 → Int64) :
    ShowsSame (p.update kind s f).value (q.update kind s f).value where
  left := h.left.update
  right := h.right.update
  complete := by rw [slots_update, h.complete.allocate]; exact h.complete
  values k t := by
    by_cases hsame : k = kind ∧ t = s
    · obtain ⟨rfl, rfl⟩ := hsame
      rw [value_update_same h.right, value_update_same h.left, h.values]
    · have hne : k ≠ kind ∨ t ≠ s := Decidable.not_and_iff_or_not.mp hsame
      rw [value_update_other h.right hne, value_update_other h.left hne, h.values]
  sinks := by rw [sinks_update, sinks_update, h.sinks]

end ShowsSame

/-- `update` logs nothing but `slotAllocated`. -/
theorem filter_events_update (p : Streams) (kind : Annotation) (s : Nat) (f : Int64 → Int64) :
    (p.update kind s f).events.filter (!·.isAllocation) = [] := by
  unfold update
  simp only
  split <;> rfl

/-! ### Actions -/

/-- The same answer, the same sinks and the same events. -/
structure SameOutcome (r r' : ActionOutcome) : Prop where
  answer : r'.1 = r.1
  sinks : r'.2.value.sinks = r.2.value.sinks
  events : r'.2.events = r.2.events

theorem SameOutcome.onSink (h : q.sinks = p.sinks) {α : Type} (answer : α → Answer) (s : Nat)
    (work : Sink → Except WriteError α × Sink) :
    SameOutcome (p.onSink s answer (work (p.table s).sink))
      (q.onSink s answer (work (q.table s).sink)) := by
  have hsink : (q.table s).sink = (p.table s).sink := congrFun h s
  rw [hsink]
  refine ⟨rfl, ?_, rfl⟩
  show (q.setSink s _).sinks = (p.setSink s _).sinks
  rw [sinks_setSink, sinks_setSink, h]

/-- `act` does the same in states that show the same, if it does not write the hint. -/
theorem ShowsSame.sameOutcome (h : ShowsSame p q) (interfaces : Interfaces) (s : Nat)
    {action : Action} (hhint : action = .level → (p.slots.number? .detail).isSome = true) :
    SameOutcome (p.act interfaces s action) (q.act interfaces s action) := by
  have hvalues : ∀ kind, q.value kind s = p.value kind s := fun kind => h.values kind s
  cases action with
  | depth => exact ⟨answer_question_congr interfaces rfl hvalues, h.sinks, rfl⟩
  | level =>
      have hlevel := detailLevel_of_isSome (hhint rfl) s
      have hlevel' := detailLevel_of_isSome (h.complete .detail) s
      refine ⟨answer_question_congr interfaces rfl hvalues, ?_, ?_⟩
      · show (q.detailLevel s).2.value.sinks = (p.detailLevel s).2.value.sinks
        rw [hlevel, hlevel']
        exact h.sinks
      · show (q.detailLevel s).2.events = (p.detailLevel s).2.events
        rw [hlevel, hlevel']
        rfl
  | indentation => exact ⟨answer_question_congr interfaces rfl hvalues, h.sinks, rfl⟩
  | writeIndentation =>
      have hdepth : q.depth s = p.depth s := h.values .indent s
      unfold act
      rw [hdepth]
      exact .onSink h.sinks _ s (Sink.writeRepeated indentUnit.utf8 (p.depth s).toInt.toNat)
  | write data => exact .onSink h.sinks _ s (·.writeAll data)
  | offer data => exact .onSink h.sinks _ s (·.write data)
  | offerPieces parts => exact .onSink h.sinks _ s (·.write parts.flatten)
  | writeSink data => exact .onSink h.sinks _ s (·.writeAll data)
  | writeAddress text =>
      unfold act
      simp only
      cases hparse : Address.parse interfaces text 0 with
      | mk result events =>
          cases result with
          | error e => exact ⟨rfl, h.sinks, rfl⟩
          | ok a =>
              obtain ⟨hanswer, hsinks, -⟩ := SameOutcome.onSink h.sinks (fun () => .nothing) s
                (Sink.writePieces (a.summaryPieces.map Text.utf8))
              exact ⟨hanswer, hsinks, rfl⟩
  | flush => exact .onSink h.sinks _ s (·.flush)

/-- `act` keeps states that show the same. -/
theorem ShowsSame.act (h : ShowsSame p q) {interfaces : Interfaces} {action : Action}
    (houtcome : SameOutcome (p.act interfaces s action) (q.act interfaces s action)) :
    ShowsSame (p.act interfaces s action).2.value (q.act interfaces s action).2.value := by
  have hleft := sameCells_act interfaces p s action
  have hright := sameCells_act interfaces q s action
  refine ⟨hleft.consistent h.left, hright.consistent h.right, ?_, fun kind t => ?_, houtcome.sinks⟩
  · rw [hright.1]
    exact h.complete
  · rw [hright.value, hleft.value, h.values]

/-- `Address.parse` logs nothing about slots. -/
theorem filter_events_parse (interfaces : Interfaces) (text : Text) (port : UInt16) :
    (Address.parse interfaces text port).events.filter (!·.isAllocation) =
      (Address.parse interfaces text port).events := by
  unfold Address.parse
  split
  · rfl
  · next spelling _ =>
      cases spelling with
      | v4 ip port' => rfl
      | v6 ip scope port' =>
          cases scope with
          | none => rfl
          | some scope =>
              unfold Spelling.resolve resolveScope
              rw [Logged.events_map, Logged.events_map]
              split
              · rfl
              · split <;> rfl

/-- `act` logs nothing about slots. -/
theorem filter_events_act (interfaces : Interfaces) (p : Streams) (s : Nat) (action : Action) :
    (p.act interfaces s action).2.events.filter (!·.isAllocation) =
      (p.act interfaces s action).2.events := by
  cases action with
  | depth => rfl
  | level =>
      show (p.detailLevel s).2.events.filter _ = (p.detailLevel s).2.events
      unfold detailLevel
      split
      · rfl
      · split <;> rfl
  | indentation => rfl
  | writeIndentation => rfl
  | write data => rfl
  | offer data => rfl
  | offerPieces parts => rfl
  | writeSink data => rfl
  | writeAddress text =>
      have hparse := filter_events_parse interfaces text 0
      unfold act
      simp only
      cases h : Address.parse interfaces text 0 with
      | mk result events =>
          rw [h] at hparse
          cases result with
          | error e => exact hparse
          | ok a => simpa [writeTexts, onSink, Logged.quiet] using hparse
  | flush => rfl

end Streams

/-! ## Runs -/

/-- Levels are only asked for where they have a slot. -/
def HintFree (entries : List ScriptEntry) : Prop :=
  ∀ e ∈ entries, ∀ answer, e.note = .acted .level answer →
    (e.state.slots.number? .detail).isSome = true

namespace HintFree

variable {t : Trace ScriptEntry} {e : ScriptEntry} {r : ScriptRun}

theorem of_after (h : HintFree (r.after t).trace.entries) : HintFree r.trace.entries := by
  have happend : (r.after t).trace.entries = t.entries ++ r.trace.entries := Trace.entries_append t _
  rw [happend] at h
  exact (List.forall_mem_append.mp h).2

theorem before (h : HintFree (r.after (t ++ [.entry e])).trace.entries) : HintFree t.entries := by
  have happend : (r.after (t ++ [.entry e])).trace.entries = t.entries ++ e :: r.trace.entries := by
    simp [ScriptRun.after]
  rw [happend] at h
  exact (List.forall_mem_append.mp h).1

end HintFree

/-- What two runs come to that show the same, the second one without giving out slots. -/
structure ScriptRun.ShowsSame (r r' : ScriptRun) : Prop where
  states : Streams.ShowsSame r.streams r'.streams
  panic : r'.panic = r.panic
  trace : r'.trace.views = r.trace.withoutAllocations.views

section

variable {interfaces : Interfaces} {p q : Streams} {s : Nat} {note : ScriptNote}
  {events events' : List Event}

/-- Events and an entry that show the same. -/
theorem Trace.views_step (hevents : events' = events.filter (!·.isAllocation))
    (hview : q.view = p.view) :
    views (ofEvents events' ++ [.entry ⟨note, s, q⟩]) =
      views (withoutAllocations (ofEvents events ++ [.entry ⟨note, s, p⟩])) := by
  rw [withoutAllocations_append, withoutAllocations_ofEvents, views_append, views_append, hevents]
  show _ ++ [Happening.entry (⟨note, s, q.view⟩ : EntryView)] =
    _ ++ [Happening.entry (⟨note, s, p.view⟩ : EntryView)]
  rw [hview]

theorem ScriptRun.ShowsSame.after {r r' : ScriptRun} {t t' : Trace ScriptEntry}
    (h : ShowsSame r r') (ht : t'.views = t.withoutAllocations.views) :
    ShowsSame (r.after t) (r'.after t') where
  states := h.states
  panic := h.panic
  trace := by
    show Trace.views (t' ++ r'.trace) = Trace.views (Trace.withoutAllocations (t ++ r.trace))
    rw [Trace.withoutAllocations_append, Trace.views_append, Trace.views_append, ht, h.trace]

/-- A run with an entry after it that shows the same. -/
theorem ScriptRun.ShowsSame.views_entry {r r' : ScriptRun} (h : ShowsSame r r')
    (hview : q.view = p.view) :
    Trace.views (r'.trace ++ [.entry ⟨note, s, q⟩]) =
      Trace.views (Trace.withoutAllocations (r.trace ++ [.entry ⟨note, s, p⟩])) := by
  have hnone : ([] : List Event) = [].filter fun e => !e.isAllocation := rfl
  have hentry : Trace.views [.entry ⟨note, s, q⟩] =
      Trace.views (Trace.withoutAllocations [.entry ⟨note, s, p⟩]) := Trace.views_step hnone hview
  rw [Trace.withoutAllocations_append, Trace.views_append, Trace.views_append, h.trace, hentry]

end

/-- A scope that both runs enter, if the steps inside it and those after it are taken for granted. -/
theorem Script.showsSame_scope {machine : Machine} {kind : Annotation} {s : Nat} {amount : Int64}
    {body next : Script} {p q : Streams} (h : Streams.ShowsSame p q)
    (hadmits : p.admits machine kind s amount = true)
    (hhints : HintFree ((scope kind s amount body next).run machine p).trace.entries)
    (hbody : ∀ {p q : Streams}, Streams.ShowsSame p q → HintFree (body.run machine p).trace.entries →
      ScriptRun.ShowsSame (body.run machine p) (body.run machine q))
    (hnext : ∀ {p q : Streams}, Streams.ShowsSame p q → HintFree (next.run machine p).trace.entries →
      ScriptRun.ShowsSame (next.run machine p) (next.run machine q)) :
    ScriptRun.ShowsSame ((scope kind s amount body next).run machine p)
      ((scope kind s amount body next).run machine q) := by
  have hadmits' : q.admits machine kind s amount = true :=
    (Streams.admits_congr (h.values kind s)).trans hadmits
  have hentered : Streams.ShowsSame (p.enter kind s amount).value (q.enter kind s amount).value :=
    h.update kind s _
  have hquiet : (q.enter kind s amount).events =
      (p.enter kind s amount).events.filter (!·.isAllocation) :=
    (Streams.events_update_of_isSome (h.complete kind)).trans (p.filter_events_update kind s _).symm
  -- what is put back was read before the scope, where both states have the same value
  have hleft : ∀ {inner inner' : Streams}, Streams.ShowsSame inner inner' →
      Streams.ShowsSame (inner.leave kind s amount (p.value kind s)).value
        (inner'.leave kind s amount (q.value kind s)).value := by
    intro inner inner' hinner
    rw [h.values]
    exact hinner.update kind s _
  rw [run_scope_of_admits _ _ _ _ _ _ _ hadmits] at hhints
  rw [run_scope_of_admits _ _ _ _ _ _ _ hadmits, run_scope_of_admits _ _ _ _ _ _ _ hadmits']
  have hinside := hhints.of_after
  refine ScriptRun.ShowsSame.after ?_ (Trace.views_step hquiet hentered.view)
  cases hpanic : (body.run machine (p.enter kind s amount).value).panic with
  | some reason =>
      rw [hpanic] at hinside
      have hinner := hbody hentered hinside
      rw [hinner.panic, hpanic]
      exact ⟨hleft hinner.states, rfl, hinner.trace⟩
  | none =>
      rw [hpanic] at hinside
      have hinner := hbody hentered hinside.before
      rw [hinner.panic, hpanic]
      exact (hnext (hleft hinner.states) hinside.of_after).after
        (hinner.views_entry (hleft hinner.states).view)

/-- **Runs from states that show the same show the same**, if no hint is written. -/
theorem Script.showsSame_run (machine : Machine) (script : Script) {p q : Streams}
    (h : Streams.ShowsSame p q) (hhints : HintFree (script.run machine p).trace.entries) :
    ScriptRun.ShowsSame (script.run machine p) (script.run machine q) := by
  induction script generalizing p q with
  | done => exact ⟨h, rfl, rfl⟩
  | act s action next ih =>
      rw [entries_act] at hhints
      obtain ⟨haction, hnext⟩ := List.forall_mem_cons.mp hhints
      -- the hypothesis is about the state after the step, which has the slots of the one before
      have hslot : action = .level → (p.slots.number? .detail).isSome = true := by
        rintro rfl
        rw [← (Streams.sameCells_act machine.interfaces p s .level).1]
        exact haction _ rfl
      have houtcome := h.sameOutcome machine.interfaces s hslot
      have hstates := h.act houtcome
      rw [run_act, run_act, houtcome.answer]
      exact (ih hstates hnext).after
        (Trace.views_step (houtcome.events.trans (Streams.filter_events_act ..).symm) hstates.view)
  | scope kind s amount body next ihBody ihNext =>
      cases hadmits : p.admits machine kind s amount with
      | true => exact showsSame_scope h hadmits hhints ihBody ihNext
      | false =>
          have hadmits' : q.admits machine kind s amount = false :=
            (Streams.admits_congr (h.values kind s)).trans hadmits
          rw [run_scope_of_not_admits hadmits, run_scope_of_not_admits hadmits']
          exact ⟨h, rfl, rfl⟩
  | attempt s body next ihBody ihNext =>
      rw [run_attempt] at hhints
      have hbody := ihBody h hhints.before
      rw [run_attempt, run_attempt, hbody.panic]
      exact (ihNext hbody.states hhints.of_after).after (hbody.views_entry hbody.states.view)
  | panic reason next => exact ⟨h, rfl, rfl⟩

/-- A run is `HintFree` if a detail scope is entered before any level is asked for. -/
theorem Script.hintFree_run (machine : Machine) (script : Script) (p : Streams)
    (hlevels : ∀ earlier e later answer, (script.run machine p).trace.entries = earlier ++ e :: later →
      e.note = .acted .level answer → ∃ g ∈ earlier, g.note = .entered .detail) :
    HintFree (script.run machine p).trace.entries := by
  intro e he answer hnote
  rw [← Trace.values_grouped []] at he hlevels
  obtain ⟨g, hg, rfl⟩ := List.mem_map.mp he
  obtain ⟨earlier, later, hrecord⟩ := List.append_of_mem hg
  -- the record as a chain of moves, in which an entered scope leaves its slot behind
  have hmoves := (moves_run machine script p).moves
  rw [hrecord] at hmoves hlevels
  obtain ⟨hearlier, hmove⟩ := hmoves.split
  obtain ⟨e', he', hentered⟩ := hlevels _ _ _ answer List.map_append hnote
  obtain ⟨g', hg', rfl⟩ := List.mem_map.mp he'
  have hbefore := (hearlier.isSome_number_iff .detail).mpr (.inr ⟨g', hg', hentered⟩)
  exact (hmove.isSome_number_iff .detail).mpr (.inl hbefore)

theorem Streams.showsSame_start {slots slots' : Slots} (hslots : slots.WellFormed)
    (hslots' : slots'.WellFormed) (hcomplete : slots'.Complete) (sinks : Table Nat Sink) :
    ShowsSame (.start slots sinks) (.start slots' sinks) where
  left := consistent_start hslots sinks
  right := consistent_start hslots' sinks
  complete := hcomplete
  values kind s := by rw [value_start, value_start]
  sinks := rfl

/-- **It does not show that slots are given out when they are first used.** If a run in a fresh process asks for
    no level before the first detail scope is entered, then a process in which both slots have been given out, in
    either order, does the same: apart from the events about slots that are given out the traces are the same, with
    the answers and with the bytes, flushes, depths and levels of all streams after each entry; so are the panic
    and what is seen of the streams at the end. -/
theorem Script.run_fresh_shows (machine : Machine) (script : Script) (sinks : Table Nat Sink)
    {slots : Slots} (hslots : slots.WellFormed) (hcomplete : slots.Complete)
    (hlevels : ∀ earlier e later answer,
      (script.run machine (.start .fresh sinks)).trace.entries = earlier ++ e :: later →
        e.note = .acted .level answer → ∃ g ∈ earlier, g.note = .entered .detail) :
    (script.run machine (.start slots sinks)).trace.views =
        (script.run machine (.start .fresh sinks)).trace.withoutAllocations.views ∧
      (script.run machine (.start slots sinks)).panic =
        (script.run machine (.start .fresh sinks)).panic ∧
      (script.run machine (.start slots sinks)).streams.view =
        (script.run machine (.start .fresh sinks)).streams.view := by
  have hstart := Streams.showsSame_start Slots.wellFormed_fresh hslots hcomplete sinks
  have hrun := showsSame_run machine script hstart (hintFree_run machine script _ hlevels)
  exact ⟨hrun.trace, hrun.panic, hrun.states.view⟩

/-- A script that uses the levels first, which have the second slot in the other process. Both processes ask
    for a level twice, with the answers `3` and `0`, and give the text of one indentation by two. -/
theorem Script.run_fresh_shows_detail_first :
    let script := attempt 0
      (scope .detail 1 3
        (scope .indent 0 2 (act 0 .indentation (act 1 .level (panic "lost".toList done))) done) done)
      (act 0 .level done)
    let fresh := script.run .loopbackOnly (.start .fresh fun _ => .empty none none)
    let settled := script.run .loopbackOnly (.start .settled fun _ => .empty none none)
    Slots.settled.WellFormed ∧ Slots.settled.Complete ∧
      (∀ earlier e later answer, fresh.trace.entries = earlier ++ e :: later →
        e.note = .acted .level answer → ∃ g ∈ earlier, g.note = .entered .detail) ∧
      settled.trace.views = fresh.trace.withoutAllocations.views ∧
      settled.trace.entries.map ScriptEntry.note =
        [.entered .detail, .entered .indent, .acted .indentation (.ok (.text "        ".toList)),
          .acted .level (.ok (.number 3)), .caught (some "lost".toList),
          .acted .level (.ok (.number 0))] ∧
      settled.trace.events = [] ∧
      fresh.trace.events = [.slotAllocated .detail 0, .slotAllocated .indent 1] := by
  intro script fresh settled
  have hlevels : ∀ earlier e later answer, fresh.trace.entries = earlier ++ e :: later →
      e.note = .acted .level answer → ∃ g ∈ earlier, g.note = .entered .detail := by
    have hfirst : fresh.trace.entries = ⟨.entered .detail, 1, _⟩ :: fresh.trace.entries.tail := rfl
    intro earlier e later answer hsplit hnote
    rw [hfirst] at hsplit
    cases earlier with
    | nil =>
        obtain ⟨rfl, -⟩ := List.cons.inj hsplit
        cases hnote
    | cons g earlier =>
        obtain ⟨rfl, -⟩ := List.cons.inj hsplit
        exact ⟨_, List.mem_cons_self, rfl⟩
  obtain ⟨hviews, -⟩ := run_fresh_shows .loopbackOnly script (fun _ => .empty none none)
    Slots.wellFormed_settled Slots.complete_settled hlevels
  exact ⟨Slots.wellFormed_settled, Slots.complete_settled, hlevels, hviews, rfl, rfl, rfl⟩

end NetKit
