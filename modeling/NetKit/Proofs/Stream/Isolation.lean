import NetKit.Proofs.Stream.Guards

/-!
# Isolation — no stream shows what is done with the others

All streams share the slots of their annotations, and scopes of different streams nest in each other and
are left together by a panic. Once both slots have been given out none of this shows on a stream: it shows
what it would if the other streams did not occur (`Script.only`), with the actions on them deleted, and of
their scopes only the steps inside kept.

Two states are alike for a stream if they have the same slots and the stream is the same in both
(`Streams.AlikeOn`). A step on another stream leaves a state alike, and a step on the stream itself does
the same to states that are alike. The induction is on the script, for all pairs of such states. A scope on
another stream makes the steps inside it and those after it one sequence, so runs of such sequences are
taken apart first (`Script.run_append`).

Two things do show on all streams, and are excluded. While the slot of the levels is missing, a detail
scope on any stream gives it out, and after that the hint is written to none of them. A scope on another
stream that overflow checks refuse is a panic, so the run is asked to refuse none (`Script.Admitted`).

## Contents
- `Script.append`, `Script.run_append`: one script after another.
- `Script.only`: what a script does with one stream.
- `StreamView`, `shownOn`: what a stream shows.
- `Streams.AlikeOn`, `Streams.AlikeOn.act_same`, `Streams.AlikeOn.act_other`: states that are alike.
- `Script.alikeOn_scope_same`, `Script.alikeOn_scope_other`, `Script.isolated_run`: runs.
- `Script.run_isolated`: runs from streams without annotations.
-/

namespace NetKit

/-! ## One script after another -/

/-- One script after another, which is left out if the first one panics. -/
def Script.append : Script → Script → Script
  | done, rest => rest
  | act s action next, rest => act s action (next.append rest)
  | scope kind s amount body next, rest => scope kind s amount body (next.append rest)
  | attempt s body next, rest => attempt s body (next.append rest)
  | panic reason next, rest => panic reason (next.append rest)

namespace ScriptRun

/-- A run that goes on where it has ended, unless it has panicked. -/
def andThen (r : ScriptRun) (f : Streams → ScriptRun) : ScriptRun :=
  match r.panic with
  | some _ => r
  | none => (f r.streams).after r.trace

variable {r : ScriptRun}

theorem andThen_of_panic {reason : Text} (h : r.panic = some reason) (f : Streams → ScriptRun) :
    r.andThen f = r := by
  unfold andThen
  rw [h]

theorem andThen_of_end (h : r.panic = none) (f : Streams → ScriptRun) :
    r.andThen f = (f r.streams).after r.trace := by
  unfold andThen
  rw [h]

theorem after_andThen (earlier : Trace ScriptEntry) (r : ScriptRun) (f : Streams → ScriptRun) :
    (r.after earlier).andThen f = (r.andThen f).after earlier := by
  cases h : r.panic with
  | some reason =>
      rw [andThen_of_panic h, andThen_of_panic (show (r.after earlier).panic = some reason from h)]
  | none =>
      rw [andThen_of_end h, andThen_of_end (show (r.after earlier).panic = none from h)]
      unfold after
      rw [List.append_assoc]

end ScriptRun

/-- **`run` of `append`** goes on where the first script has ended. -/
theorem Script.run_append (machine : Machine) (script rest : Script) (p : Streams) :
    (script.append rest).run machine p = (script.run machine p).andThen (rest.run machine) := by
  induction script generalizing p with
  | done =>
      rw [run, ScriptRun.andThen_of_end rfl]
      rfl
  | act s action next ih =>
      rw [append, run, run]
      simp only [ih, ScriptRun.after_andThen]
  | scope kind s amount body next ihBody ihNext =>
      rw [append, run, run]
      cases p.admits machine kind s amount with
      | false => rfl
      | true =>
          simp only [if_true]
          cases hpanic : (body.run machine (p.enter kind s amount).value).panic with
          | some reason => rfl
          | none => simp only [ihNext, ScriptRun.after_andThen]
  | attempt s body next ihBody ihNext =>
      rw [append, run, run]
      simp only [ihNext, ScriptRun.after_andThen]
  | panic reason next ih => rfl

/-! ## One stream of a script -/

/-- What a script does with stream `s`: actions on other streams are deleted, and scopes on them are
    replaced by the steps inside. -/
def Script.only (s : Nat) : Script → Script
  | done => done
  | act t action next => if t = s then act t action (next.only s) else next.only s
  | scope kind t amount body next =>
    if t = s then scope kind t amount (body.only s) (next.only s)
    else (body.only s).append (next.only s)
  | attempt t body next => attempt t (body.only s) (next.only s)
  | panic reason next => panic reason (next.only s)

/-- What can be seen of a stream: what has come of its sink, and its values. -/
structure StreamView where
  sink : Sink
  depth : Int64
  level : Int64
  deriving DecidableEq, Repr

/-- The `StreamView` of stream `s`. -/
def Streams.view (p : Streams) (s : Nat) : StreamView :=
  ⟨(p.table s).sink, p.depth s, (p.detailLevel s).1⟩

/-- What the entries of stream `s` show: for each the step with its answer, and the `StreamView` after it. -/
def shownOn (s : Nat) (entries : List ScriptEntry) : List (ScriptNote × StreamView) :=
  entries.filterMap fun e => if e.stream = s then some (e.note, e.state.view s) else none

section

variable {s t : Nat} {note : ScriptNote} {p : Streams} {entries : List ScriptEntry}

theorem shownOn_append (s : Nat) (entries entries' : List ScriptEntry) :
    shownOn s (entries ++ entries') = shownOn s entries ++ shownOn s entries' :=
  List.filterMap_append

theorem shownOn_cons_same :
    shownOn s (⟨note, s, p⟩ :: entries) = (note, p.view s) :: shownOn s entries := by
  unfold shownOn
  exact List.filterMap_cons_some (if_pos rfl)

theorem shownOn_cons_other (h : t ≠ s) :
    shownOn s (⟨note, t, p⟩ :: entries) = shownOn s entries := by
  unfold shownOn
  exact List.filterMap_cons_none (if_neg h)

theorem shownOn_cons_congr {q : Streams} {entries' : List ScriptEntry} (t : Nat)
    (note : ScriptNote) (hview : q.view s = p.view s)
    (hentries : shownOn s entries' = shownOn s entries) :
    shownOn s (⟨note, t, q⟩ :: entries') = shownOn s (⟨note, t, p⟩ :: entries) := by
  by_cases ht : t = s
  · subst ht
    rw [shownOn_cons_same, shownOn_cons_same, hview, hentries]
  · rw [shownOn_cons_other ht, shownOn_cons_other ht, hentries]

end

/-! ## States that are alike -/

/-- All kinds of annotation have a slot. -/
def Slots.Complete (slots : Slots) : Prop := ∀ kind, (slots.number? kind).isSome = true

theorem Slots.complete_settled : Slots.settled.Complete := by
  intro kind
  cases kind <;> rfl

theorem Slots.Complete.allocate {slots : Slots} (h : slots.Complete) (kind : Annotation) :
    (slots.allocate kind).2.1 = slots := by
  obtain ⟨id, hid⟩ := Option.isSome_iff_exists.mp (h kind)
  rw [Slots.allocate_of_number hid]

namespace Streams

/-- Two states with the same slots, of which none is missing, and with the same stream `s`. -/
structure AlikeOn (s : Nat) (p q : Streams) : Prop where
  complete : p.slots.Complete
  slots : q.slots = p.slots
  table : q.table s = p.table s

variable {s t : Nat} {p q : Streams}

namespace AlikeOn

theorem value (h : AlikeOn s p q) (kind : Annotation) : q.value kind s = p.value kind s := by
  unfold Streams.value
  rw [h.slots, h.table]

theorem view (h : AlikeOn s p q) : q.view s = p.view s := by
  unfold Streams.view Streams.depth
  rw [level_eq_value, level_eq_value, h.table, h.value, h.value]

/-! ### Steps on another stream -/

/-- `act` on another stream leaves a state alike. -/
theorem act_other (h : AlikeOn s p q) (ht : t ≠ s) (interfaces : Interfaces) (action : Action) :
    AlikeOn s (p.act interfaces t action).2.value q := by
  have hslots := (sameCells_act interfaces p t action).1
  refine ⟨?_, h.slots.trans hslots.symm, ?_⟩
  · rw [hslots]; exact h.complete
  · rw [table_act_other interfaces p (Ne.symm ht)]; exact h.table

/-- `update` on another stream leaves a state alike, as it gives out no slot. -/
theorem update_other (h : AlikeOn s p q) (ht : t ≠ s) (kind : Annotation) (f : Int64 → Int64) :
    AlikeOn s (p.update kind t f).value q := by
  have hslots : (p.update kind t f).value.slots = p.slots :=
    slots_update.trans (h.complete.allocate kind)
  refine ⟨?_, h.slots.trans hslots.symm, ?_⟩
  · rw [hslots]; exact h.complete
  · rw [table_update_other (Ne.symm ht)]; exact h.table

/-! ### Steps on the stream -/

/-- The same sink can be put under the stream. -/
theorem setSink (h : AlikeOn s p q) (sink : Sink) :
    AlikeOn s (p.setSink s sink) (q.setSink s sink) where
  complete := h.complete
  slots := h.slots
  table := by
    show (q.table.set s _) s = (p.table.set s _) s
    rw [Table.set_same, Table.set_same, h.table]

/-- An action that only works on the sink of the stream. -/
theorem onSink (h : AlikeOn s p q) {α : Type} (answer : α → Answer)
    (work : Sink → Except WriteError α × Sink) :
    AlikeOn s (p.onSink s answer (work (p.table s).sink)).2.value
        (q.onSink s answer (work (q.table s).sink)).2.value ∧
      (q.onSink s answer (work (q.table s).sink)).1 =
        (p.onSink s answer (work (p.table s).sink)).1 := by
  rw [h.table]
  exact ⟨h.setSink _, rfl⟩

theorem update_same (h : AlikeOn s p q) (kind : Annotation) (f : Int64 → Int64) :
    AlikeOn s (p.update kind s f).value (q.update kind s f).value where
  complete := by rw [slots_update, h.complete.allocate]; exact h.complete
  slots := by rw [slots_update, slots_update, h.slots]
  table := by
    rw [table_update, table_update, Table.set_same, Table.set_same, h.slots, h.table]

/-- If no slot is missing, then `detailLevel` writes no hint. -/
theorem value_detailLevel (hslots : p.slots.Complete) : (p.detailLevel s).2.value = p := by
  obtain ⟨id, hid⟩ := Option.isSome_iff_exists.mp (hslots .detail)
  unfold Streams.detailLevel
  rw [hid]
  rfl

/-- **`act` on the stream keeps states alike**, and has the same answer in both. -/
theorem act_same (h : AlikeOn s p q) (interfaces : Interfaces) (action : Action) :
    AlikeOn s (p.act interfaces s action).2.value (q.act interfaces s action).2.value ∧
      (q.act interfaces s action).1 = (p.act interfaces s action).1 := by
  cases action with
  | depth => exact ⟨h, answer_question_congr interfaces rfl h.value⟩
  | level =>
      refine ⟨?_, answer_question_congr interfaces rfl h.value⟩
      show AlikeOn s (p.detailLevel s).2.value (q.detailLevel s).2.value
      rw [value_detailLevel h.complete, value_detailLevel (h.slots ▸ h.complete)]
      exact h
  | indentation => exact ⟨h, answer_question_congr interfaces rfl h.value⟩
  | writeIndentation =>
      have hdepth : q.depth s = p.depth s := h.value .indent
      unfold act
      rw [hdepth]
      exact h.onSink _ (Sink.writeRepeated indentUnit.utf8 (p.depth s).toInt.toNat)
  | write data => exact h.onSink _ (·.writeAll data)
  | offer data => exact h.onSink _ (·.write data)
  | offerPieces parts => exact h.onSink _ (·.write parts.flatten)
  | writeSink data => exact h.onSink _ (·.writeAll data)
  | writeAddress text =>
      unfold act
      simp only
      cases hparse : Address.parse interfaces text 0 with
      | mk result events =>
          cases result with
          | error e => exact ⟨h, rfl⟩
          | ok a => exact h.onSink _ (Sink.writePieces (a.summaryPieces.map Text.utf8))
  | flush => exact h.onSink _ (·.flush)

end AlikeOn

end Streams

/-! ## Runs -/

/-- What two runs come to that show the same on stream `s`. -/
structure ScriptRun.AlikeOn (s : Nat) (r other : ScriptRun) : Prop where
  states : Streams.AlikeOn s r.streams other.streams
  panic : other.panic = r.panic
  shown : shownOn s other.trace.entries = shownOn s r.trace.entries

section

variable {machine : Machine} {s : Nat} {p q : Streams} {body next body' next' : Script}

/-- A scope on the stream, if the steps inside it and those after it are taken for granted. -/
theorem Script.alikeOn_scope_same {kind : Annotation} {amount : Int64}
    (hadmitted : (scope kind s amount body next).Admitted machine p) (h : Streams.AlikeOn s p q)
    (hbody : ∀ {p q : Streams}, body.Admitted machine p → Streams.AlikeOn s p q →
      ScriptRun.AlikeOn s (body.run machine p) (body'.run machine q))
    (hnext : ∀ {p q : Streams}, next.Admitted machine p → Streams.AlikeOn s p q →
      ScriptRun.AlikeOn s (next.run machine p) (next'.run machine q)) :
    ScriptRun.AlikeOn s ((scope kind s amount body next).run machine p)
      ((scope kind s amount body' next').run machine q) := by
  obtain ⟨hadmits, hinside, hbehind⟩ := hadmitted
  have hadmits' : q.admits machine kind s amount = true :=
    (Streams.admits_congr (h.value kind)).trans hadmits
  have hentered : Streams.AlikeOn s (p.enter kind s amount).value (q.enter kind s amount).value :=
    h.update_same kind _
  obtain ⟨hinner, hpanic, hshown⟩ := hbody hinside hentered
  have hleft : Streams.AlikeOn s (scopeEnd machine p kind s amount body)
      (scopeEnd machine q kind s amount body') := by
    unfold scopeEnd
    rw [h.value]
    exact hinner.update_same kind _
  have hscope := shownOn_cons_congr s (.entered kind) hentered.view hshown
  cases hend : (body.run machine (p.enter kind s amount).value).panic with
  | some reason =>
      obtain ⟨hstreams, hreason, hentries⟩ := run_scope_of_panic machine p hadmits next hend
      obtain ⟨hstreams', hreason', hentries'⟩ :=
        run_scope_of_panic machine q hadmits' next' (hpanic.trans hend)
      refine ⟨?_, hreason'.trans hreason.symm, ?_⟩
      · rw [hstreams, hstreams']; exact hleft
      · rw [hentries, hentries']; exact hscope
  | none =>
      obtain ⟨hlast, hpanic', hrest⟩ := hnext (hbehind hend) hleft
      obtain ⟨hstreams, hreason, hentries⟩ := run_scope_of_end machine p hadmits next hend
      obtain ⟨hstreams', hreason', hentries'⟩ :=
        run_scope_of_end machine q hadmits' next' (hpanic.trans hend)
      refine ⟨?_, ?_, ?_⟩
      · rw [hstreams, hstreams']; exact hlast
      · rw [hreason, hreason']; exact hpanic'
      · rw [hentries, hentries', shownOn_append, shownOn_append, hscope,
          shownOn_cons_congr s (.left kind) hleft.view hrest]

/-- A scope on another stream does not show: on the other side there are just the steps inside it, and then
    those after it. -/
theorem Script.alikeOn_scope_other {kind : Annotation} {t : Nat} {amount : Int64} (ht : t ≠ s)
    (hadmitted : (scope kind t amount body next).Admitted machine p) (h : Streams.AlikeOn s p q)
    (hbody : ∀ {p q : Streams}, body.Admitted machine p → Streams.AlikeOn s p q →
      ScriptRun.AlikeOn s (body.run machine p) (body'.run machine q))
    (hnext : ∀ {p q : Streams}, next.Admitted machine p → Streams.AlikeOn s p q →
      ScriptRun.AlikeOn s (next.run machine p) (next'.run machine q)) :
    ScriptRun.AlikeOn s ((scope kind t amount body next).run machine p)
      ((body'.append next').run machine q) := by
  obtain ⟨hadmits, hinside, hbehind⟩ := hadmitted
  have hentered : Streams.AlikeOn s (p.enter kind t amount).value q := h.update_other ht kind _
  obtain ⟨hinner, hpanic, hshown⟩ := hbody hinside hentered
  have hleft : Streams.AlikeOn s (scopeEnd machine p kind t amount body)
      (body'.run machine q).streams := hinner.update_other ht kind _
  rw [run_append]
  cases hend : (body.run machine (p.enter kind t amount).value).panic with
  | some reason =>
      obtain ⟨hstreams, hreason, hentries⟩ := run_scope_of_panic machine p hadmits next hend
      rw [ScriptRun.andThen_of_panic (hpanic.trans hend)]
      refine ⟨?_, (hpanic.trans hend).trans hreason.symm, ?_⟩
      · rw [hstreams]; exact hleft
      · rw [hentries, shownOn_cons_other ht]; exact hshown
  | none =>
      obtain ⟨hlast, hpanic', hrest⟩ := hnext (hbehind hend) hleft
      obtain ⟨hstreams, hreason, hentries⟩ := run_scope_of_end machine p hadmits next hend
      rw [ScriptRun.andThen_of_end (hpanic.trans hend)]
      refine ⟨?_, ?_, ?_⟩
      · rw [hstreams]; exact hlast
      · rw [hreason]; exact hpanic'
      · rw [hentries, shownOn_append, shownOn_cons_other ht, shownOn_cons_other ht, ← hshown,
          ← hrest, ← shownOn_append, ← Trace.entries_append]
        rfl

end

/-- **A run that is `Admitted` shows the same on a stream as a run of `only`.** -/
theorem Script.isolated_run (machine : Machine) {s : Nat} (script : Script) {p q : Streams}
    (hadmitted : script.Admitted machine p) (h : Streams.AlikeOn s p q) :
    ScriptRun.AlikeOn s (script.run machine p) ((script.only s).run machine q) := by
  induction script generalizing p q with
  | done => exact ⟨h, rfl, rfl⟩
  | act t action next ih =>
      by_cases ht : t = s
      · subst ht
        obtain ⟨hstates, hanswer⟩ := h.act_same machine.interfaces action
        obtain ⟨hlast, hpanic, hshown⟩ := ih hadmitted hstates
        rw [only, if_pos rfl]
        refine ⟨hlast, hpanic, ?_⟩
        rw [entries_act, entries_act, shownOn_cons_same, shownOn_cons_same, hanswer, hstates.view,
          hshown]
      · obtain ⟨hlast, hpanic, hshown⟩ := ih hadmitted (h.act_other ht machine.interfaces action)
        rw [only, if_neg ht]
        refine ⟨hlast, hpanic, ?_⟩
        rw [entries_act, shownOn_cons_other ht, hshown]
  | scope kind t amount body next ihBody ihNext =>
      by_cases ht : t = s
      · subst ht
        rw [only, if_pos rfl]
        exact alikeOn_scope_same hadmitted h ihBody ihNext
      · rw [only, if_neg ht]
        exact alikeOn_scope_other ht hadmitted h ihBody ihNext
  | attempt t body next ihBody ihNext =>
      obtain ⟨hinner, hpanic, hshown⟩ := ihBody hadmitted.1 h
      obtain ⟨hlast, hpanic', hshown'⟩ := ihNext hadmitted.2 hinner
      refine ⟨hlast, hpanic', ?_⟩
      rw [only, entries_attempt, entries_attempt, shownOn_append, shownOn_append, hshown, hpanic,
        shownOn_cons_congr t _ hinner.view hshown']
  | panic reason next ih => exact ⟨h, rfl, rfl⟩

theorem Streams.alikeOn_start {slots : Slots} (hslots : slots.Complete) {sinks sinks' : Table Nat Sink}
    {s : Nat} (hsink : sinks' s = sinks s) :
    AlikeOn s (start slots sinks) (start slots sinks') :=
  ⟨hslots, rfl, congrArg Stream.ofSink hsink⟩

/-- **Streams do not observe each other.** When both slots have been given out, every entry of a stream,
    with its answer and with the bytes, flushes, depth and level after it, is the same as in a run of the
    script in which the other streams do not occur; so is what is seen of the stream at the end, and whether
    there is a panic. Hence two scripts that do the same with the stream show the same on it, whatever they
    do with the others and whatever sinks the others have. Sums of depths wrap around, or else they are in
    range, as overflow checks on one stream are a panic for all of them. -/
theorem Script.run_isolated (machine : Machine) (script : Script) (s : Nat) {slots : Slots}
    (hslots : slots.Complete) (hfits : machine.overflow = .wraps ∨ slots.WellFormed ∧ script.DepthsFit [])
    (sinks : Table Nat Sink) :
    (shownOn s ((script.only s).run machine (.start slots sinks)).trace.entries =
        shownOn s (script.run machine (.start slots sinks)).trace.entries ∧
      ((script.only s).run machine (.start slots sinks)).streams.view s =
        (script.run machine (.start slots sinks)).streams.view s ∧
      ((script.only s).run machine (.start slots sinks)).panic =
        (script.run machine (.start slots sinks)).panic) ∧
    ∀ (other : Script) (sinks' : Table Nat Sink),
      machine.overflow = .wraps ∨ slots.WellFormed ∧ other.DepthsFit [] →
      other.only s = script.only s → sinks' s = sinks s →
      shownOn s (other.run machine (.start slots sinks')).trace.entries =
          shownOn s (script.run machine (.start slots sinks)).trace.entries ∧
        (other.run machine (.start slots sinks')).streams.view s =
          (script.run machine (.start slots sinks)).streams.view s ∧
        (other.run machine (.start slots sinks')).panic =
          (script.run machine (.start slots sinks)).panic := by
  have hstart : Streams.AlikeOn s (.start slots sinks) (.start slots sinks) :=
    Streams.alikeOn_start hslots rfl
  obtain ⟨hstates, hpanic, hshown⟩ :=
    isolated_run machine script (admitted_start hfits sinks) hstart
  refine ⟨⟨hshown, hstates.view, hpanic⟩, fun other sinks' hfits' honly hsink => ?_⟩
  have hstart' : Streams.AlikeOn s (.start slots sinks') (.start slots sinks) :=
    Streams.alikeOn_start hslots hsink.symm
  obtain ⟨hstates', hpanic', hshown'⟩ :=
    isolated_run machine other (admitted_start hfits' sinks') hstart'
  rw [honly] at hstates' hpanic' hshown'
  exact ⟨hshown'.symm.trans hshown, hstates'.view.symm.trans hstates.view,
    hpanic'.symm.trans hpanic⟩

/-- A scope on the first stream inside one on the second, both left by a panic. The first stream takes five
    bytes of an indentation by two, which fails, and shows depth `0` after the panic. The same is shown
    without the second stream, which may be full then. -/
theorem Script.run_isolated_nested :
    let script := attempt 0
      (scope .indent 1 3
        (scope .indent 0 2
          (act 1 .writeIndentation (act 0 .writeIndentation (panic "lost".toList done))) done) done)
      (act 1 .level (act 0 .depth done))
    let alone := attempt 0
      (scope .indent 0 2 (act 0 .writeIndentation (panic "lost".toList done)) done)
      (act 0 .depth done)
    let full : Sink := ⟨Text.utf8 "     ".toList, some 5, none, 0⟩
    let shown : List (ScriptNote × StreamView) :=
      [(.entered .indent, ⟨.empty (some 5) none, 2, 0⟩),
        (.acted .writeIndentation (.error (.write .closed)), ⟨full, 2, 0⟩),
        (.caught (some "lost".toList), ⟨full, 0, 0⟩),
        (.acted .depth (.ok (.number 0)), ⟨full, 0, 0⟩)]
    Slots.settled.Complete ∧ script.only 0 = alone ∧
      shownOn 0 (script.run .loopbackOnly
        (.start .settled fun _ => .empty (some 5) none)).trace.entries = shown ∧
      shownOn 0 (alone.run .loopbackOnly (.start .settled fun s =>
        .empty (if s = 0 then some 5 else some 0) none)).trace.entries = shown := by
  intro script alone full shown
  obtain ⟨-, hothers⟩ := run_isolated .loopbackOnly script 0 Slots.complete_settled (.inl rfl)
    fun _ => .empty (some 5) none
  obtain ⟨hshown, -⟩ := hothers alone
    (fun s => .empty (if s = 0 then some 5 else some 0) none) (.inl rfl) rfl rfl
  have hscript : shownOn 0 (script.run .loopbackOnly
      (.start .settled fun _ => .empty (some 5) none)).trace.entries = shown := by with_unfolding_all rfl
  exact ⟨Slots.complete_settled, rfl, hscript, hshown.trans hscript⟩

end NetKit
