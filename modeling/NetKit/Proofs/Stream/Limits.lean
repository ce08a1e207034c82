import Mathlib.Data.List.Forall2
import NetKit.Proofs.Stream.Steps
import NetKit.Proofs.Stream.Truncation

/-!
# Limits — what a limited stream shows of what a script writes

Two runs of a script are compared: in one of them a stream has a limit and takes its bytes in chunks, and in
the other one it takes everything. Each write truncates (`Sink.writeAll_limited`). `Streams.act` changes no
cell, and no cell depends on a sink, so the two runs stay in step (`Streams.LimitedOn`), over scopes, catches
and panics, and after writes that have failed. A scope is refused in both of them or in neither.

The induction is on the script, for all pairs of states that are in step, and for one stream at a time:
nothing is assumed of the sinks of the others, which may have limits of their own in either run.

## Contents
- `Script.OffersNothing`: scripts that write all of what they write.
- `FailsIff`, `ScriptEntry.Truncates`, `Truncation`: what becomes of the entries of a run.
- `Streams.LimitedOn`, `Streams.LimitedOn.act`: states in step.
- `Script.limited_scope`, `Script.limited_run`: runs in step.
- `Truncation.alike`: the chunk does not show.
- `Script.run_limited_truncates`: runs from empty sinks.
-/

namespace NetKit

/-! ## What becomes of the entries of a run -/

/-- A script that offers stream `s` no bytes in single calls. -/
def Script.OffersNothing (s : Nat) : Script → Prop
  | done => True
  | act t action next => (t = s → action.role ≠ .offer) ∧ next.OffersNothing s
  | scope _ _ _ body next => body.OffersNothing s ∧ next.OffersNothing s
  | attempt _ body next => body.OffersNothing s ∧ next.OffersNothing s
  | panic _ next => next.OffersNothing s

/-- The answer is `closed` exactly under `condition`, and else it is as without a limit. -/
structure FailsIff (condition : Prop) (answer full : Except ActionError Answer) : Prop where
  closed : answer = .error (.write .closed) ↔ condition
  otherwise : answer ≠ .error (.write .closed) → answer = full

/-- How the `answer` to an action on a stream with a limit compares with `full`, the answer without one,
    where the stream has `before` and then `after`. -/
def ActionRole.Truncates (limit : Option Nat) (before after : List UInt8)
    (answer full : Except ActionError Answer) : ActionRole → Prop
  | question => answer = full
  | write => FailsIff (before.length < after.length ∧ overruns limit after = true) answer full
  | offer => False
  | flush => FailsIff (reaches limit after = true) answer full

/-- How the notes of a step in two runs compare. On other streams than the limited one nothing is said about
    the answers of a sink. -/
inductive ScriptNote.Truncates (limit : Option Nat) (onLimited : Prop) (before after : List UInt8) :
    ScriptNote → ScriptNote → Prop where
  | acted {action : Action} {answer full : Except ActionError Answer}
      (hquestion : action.role = .question → answer = full)
      (hlimited : onLimited → action.role.Truncates limit before after answer full) :
      Truncates limit onLimited before after (.acted action answer) (.acted action full)
  | entered (kind : Annotation) : Truncates limit onLimited before after (.entered kind) (.entered kind)
  | left (kind : Annotation) : Truncates limit onLimited before after (.left kind) (.left kind)
  | caught (reason : Option Text) :
      Truncates limit onLimited before after (.caught reason) (.caught reason)

/-- How an entry of a run with a limit on stream `s` compares with the entry without it, `before` which the
    stream had some bytes. -/
structure ScriptEntry.Truncates (limit : Option Nat) (s : Nat) (before : List UInt8)
    (e full : ScriptEntry) : Prop where
  stream : e.stream = full.stream
  bytes : (e.state.table s).sink.bytes = clip limit (full.state.table s).sink.bytes
  flushes : (e.state.table s).sink.flushes = (full.state.table s).sink.flushes
  depth : ∀ t, e.state.depth t = full.state.depth t
  level : ∀ t, (e.state.detailLevel t).1 = (full.state.detailLevel t).1
  note : e.note.Truncates limit (e.stream = s) before (full.state.table s).sink.bytes full.note

/-- The entries of two runs, one by one, from the bytes that stream `s` has without a limit at their start
    to those that it has at their end. -/
inductive Truncation (limit : Option Nat) (s : Nat) :
    List UInt8 → List ScriptEntry → List ScriptEntry → List UInt8 → Prop where
  | nil {bytes : List UInt8} : Truncation limit s bytes [] [] bytes
  | cons {before after : List UInt8} {e full : ScriptEntry} {entries fulls : List ScriptEntry}
      (hentry : e.Truncates limit s before full)
      (hrest : Truncation limit s (full.state.table s).sink.bytes entries fulls after) :
      Truncation limit s before (e :: entries) (full :: fulls) after

theorem Truncation.append {limit : Option Nat} {s : Nat} {before between after : List UInt8}
    {entries fulls entries' fulls' : List ScriptEntry}
    (h : Truncation limit s before entries fulls between)
    (h' : Truncation limit s between entries' fulls' after) :
    Truncation limit s before (entries ++ entries') (fulls ++ fulls') after := by
  induction h with
  | nil => exact h'
  | cons hentry _ ih => exact .cons hentry (ih h')

/-! ## States in step -/

namespace Streams

/-- Two states whose cells are the same, and whose stream `s` has a limit in one of them. -/
structure LimitedOn (s : Nat) (limit chunk : Option Nat) (full p : Streams) : Prop where
  takes : chunk ≠ some 0
  cells : SameCells full p
  unlimited : (full.table s).sink.limited none none = (full.table s).sink
  limited : (p.table s).sink = (full.table s).sink.limited limit chunk

variable {s : Nat} {limit chunk : Option Nat} {full p : Streams}

theorem limitedOn_start (slots : Slots) {sinks free : Table Nat Sink}
    (hchunk : chunk ≠ some 0) (hlimited : sinks s = .empty limit chunk)
    (hfree : free s = .empty none none) :
    LimitedOn s limit chunk (start slots free) (start slots sinks) where
  takes := hchunk
  cells := ⟨rfl, fun _ => rfl⟩
  unlimited := by
    show (free s).limited none none = free s
    rw [hfree]
    rfl
  limited := by
    show sinks s = (free s).limited limit chunk
    rw [hlimited, hfree]
    unfold Sink.limited Sink.empty
    rw [clip_nil]

namespace LimitedOn

/-- `update` touches no sink. -/
theorem update (h : LimitedOn s limit chunk full p) (kind : Annotation) (t : Nat) (f : Int64 → Int64) :
    LimitedOn s limit chunk (full.update kind t f).value (p.update kind t f).value := by
  have hsink : ((full.update kind t f).value.table s).sink = (full.table s).sink :=
    congrFun sinks_update s
  have hsink' : ((p.update kind t f).value.table s).sink = (p.table s).sink :=
    congrFun sinks_update s
  refine ⟨h.takes, h.cells.update kind t f, ?_, ?_⟩
  · rw [hsink]; exact h.unlimited
  · rw [hsink, hsink']; exact h.limited

theorem enter (h : LimitedOn s limit chunk full p) (kind : Annotation) (t : Nat) (amount : Int64) :
    LimitedOn s limit chunk (full.enter kind t amount).value (p.enter kind t amount).value :=
  h.update kind t _

theorem leave (h : LimitedOn s limit chunk full p) (kind : Annotation) (t : Nat)
    (amount before : Int64) : LimitedOn s limit chunk (full.leave kind t amount before).value
      (p.leave kind t amount before).value :=
  h.update kind t _

/-- An entry that shows the two states. -/
theorem entry (h : LimitedOn s limit chunk full p) {before : List UInt8} {note note' : ScriptNote}
    {t : Nat} (hnote : note.Truncates limit (t = s) before (full.table s).sink.bytes note') :
    ScriptEntry.Truncates limit s before ⟨note, t, p⟩ ⟨note', t, full⟩ where
  stream := rfl
  bytes := by
    show (p.table s).sink.bytes = _
    rw [h.limited]
    rfl
  flushes := by
    show (p.table s).sink.flushes = _
    rw [h.limited]
    rfl
  depth t := h.cells.value .indent t
  level t := by rw [level_eq_value, level_eq_value]; exact h.cells.value .detail t
  note := hnote

/-! ### Actions on the limited stream -/

variable (h : LimitedOn s limit chunk full p)

include h

/-- Sinks that are in step can be put under the streams. -/
theorem setSink {sink sink' : Sink} (hunlimited : sink.limited none none = sink)
    (hlimited : sink' = sink.limited limit chunk) :
    LimitedOn s limit chunk (full.setSink s sink) (p.setSink s sink') where
  takes := h.takes
  cells := ((sameCells_setSink full s _).symm.trans h.cells).trans (sameCells_setSink p s _)
  unlimited := by rw [sink_setSink_same]; exact hunlimited
  limited := by rw [sink_setSink_same, sink_setSink_same]; exact hlimited

/-- What `writeAll` does to the sinks of the two states. -/
theorem writes (data : List UInt8) :
    (full.table s).sink.writeAll data = (.ok (), (full.table s).sink.append data) ∧
      (p.table s).sink.writeAll data = (Sink.writeOutcome limit (full.table s).sink.bytes data,
        ((full.table s).sink.append data).limited limit chunk) ∧
      ((full.table s).sink.append data).limited none none = (full.table s).sink.append data := by
  have happend : ((full.table s).sink.append data).limited none none =
      (full.table s).sink.append data := congrArg (·.append data) h.unlimited
  refine ⟨?_, ?_, happend⟩
  · have hnone : (none : Option Nat) ≠ some 0 := fun h => nomatch h
    have hfull : ((full.table s).sink.limited none none).writeAll data = _ :=
      Sink.writeAll_limited hnone (full.table s).sink data
    rw [h.unlimited, happend] at hfull
    rw [hfull, Sink.writeOutcome_of_not_overruns rfl]
  · rw [h.limited]
    exact Sink.writeAll_limited h.takes _ data

end LimitedOn

/-- An answer that `condition` decides. -/
theorem failsIff_ite (condition : Prop) [Decidable condition] :
    FailsIff condition
      ((((if condition then .error .closed else .ok ()) : Except WriteError Unit).map
        fun () => Answer.nothing).mapError .write)
      (.ok .nothing) := by
  split
  · next hfails => exact ⟨⟨fun _ => hfails, fun _ => rfl⟩, fun hne => absurd rfl hne⟩
  · next hfails => exact ⟨⟨fun heq => (nomatch heq), fun h => absurd h hfails⟩, fun _ => rfl⟩

/-- The answer of a write, when the stream has some more bytes after it. -/
theorem failsIff_writeOutcome (limit : Option Nat) (before data : List UInt8) :
    FailsIff (before.length < (before ++ data).length ∧ overruns limit (before ++ data) = true)
      (((Sink.writeOutcome limit before data).map fun () => Answer.nothing).mapError .write)
      (.ok .nothing) := by
  have hmore : before.length < (before ++ data).length ↔ data ≠ [] := by
    rw [List.length_append, ← List.length_pos_iff]
    omega
  rw [hmore]
  exact failsIff_ite _

/-- The two sides of an action in states that are in step: they are in step after it, and its answers
    compare. -/
structure ActLimited (s : Nat) (limit chunk : Option Nat) (before : List UInt8) (role : ActionRole)
    (full r : ActionOutcome) : Prop where
  states : LimitedOn s limit chunk full.2.value r.2.value
  answers : role.Truncates limit before (full.2.value.table s).sink.bytes r.1 full.1

/-- An action that only works on the sink. -/
theorem LimitedOn.onSink (h : LimitedOn s limit chunk full p) {role : ActionRole}
    {before : List UInt8} {result result' : Except WriteError Unit} {sink sink' : Sink}
    (hunlimited : sink.limited none none = sink) (hlimited : sink' = sink.limited limit chunk)
    (hanswers : role.Truncates limit before sink.bytes
      ((result'.map fun () => Answer.nothing).mapError .write)
      ((result.map fun () => Answer.nothing).mapError .write)) :
    ActLimited s limit chunk before role (full.onSink s (fun () => .nothing) (result, sink))
      (p.onSink s (fun () => .nothing) (result', sink')) where
  states := h.setSink hunlimited hlimited
  answers := by
    show role.Truncates limit before ((full.setSink s sink).table s).sink.bytes _ _
    rw [sink_setSink_same]
    exact hanswers

/-- `Streams.writeAll` truncates. -/
theorem LimitedOn.writeAll (h : LimitedOn s limit chunk full p) (data : List UInt8) :
    ActLimited s limit chunk (full.table s).sink.bytes .write (full.writeAll s data)
      (p.writeAll s data) := by
  obtain ⟨hfull, hlimited, hunlimited⟩ := h.writes data
  unfold Streams.writeAll
  rw [hfull, hlimited]
  exact h.onSink hunlimited rfl (failsIff_writeOutcome limit _ data)

/-- A flush finds the sink closed as soon as the limit is reached. -/
theorem LimitedOn.onSink_flushed (h : LimitedOn s limit chunk full p) :
    ActLimited s limit chunk (full.table s).sink.bytes .flush
      (full.onSink s (fun () => .nothing) (full.table s).sink.flush)
      (p.onSink s (fun () => .nothing) (p.table s).sink.flush) := by
  have hfull := Sink.flush_limited none none (full.table s).sink
  have hlimited := Sink.flush_limited limit chunk (full.table s).sink
  rw [h.unlimited] at hfull
  rw [← h.limited] at hlimited
  rw [hfull, hlimited]
  refine h.onSink rfl rfl ?_
  exact failsIff_ite _

/-- The hint is truncated like anything else, but whether it could be written does not show. -/
theorem LimitedOn.detailLevel (h : LimitedOn s limit chunk full p) :
    LimitedOn s limit chunk (full.detailLevel s).2.value (p.detailLevel s).2.value := by
  obtain ⟨hfull, hlimited, hunlimited⟩ := h.writes hintText.utf8
  unfold Streams.detailLevel
  rw [h.cells.1]
  cases full.slots.number? .detail with
  | some id => exact h
  | none =>
      simp only [hfull]
      have hset := h.setSink hunlimited rfl
      cases hwritten : (p.table s).sink.writeAll hintText.utf8 with
      | mk outcome sink =>
          have hsink : sink = ((full.table s).sink.append hintText.utf8).limited limit chunk :=
            congrArg Prod.snd (hwritten.symm.trans hlimited)
          rw [hsink]
          cases outcome with
          | ok => exact hset
          | error e => exact hset

/-- Questions are answered alike, as values do not depend on sinks. -/
theorem LimitedOn.answer_question (h : LimitedOn s limit chunk full p) (interfaces : Interfaces)
    (t : Nat) {action : Action} (hquestion : action.role = .question) :
    (p.act interfaces t action).1 = (full.act interfaces t action).1 :=
  answer_question_congr interfaces hquestion fun kind => h.cells.value kind t

/-- **`act` on the limited stream truncates.** -/
theorem LimitedOn.act_same (h : LimitedOn s limit chunk full p) (interfaces : Interfaces)
    {action : Action} (hoffer : action.role ≠ .offer) :
    ActLimited s limit chunk (full.table s).sink.bytes action.role (full.act interfaces s action)
      (p.act interfaces s action) := by
  cases action with
  | depth => exact ⟨h, h.answer_question interfaces s rfl⟩
  | level => exact ⟨h.detailLevel, h.answer_question interfaces s rfl⟩
  | indentation => exact ⟨h, h.answer_question interfaces s rfl⟩
  | writeIndentation =>
      have hdepth : p.depth s = full.depth s := h.cells.value .indent s
      rw [act_writeIndentation, act_writeIndentation, hdepth]
      exact h.writeAll _
  | write data => exact h.writeAll data
  | offer data => exact absurd rfl hoffer
  | offerPieces parts => exact absurd rfl hoffer
  | writeSink data => exact h.writeAll data
  | writeAddress text =>
      unfold act
      simp only [writeTexts_eq_writeAll]
      cases hparse : Address.parse interfaces text 0 with
      | mk result events =>
          cases result with
          | error e =>
              refine ⟨h, ?_, fun _ => rfl⟩
              exact ⟨fun heq => (nomatch heq), fun hmore => absurd hmore.1 (Nat.lt_irrefl _)⟩
          | ok a =>
              obtain ⟨hstates, hanswers⟩ := h.writeAll a.summary.utf8
              exact ⟨hstates, hanswers⟩
  | flush => exact h.onSink_flushed

/-- `act` on another stream touches neither sink. -/
theorem LimitedOn.act_other (h : LimitedOn s limit chunk full p) (interfaces : Interfaces) {t : Nat}
    (ht : s ≠ t) (action : Action) :
    LimitedOn s limit chunk (full.act interfaces t action).2.value
      (p.act interfaces t action).2.value where
  takes := h.takes
  cells := h.cells.act interfaces t action
  unlimited := by rw [table_act_other interfaces full ht]; exact h.unlimited
  limited := by
    rw [table_act_other interfaces full ht, table_act_other interfaces p ht]
    exact h.limited

/-- **`act` keeps the states in step**, and their entries compare. -/
theorem LimitedOn.act (h : LimitedOn s limit chunk full p) (interfaces : Interfaces) (t : Nat)
    {action : Action} (hoffer : t = s → action.role ≠ .offer) :
    LimitedOn s limit chunk (full.act interfaces t action).2.value
        (p.act interfaces t action).2.value ∧
      (ScriptNote.acted action (p.act interfaces t action).1).Truncates limit (t = s)
        (full.table s).sink.bytes ((full.act interfaces t action).2.value.table s).sink.bytes
        (.acted action (full.act interfaces t action).1) := by
  by_cases ht : t = s
  · subst ht
    obtain ⟨hstates, hanswers⟩ := h.act_same interfaces (hoffer rfl)
    exact ⟨hstates, .acted (h.answer_question interfaces t) fun _ => hanswers⟩
  · exact ⟨h.act_other interfaces (Ne.symm ht) action,
      .acted (h.answer_question interfaces t) fun hs => absurd hs ht⟩

end Streams

/-! ## Runs -/

open Streams in
/-- What two runs of a script from states that are in step come to. -/
structure ScriptRun.Limited (s : Nat) (limit chunk : Option Nat) (before : List UInt8)
    (full r : ScriptRun) : Prop where
  states : LimitedOn s limit chunk full.streams r.streams
  panic : r.panic = full.panic
  entries : Truncation limit s before r.trace.entries full.trace.entries
    (full.streams.table s).sink.bytes

/-- A scope that is admitted, if the steps inside it and those after it are taken for granted. -/
theorem Script.limited_scope {machine : Machine} {s t : Nat} {limit chunk : Option Nat}
    {kind : Annotation} {amount : Int64} {body next : Script} {full p : Streams}
    (h : Streams.LimitedOn s limit chunk full p)
    (hadmits : full.admits machine kind t amount = true)
    (hbody : ∀ {full p : Streams}, Streams.LimitedOn s limit chunk full p →
      ScriptRun.Limited s limit chunk (full.table s).sink.bytes (body.run machine full)
        (body.run machine p))
    (hnext : ∀ {full p : Streams}, Streams.LimitedOn s limit chunk full p →
      ScriptRun.Limited s limit chunk (full.table s).sink.bytes (next.run machine full)
        (next.run machine p)) :
    ScriptRun.Limited s limit chunk (full.table s).sink.bytes
      ((scope kind t amount body next).run machine full)
      ((scope kind t amount body next).run machine p) := by
  have hvalue : p.value kind t = full.value kind t := h.cells.value kind t
  have hadmits' : p.admits machine kind t amount = true := (Streams.admits_congr hvalue).trans hadmits
  have hentered := h.enter kind t amount
  obtain ⟨hinner, hpanic, hentries⟩ := hbody hentered
  have hleft : Streams.LimitedOn s limit chunk (scopeEnd machine full kind t amount body)
      (scopeEnd machine p kind t amount body) := by
    unfold scopeEnd
    rw [hvalue]
    exact hinner.leave kind t amount _
  have hshown := Truncation.cons
    (hentered.entry (.entered kind) : ScriptEntry.Truncates limit s (full.table s).sink.bytes
      ⟨.entered kind, t, (p.enter kind t amount).value⟩ _) hentries
  have hbytes : ((scopeEnd machine full kind t amount body).table s).sink =
      ((body.run machine (full.enter kind t amount).value).streams.table s).sink :=
    congrFun (Streams.sinks_leave _ kind t amount (full.value kind t)) s
  rw [← hbytes] at hshown
  cases hend : (body.run machine (full.enter kind t amount).value).panic with
  | some reason =>
      obtain ⟨hstreams, hreason, hfulls⟩ := run_scope_of_panic machine full hadmits next hend
      obtain ⟨hstreams', hreason', hentries'⟩ :=
        run_scope_of_panic machine p hadmits' next (hpanic.trans hend)
      refine ⟨?_, hreason'.trans hreason.symm, ?_⟩
      · rw [hstreams, hstreams']; exact hleft
      · rw [hfulls, hentries', hstreams]; exact hshown
  | none =>
      obtain ⟨hlast, hpanic', hrest⟩ := hnext hleft
      obtain ⟨hstreams, hreason, hfulls⟩ := run_scope_of_end machine full hadmits next hend
      obtain ⟨hstreams', hreason', hentries'⟩ :=
        run_scope_of_end machine p hadmits' next (hpanic.trans hend)
      refine ⟨?_, ?_, ?_⟩
      · rw [hstreams, hstreams']; exact hlast
      · rw [hreason, hreason']; exact hpanic'
      · rw [hfulls, hentries', hstreams]
        exact hshown.append (.cons (hleft.entry (.left kind)) hrest)

/-- **Runs stay in step.** -/
theorem Script.limited_run (machine : Machine) {s : Nat} {limit chunk : Option Nat}
    {script : Script} (hscript : script.OffersNothing s) {full p : Streams}
    (h : Streams.LimitedOn s limit chunk full p) :
    ScriptRun.Limited s limit chunk (full.table s).sink.bytes (script.run machine full)
      (script.run machine p) := by
  induction script generalizing full p with
  | done => exact ⟨h, rfl, .nil⟩
  | act t action next ih =>
      obtain ⟨hstates, hnote⟩ := h.act machine.interfaces t hscript.1
      obtain ⟨hlast, hpanic, hentries⟩ := ih hscript.2 hstates
      refine ⟨hlast, hpanic, ?_⟩
      rw [entries_act, entries_act]
      exact .cons (hstates.entry hnote) hentries
  | scope kind t amount body next ihBody ihNext =>
      cases hadmits : full.admits machine kind t amount with
      | true => exact limited_scope h hadmits (ihBody hscript.1) (ihNext hscript.2)
      | false =>
          have hadmits' : p.admits machine kind t amount = false :=
            (Streams.admits_congr (h.cells.value kind t)).trans hadmits
          rw [run_scope_of_not_admits hadmits, run_scope_of_not_admits hadmits']
          exact ⟨h, rfl, .nil⟩
  | attempt t body next ihBody ihNext =>
      obtain ⟨hinner, hpanic, hentries⟩ := ihBody hscript.1 h
      obtain ⟨hlast, hpanic', hentries'⟩ := ihNext hscript.2 hinner
      refine ⟨hlast, hpanic', ?_⟩
      rw [entries_attempt, entries_attempt]
      rw [hpanic]
      exact hentries.append (.cons (hinner.entry (.caught _)) hentries')
  | panic reason next => exact ⟨h, rfl, .nil⟩

/-! ## The chunk -/

/-- Entries of two runs that show the same on stream `s`. -/
structure ScriptEntry.AlikeOn (s : Nat) (e other : ScriptEntry) : Prop where
  stream : other.stream = e.stream
  bytes : (other.state.table s).sink.bytes = (e.state.table s).sink.bytes
  note : e.stream = s → other.note = e.note

theorem FailsIff.unique {condition : Prop} {answer other full : Except ActionError Answer}
    (h : FailsIff condition answer full) (h' : FailsIff condition other full) : other = answer := by
  by_cases hcondition : condition
  · rw [h.closed.mpr hcondition, h'.closed.mpr hcondition]
  · rw [h.otherwise (mt h.closed.mp hcondition), h'.otherwise (mt h'.closed.mp hcondition)]

/-- `limit` determines what a step on its stream answers, and the chunk has no part in it. -/
theorem ScriptNote.Truncates.unique {limit : Option Nat} {onLimited : Prop}
    {before after : List UInt8} {note other full : ScriptNote} (honLimited : onLimited)
    (h : note.Truncates limit onLimited before after full)
    (h' : other.Truncates limit onLimited before after full) : other = note := by
  cases h with
  | @acted action answer full _ hlimited =>
      cases h' with
      | @acted _ answer' _ _ hlimited' =>
          have hanswer := hlimited honLimited
          have hanswer' := hlimited' honLimited
          have heq : answer' = answer := by
            cases hrole : action.role with
            | question => rw [hrole] at hanswer hanswer'; exact hanswer'.trans hanswer.symm
            | write => rw [hrole] at hanswer hanswer'; exact hanswer.unique hanswer'
            | offer => rw [hrole] at hanswer; exact hanswer.elim
            | flush => rw [hrole] at hanswer hanswer'; exact hanswer.unique hanswer'
          rw [heq]
  | entered kind => cases h'; rfl
  | left kind => cases h'; rfl
  | caught reason => cases h'; rfl

/-- Two runs that are a `Truncation` of the same one show the same on the limited stream. -/
theorem Truncation.alike {limit : Option Nat} {s : Nat} {before after after' : List UInt8}
    {entries entries' fulls : List ScriptEntry} (h : Truncation limit s before entries fulls after)
    (h' : Truncation limit s before entries' fulls after') :
    List.Forall₂ (ScriptEntry.AlikeOn s) entries entries' := by
  induction h generalizing entries' with
  | nil => cases h'; exact .nil
  | @cons _ _ e full _ _ hentry _ ih =>
      cases h' with
      | @cons _ _ e' _ _ _ hentry' hrest' =>
          refine .cons ⟨hentry'.stream.trans hentry.stream.symm,
            hentry'.bytes.trans hentry.bytes.symm, fun hs => ?_⟩ (ih hrest')
          have hs' : e'.stream = s := (hentry'.stream.trans hentry.stream.symm).trans hs
          have hnote := hentry.note
          have hnote' := hentry'.note
          rw [hs'] at hnote'
          rw [hs] at hnote
          exact hnote.unique rfl hnote'

/-! ## Runs from empty sinks -/

/-- **A limit only truncates.** Take a script that writes all of what it writes to a stream, and two runs of it,
    one with any limit and chunk on the stream, and one with neither; nothing is assumed of the other streams.
    At every entry, and at the end, the stream has the first bytes of what it has without the limit, and all
    depths and levels are the same. The runs take the same steps, enter and leave the same scopes, and panic
    alike. A step that writes to the stream fails exactly if it has something to write there and this goes beyond
    the limit. The chunk does not show at all. -/
theorem Script.run_limited_truncates (machine : Machine) {script : Script} {s : Nat}
    (hscript : script.OffersNothing s) (slots : Slots) (sinks free : Table Nat Sink)
    {limit chunk : Option Nat} (hchunk : chunk ≠ some 0) (hlimited : sinks s = .empty limit chunk)
    (hfree : free s = .empty none none) :
    Truncation limit s [] (script.run machine (.start slots sinks)).trace.entries
        (script.run machine (.start slots free)).trace.entries
        ((script.run machine (.start slots free)).streams.table s).sink.bytes ∧
      ((script.run machine (.start slots sinks)).streams.table s).sink.bytes =
        clip limit ((script.run machine (.start slots free)).streams.table s).sink.bytes ∧
      (∀ kind t, (script.run machine (.start slots sinks)).streams.value kind t =
        (script.run machine (.start slots free)).streams.value kind t) ∧
      (script.run machine (.start slots sinks)).panic =
        (script.run machine (.start slots free)).panic ∧
      ∀ (sinks' : Table Nat Sink) (chunk' : Option Nat), chunk' ≠ some 0 →
        sinks' s = .empty limit chunk' →
        List.Forall₂ (ScriptEntry.AlikeOn s) (script.run machine (.start slots sinks)).trace.entries
          (script.run machine (.start slots sinks')).trace.entries := by
  have hstart := Streams.limitedOn_start slots hchunk hlimited hfree
  have hbytes : ((Streams.start slots free).table s).sink.bytes = [] :=
    congrArg Sink.bytes hfree
  obtain ⟨hstates, hpanic, hentries⟩ := limited_run machine hscript hstart
  rw [hbytes] at hentries
  refine ⟨hentries, ?_, hstates.cells.value, hpanic, ?_⟩
  · rw [hstates.limited]
    rfl
  · intro sinks' chunk' hchunk' hlimited'
    have hstart' := Streams.limitedOn_start slots hchunk' hlimited' hfree
    obtain ⟨-, -, hentries'⟩ := limited_run machine hscript hstart'
    rw [hbytes] at hentries'
    exact hentries.alike hentries'

/-- A stream that takes 57 bytes, seven in a call. The hint fits, and of the two units of indentation after it
    the first one; the address that is written after the panic finds the stream closed. -/
theorem Script.run_limited_truncates_hint :
    let script := attempt 0
      (act 0 .level (scope .indent 0 2 (act 0 .writeIndentation (panic "lost".toList done)) done))
      (act 0 (.writeAddress "::1".toList) done)
    let run := script.run .loopbackOnly (.start .fresh fun _ => .empty (some 57) (some 7))
    let free := script.run .loopbackOnly (.start .fresh fun _ => .empty none none)
    script.OffersNothing 0 ∧ some 7 ≠ some 0 ∧
      Truncation (some 57) 0 [] run.trace.entries free.trace.entries
        (hintText ++ "        [::1] (IPv6, 28 bytes)".toList).utf8 ∧
      (run.streams.table 0).sink.bytes = (hintText ++ "    ".toList).utf8 ∧
      (run.trace.entries.filterMap fun e => match e.note with
        | .acted action answer => some (action, answer.toOption)
        | _ => none) =
        [(.level, some (.number 0)), (.writeIndentation, none), (.writeAddress "::1".toList, none)] := by
  intro script run free
  have hscript : script.OffersNothing 0 :=
    ⟨⟨fun _ h => (nomatch h), ⟨fun _ h => (nomatch h), trivial⟩, trivial⟩,
      fun _ h => (nomatch h), trivial⟩
  have hchunk : some 7 ≠ some 0 := by decide
  have hfree : (free.streams.table 0).sink.bytes =
      (hintText ++ "        [::1] (IPv6, 28 bytes)".toList).utf8 := by decide +kernel
  obtain ⟨hentries, hbytes, -, -, -⟩ := run_limited_truncates .loopbackOnly hscript .fresh
    (fun _ => .empty (some 57) (some 7)) (fun _ => .empty none none) hchunk rfl rfl
  rw [hfree] at hentries hbytes
  exact ⟨hscript, hchunk, hentries, hbytes.trans (by decide +kernel), by decide +kernel⟩

end NetKit
