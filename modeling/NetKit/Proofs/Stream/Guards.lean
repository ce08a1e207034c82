import Mathlib.Algebra.Order.Ring.Int
import NetKit.Proofs.Stream.Steps

/-!
# Live guards — what the nesting of a script says about depths and levels

A scope of a script is a guard that is alive from the moment it is entered until it is left, by
reaching its end or by a panic. Which guards are alive at each step follows from the script alone:
`Script.alive` lists it, entry by entry, without a state. The theorem of this file is that the state,
with its slots, cells, subtractions and saved values, never shows anything else: at every entry of a
run `Streams.depth` is the sum of the live indentations of its stream, and `Streams.detailLevel` is that
of its innermost live detail scope.

The induction is on the script, for all states that agree with a stack of guards. Entering a scope
pushes its guard (`Streams.agrees_enter`). Leaving it gives back the values from before, in whichever way
the steps inside have ended (`Script.value_run`), so the state agrees with the old stack again. There is
one lemma for each constructor of `Script`, which assembles the run from those of its parts.

Sums of guards are taken in `Int`, while a depth is an `Int64`: it is the sum modulo `2 ^ 64`, and the sum
itself if that is in range (`ShowsSum`). A build with overflow checks may refuse a scope, which none of
this foresees, so runs are asked to refuse none (`Script.Admitted`). They do not if there are no checks, or
if all sums are in range (`Script.DepthsFit`).

## Contents
- `Guard`, `depthOf`, `levelOf`: live guards, and what they say.
- `Script.panics`, `Script.alive`, `Script.DepthsFit`: the guards alive at each entry of a run.
- `Streams.Agrees`, `Streams.agrees_enter`: a state that shows what its guards say.
- `ScriptEntry.Shows`, `Shown`: entries that show what their guards say.
- `Script.Admitted`, `Script.faithful_run`: runs that refuse no scope.
- `Script.admitted_of_depthsFit`: sums in range.
- `Script.run_shows_live_guards`: runs from streams without annotations.
-/

namespace NetKit

/-! ## Guards -/

/-- A guard: what it annotates, on which stream, and with how much. -/
structure Guard where
  kind : Annotation
  stream : Nat
  amount : Int64
  deriving DecidableEq, Repr

/-- Whether a guard is of `kind` and on stream `s`. -/
def Guard.isOn (kind : Annotation) (s : Nat) (g : Guard) : Bool := g.kind = kind ∧ g.stream = s

/-- The sum of the indentations of stream `s` among the live guards, the innermost first. -/
def depthOf (alive : List Guard) (s : Nat) : Int :=
  ((alive.filter (Guard.isOn .indent s)).map (·.amount.toInt)).sum

/-- The level of stream `s` under live guards, the innermost first: that of its innermost detail scope,
    or `0`. -/
def levelOf (alive : List Guard) (s : Nat) : Int64 :=
  ((alive.find? (Guard.isOn .detail s)).map Guard.amount).getD 0

/-- A depth shows a sum of indentations: it is the sum modulo `2 ^ 64`, and the sum itself if that is in
    range. -/
structure ShowsSum (depth : Int64) (sum : Int) : Prop where
  wrapped : depth = Int64.ofInt sum
  exact : InInt64 sum → depth.toInt = sum

theorem showsSum_ofInt (sum : Int) : ShowsSum (Int64.ofInt sum) sum := ⟨rfl, InInt64.toInt_ofInt⟩

namespace Script

/-- Whether the script ends with a panic that nothing in it catches. -/
def panics : Script → Bool
  | done => false
  | act _ _ next => next.panics
  | scope _ _ _ body next => body.panics || next.panics
  | attempt _ _ next => next.panics
  | panic _ _ => true

/-- The guards alive at each entry that a run of the script records, when those of `around` are alive around
    it. A scope that panics is not recorded as left. -/
def alive (around : List Guard) : Script → List (List Guard)
  | done => []
  | act _ _ next => around :: next.alive around
  | scope kind s amount body next =>
    (⟨kind, s, amount⟩ :: around) :: body.alive (⟨kind, s, amount⟩ :: around) ++
      (if body.panics then [] else around :: next.alive around)
  | attempt _ body next => body.alive around ++ around :: next.alive around
  | panic _ _ => []

/-- The sums of indentations are `InInt64` on all streams, at every entry of a run and around it. -/
def DepthsFit (around : List Guard) (script : Script) : Prop :=
  ∀ alive ∈ around :: script.alive around, ∀ s, InInt64 (depthOf alive s)

end Script

/-! ## States that agree with guards -/

/-- What live guards say about a value of a stream: `depthOf`, wrapped, or `levelOf`. -/
def valueOf (alive : List Guard) : Annotation → Nat → Int64
  | .indent, s => Int64.ofInt (depthOf alive s)
  | .detail, s => levelOf alive s

/-- The values of all streams are `valueOf` the live guards. -/
def Streams.Agrees (p : Streams) (alive : List Guard) : Prop :=
  ∀ kind s, p.value kind s = valueOf alive kind s

theorem depthOf_cons_same (alive : List Guard) (s : Nat) (amount : Int64) :
    depthOf (⟨.indent, s, amount⟩ :: alive) s = amount.toInt + depthOf alive s := by
  have hon : Guard.isOn .indent s ⟨.indent, s, amount⟩ = true := decide_eq_true ⟨rfl, rfl⟩
  unfold depthOf
  rw [List.filter_cons_of_pos hon, List.map_cons, List.sum_cons]

/-- `valueOf` on the stream of a scope, of its kind. -/
theorem valueOf_cons_same (alive : List Guard) (kind : Annotation) (s : Nat) (amount : Int64) :
    valueOf (⟨kind, s, amount⟩ :: alive) kind s =
      match kind with
      | .indent => valueOf alive .indent s + amount
      | .detail => amount := by
  cases kind with
  | indent =>
      show Int64.ofInt (depthOf (_ :: alive) s) = Int64.ofInt (depthOf alive s) + amount
      rw [depthOf_cons_same, Int.add_comm, Int64.ofInt_add, Int64.ofInt_toInt]
  | detail =>
      have hon : Guard.isOn .detail s ⟨.detail, s, amount⟩ = true := decide_eq_true ⟨rfl, rfl⟩
      show levelOf (_ :: alive) s = amount
      unfold levelOf
      rw [List.find?_cons_of_pos hon]
      rfl

/-- `valueOf` elsewhere is left alone by a scope. -/
theorem valueOf_cons_other (alive : List Guard) {g : Guard} {kind : Annotation} {s : Nat}
    (hne : kind ≠ g.kind ∨ s ≠ g.stream) : valueOf (g :: alive) kind s = valueOf alive kind s := by
  have hoff : ¬Guard.isOn kind s g = true := by
    intro hon
    obtain ⟨hkind, hs⟩ := of_decide_eq_true hon
    rcases hne with h | h
    · exact h hkind.symm
    · exact h hs.symm
  cases kind with
  | indent =>
      show Int64.ofInt (depthOf (g :: alive) s) = Int64.ofInt (depthOf alive s)
      unfold depthOf
      rw [List.filter_cons_of_neg hoff]
  | detail =>
      show levelOf (g :: alive) s = levelOf alive s
      unfold levelOf
      rw [List.find?_cons_of_neg hoff]

namespace Streams

variable {p : Streams} {alive : List Guard}

/-- **`Streams.enter` pushes its guard.** -/
theorem agrees_enter (hc : p.Consistent) (ha : p.Agrees alive) (kind : Annotation) (s : Nat)
    (amount : Int64) : (p.enter kind s amount).value.Agrees (⟨kind, s, amount⟩ :: alive) := by
  intro kind' t
  unfold enter
  by_cases hsame : kind' = kind ∧ t = s
  · obtain ⟨rfl, rfl⟩ := hsame
    rw [value_update_same hc, valueOf_cons_same, ha]
    cases kind' <;> rfl
  · have hne : kind' ≠ kind ∨ t ≠ s := Decidable.not_and_iff_or_not.mp hsame
    rw [value_update_other hc hne, valueOf_cons_other alive hne]
    exact ha kind' t

/-- Values that are the same agree with the same guards. -/
theorem Agrees.of_values {q : Streams} (hvalues : ∀ kind s, q.value kind s = p.value kind s)
    (ha : p.Agrees alive) : q.Agrees alive := fun kind s => (hvalues kind s).trans (ha kind s)

/-- A scope is admitted if the sums with and without its guard are `InInt64`. -/
theorem Agrees.admits (ha : p.Agrees alive) (machine : Machine) {kind : Annotation} {s : Nat}
    {amount : Int64} (hbefore : InInt64 (depthOf alive s))
    (hafter : InInt64 (depthOf (⟨kind, s, amount⟩ :: alive) s)) :
    p.admits machine kind s amount = true := by
  have hdepth : (p.depth s).toInt = depthOf alive s :=
    (congrArg Int64.toInt (ha .indent s)).trans hbefore.toInt_ofInt
  unfold Streams.admits
  cases machine.overflow with
  | wraps => rfl
  | panics =>
      cases kind with
      | detail => rfl
      | indent =>
          rw [depthOf_cons_same] at hafter
          refine decide_eq_true ?_
          rw [hdepth, Int.add_comm]
          exact hafter

end Streams

/-! ## Entries that show what their guards say -/

/-- What an answered question, or an indentation that was written, shows about the live guards, given
    the sink of the stream before it and after it. -/
def ScriptNote.Shows (alive : List Guard) (s : Nat) (before after : Sink) : ScriptNote → Prop
  | .acted .depth answer => ∃ depth, ShowsSum depth (depthOf alive s) ∧ answer = .ok (.number depth)
  | .acted .level answer => answer = .ok (.number (levelOf alive s))
  | .acted .indentation answer =>
    ∃ depth, ShowsSum depth (depthOf alive s) ∧
      answer = .ok (.text (List.replicate (max 0 depth.toInt).toNat indentUnit).flatten)
  | .acted .writeIndentation answer =>
    ∃ depth outcome, ShowsSum depth (depthOf alive s) ∧
      Sink.writeRepeated indentUnit.utf8 (max 0 depth.toInt).toNat before = (outcome, after) ∧
      answer = (outcome.map fun () => Answer.nothing).mapError .write
  | _ => True

/-- An entry shows the live guards: in the values of every stream, and in what was asked or written. -/
structure ScriptEntry.Shows (before : Table Nat Sink) (e : ScriptEntry) (alive : List Guard) :
    Prop where
  consistent : e.state.Consistent
  depth : ∀ s, ShowsSum (e.state.depth s) (depthOf alive s)
  level : ∀ s, (e.state.detailLevel s).1 = levelOf alive s
  note : e.note.Shows alive e.stream (before e.stream) (e.state.table e.stream).sink

/-- The entries of a run show the guards alive at each of them, one by one; `before` are the sinks at
    the start. -/
def Shown (before : Table Nat Sink) : List ScriptEntry → List (List Guard) → Prop
  | [], [] => True
  | e :: entries, alive :: rest => e.Shows before alive ∧ Shown e.state.sinks entries rest
  | [], _ :: _ => False
  | _ :: _, [] => False

/-- The sinks after some entries. -/
def sinksAfter (before : Table Nat Sink) : List ScriptEntry → Table Nat Sink
  | [] => before
  | e :: entries => sinksAfter e.state.sinks entries

theorem shown_nil (before : Table Nat Sink) : Shown before [] [] := trivial

theorem shown_append {before : Table Nat Sink} {entries entries' : List ScriptEntry}
    {alive alive' : List (List Guard)} (h : Shown before entries alive)
    (h' : Shown (sinksAfter before entries) entries' alive') :
    Shown before (entries ++ entries') (alive ++ alive') := by
  induction entries generalizing before alive with
  | nil =>
      cases alive with
      | nil => exact h'
      | cons a alive => exact h.elim
  | cons e entries ih =>
      cases alive with
      | nil => exact h.elim
      | cons a alive => exact ⟨h.1, ih h.2 h'⟩

theorem sinksAfter_append (before : Table Nat Sink) (entries entries' : List ScriptEntry) :
    sinksAfter before (entries ++ entries') = sinksAfter (sinksAfter before entries) entries' := by
  induction entries generalizing before with
  | nil => rfl
  | cons e entries ih => exact ih e.state.sinks

/-! ## Runs -/

/-- A state that agrees with the live guards is what an entry `Shows` of them. -/
theorem ScriptEntry.shows_of_agrees (before : Table Nat Sink) {e : ScriptEntry} {alive : List Guard}
    (hc : e.state.Consistent) (ha : e.state.Agrees alive)
    (hnote : e.note.Shows alive e.stream (before e.stream) (e.state.table e.stream).sink) :
    e.Shows before alive where
  consistent := hc
  depth s := by
    have hdepth : e.state.depth s = Int64.ofInt (depthOf alive s) := ha .indent s
    rw [hdepth]
    exact showsSum_ofInt _
  level s := (e.state.level_eq_value s).trans (ha .detail s)
  note := hnote

/-- The answer of `Streams.act`, and what it has written, show the live guards. -/
theorem shows_act {p : Streams} {alive : List Guard} (ha : p.Agrees alive) (interfaces : Interfaces)
    (s : Nat) (action : Action) :
    (ScriptNote.acted action (p.act interfaces s action).1).Shows alive s (p.sinks s)
      ((p.act interfaces s action).2.value.table s).sink := by
  have hdepth : ShowsSum (p.depth s) (depthOf alive s) := by
    have hvalue : p.depth s = Int64.ofInt (depthOf alive s) := ha .indent s
    rw [hvalue]
    exact showsSum_ofInt _
  have hlevel : (p.detailLevel s).1 = levelOf alive s :=
    (p.level_eq_value s).trans (ha .detail s)
  have hunits : (max 0 (p.depth s).toInt).toNat = (p.depth s).toInt.toNat := by omega
  cases action with
  | depth => exact ⟨p.depth s, hdepth, rfl⟩
  | level => exact congrArg (fun n => Except.ok (Answer.number n)) hlevel
  | indentation =>
      refine ⟨p.depth s, hdepth, ?_⟩
      rw [hunits]
      rfl
  | writeIndentation =>
      refine ⟨p.depth s, (Sink.writeRepeated indentUnit.utf8 (p.depth s).toInt.toNat
        (p.table s).sink).1, hdepth, ?_, rfl⟩
      show Sink.writeRepeated indentUnit.utf8 _ (p.table s).sink = (_, ((p.table.set s _) s).sink)
      rw [Table.set_same, hunits]
  | write data => trivial
  | offer data => trivial
  | offerPieces parts => trivial
  | writeSink data => trivial
  | writeAddress text => trivial
  | flush => trivial

/-- What a run comes to that starts in a state which agrees with the guards `around`: its entries show the
    guards alive at each of them, and it panics and writes as they say. -/
structure ScriptRun.Faithful (p : Streams) (around : List Guard) (script : Script) (r : ScriptRun) :
    Prop where
  panics : r.panic.isSome = script.panics
  shown : Shown p.sinks r.trace.entries (script.alive around)
  sinks : sinksAfter p.sinks r.trace.entries = r.streams.sinks

/-- Entries that show their guards, one more that shows the guards `around`, and then a `Faithful` run. -/
theorem shown_then {before : Table Nat Sink} {entries : List ScriptEntry}
    {lists : List (List Guard)} {around : List Guard} {e : ScriptEntry} {next : Script}
    {r : ScriptRun} (hentries : Shown before entries lists)
    (hentry : e.Shows (sinksAfter before entries) around) (hnext : r.Faithful e.state around next) :
    Shown before (entries ++ e :: r.trace.entries) (lists ++ around :: next.alive around) ∧
      sinksAfter before (entries ++ e :: r.trace.entries) = r.streams.sinks := by
  constructor
  · exact shown_append hentries ⟨hentry, hnext.shown⟩
  · rw [sinksAfter_append]; exact hnext.sinks

namespace Script

/-- `run` refuses none of the scopes. -/
def Admitted (machine : Machine) : Script → Streams → Prop
  | done, _ => True
  | act s action next, p => next.Admitted machine (p.act machine.interfaces s action).2.value
  | scope kind s amount body next, p =>
    p.admits machine kind s amount = true ∧ body.Admitted machine (p.enter kind s amount).value ∧
      ((body.run machine (p.enter kind s amount).value).panic = none →
        next.Admitted machine (scopeEnd machine p kind s amount body))
  | attempt _ body next, p =>
    body.Admitted machine p ∧ next.Admitted machine (body.run machine p).streams
  | panic _ _, _ => True

/-- A build without overflow checks refuses no scope. -/
theorem admitted_of_wraps {machine : Machine} (h : machine.overflow = .wraps) (script : Script)
    (p : Streams) : script.Admitted machine p := by
  induction script generalizing p with
  | done => trivial
  | act s action next ih => exact ih _
  | scope kind s amount body next ihBody ihNext =>
      exact ⟨Streams.admits_of_wraps h p kind s amount, ihBody _, fun _ => ihNext _⟩
  | attempt s body next ihBody ihNext => exact ⟨ihBody p, ihNext _⟩
  | panic reason next => trivial

section

variable {machine : Machine} {p : Streams} {around : List Guard} {kind : Annotation} {s : Nat}
  {amount : Int64} {body next : Script}

/-- `scopeEnd` agrees with the guards `around` the scope. -/
theorem agrees_scopeEnd (hc : p.Consistent) (ha : p.Agrees around) :
    (scopeEnd machine p kind s amount body).Consistent ∧
      (scopeEnd machine p kind s amount body).Agrees around := by
  obtain ⟨hinner, hvalues⟩ := body.value_run machine (hc.enter kind s amount)
  exact ⟨hinner.leave kind s amount (p.value kind s),
    .of_values (Streams.value_leave hc hinner hvalues) ha⟩

/-! ### One constructor after the other -/

theorem faithful_act (hc : p.Consistent) (ha : p.Agrees around) {action : Action}
    (hnext : (next.run machine (p.act machine.interfaces s action).2.value).Faithful
      (p.act machine.interfaces s action).2.value around next) :
    ((act s action next).run machine p).Faithful p around (act s action next) := by
  have hcells := Streams.sameCells_act machine.interfaces p s action
  have hentry := ScriptEntry.shows_of_agrees p.sinks
    (e := ⟨.acted action (p.act machine.interfaces s action).1, s,
      (p.act machine.interfaces s action).2.value⟩)
    (hcells.consistent hc) (.of_values hcells.value ha) (shows_act ha machine.interfaces s action)
  obtain ⟨hshown, hsinks⟩ := shown_then (shown_nil p.sinks) hentry hnext
  refine ⟨hnext.panics, ?_, ?_⟩
  · rw [entries_act]
    exact hshown
  · rw [entries_act]
    exact hsinks

/-- The entries of a scope from where it is entered to where its steps end. -/
theorem shown_scope (hc : p.Consistent) (ha : p.Agrees around) {r : ScriptRun}
    (hbody : r.Faithful (p.enter kind s amount).value (⟨kind, s, amount⟩ :: around) body) :
    Shown p.sinks (⟨.entered kind, s, (p.enter kind s amount).value⟩ :: r.trace.entries)
      ((⟨kind, s, amount⟩ :: around) :: body.alive (⟨kind, s, amount⟩ :: around)) := by
  have hentry := ScriptEntry.shows_of_agrees p.sinks
    (e := ⟨.entered kind, s, (p.enter kind s amount).value⟩) (hc.enter kind s amount)
    (Streams.agrees_enter hc ha kind s amount) trivial
  exact ⟨hentry, hbody.shown⟩

theorem sinksAfter_scope
    (hbody : (body.run machine (p.enter kind s amount).value).Faithful (p.enter kind s amount).value
      (⟨kind, s, amount⟩ :: around) body) :
    sinksAfter p.sinks (⟨.entered kind, s, (p.enter kind s amount).value⟩ ::
        (body.run machine (p.enter kind s amount).value).trace.entries) =
      (scopeEnd machine p kind s amount body).sinks :=
  hbody.sinks.trans (Streams.sinks_leave _ kind s amount (p.value kind s)).symm

/-- A scope that a panic leaves: no entry, and the steps that follow do not run. -/
theorem faithful_scope_of_panic (hc : p.Consistent) (ha : p.Agrees around)
    (hadmits : p.admits machine kind s amount = true) {reason : Text}
    (hpanic : (body.run machine (p.enter kind s amount).value).panic = some reason)
    (hbody : (body.run machine (p.enter kind s amount).value).Faithful (p.enter kind s amount).value
      (⟨kind, s, amount⟩ :: around) body) :
    ((scope kind s amount body next).run machine p).Faithful p around
      (scope kind s amount body next) := by
  have hpanics : body.panics = true := by rw [← hbody.panics, hpanic]; rfl
  obtain ⟨hstreams, hreason, hentries⟩ := run_scope_of_panic machine p hadmits next hpanic
  refine ⟨?_, ?_, ?_⟩
  · rw [hreason, panics, hpanics, Bool.true_or]
    rfl
  · rw [hentries, alive, if_pos hpanics, List.append_nil]
    exact shown_scope hc ha hbody
  · rw [hentries, hstreams]
    exact sinksAfter_scope hbody

/-- A scope whose steps come to their end, and which is recorded under the guards `around` it. -/
theorem faithful_scope_of_end (hc : p.Consistent) (ha : p.Agrees around)
    (hadmits : p.admits machine kind s amount = true)
    (hpanic : (body.run machine (p.enter kind s amount).value).panic = none)
    (hbody : (body.run machine (p.enter kind s amount).value).Faithful (p.enter kind s amount).value
      (⟨kind, s, amount⟩ :: around) body)
    (hnext : (next.run machine (scopeEnd machine p kind s amount body)).Faithful
      (scopeEnd machine p kind s amount body) around next) :
    ((scope kind s amount body next).run machine p).Faithful p around
      (scope kind s amount body next) := by
  have hpanics : body.panics = false := by rw [← hbody.panics, hpanic]; rfl
  obtain ⟨hleft, hagrees⟩ : (scopeEnd machine p kind s amount body).Consistent ∧
      (scopeEnd machine p kind s amount body).Agrees around := agrees_scopeEnd hc ha
  have hentry : ScriptEntry.Shows (sinksAfter p.sinks
      (⟨.entered kind, s, (p.enter kind s amount).value⟩ ::
        (body.run machine (p.enter kind s amount).value).trace.entries))
      ⟨.left kind, s, scopeEnd machine p kind s amount body⟩ around :=
    ScriptEntry.shows_of_agrees _ hleft hagrees trivial
  obtain ⟨hshown, hsinks⟩ := shown_then (shown_scope hc ha hbody) hentry hnext
  obtain ⟨hstreams, hreason, hentries⟩ := run_scope_of_end machine p hadmits next hpanic
  refine ⟨?_, ?_, ?_⟩
  · rw [hreason, panics, hpanics, Bool.false_or]
    exact hnext.panics
  · rw [hentries, alive, if_neg (by rw [hpanics]; exact Bool.false_ne_true)]
    exact hshown
  · rw [hentries, hstreams]
    exact hsinks

/-- Steps whose panic is caught: panic or not, they have left no guard of theirs alive. -/
theorem faithful_attempt (hc : p.Consistent) (ha : p.Agrees around)
    (hbody : (body.run machine p).Faithful p around body)
    (hnext : (next.run machine (body.run machine p).streams).Faithful (body.run machine p).streams
      around next) :
    ((attempt s body next).run machine p).Faithful p around (attempt s body next) := by
  obtain ⟨hinner, hvalues⟩ := body.value_run machine hc
  have hentry := ScriptEntry.shows_of_agrees
    (sinksAfter p.sinks (body.run machine p).trace.entries)
    (e := ⟨.caught (body.run machine p).panic, s, (body.run machine p).streams⟩)
    hinner (.of_values hvalues ha) trivial
  obtain ⟨hshown, hsinks⟩ := shown_then hbody.shown hentry hnext
  refine ⟨hnext.panics, ?_, ?_⟩
  · rw [entries_attempt]
    exact hshown
  · rw [entries_attempt]
    exact hsinks

end

/-- **Every run that is `Admitted` shows the live guards.** -/
theorem faithful_run (machine : Machine) (script : Script) {p : Streams} {around : List Guard}
    (hadmitted : script.Admitted machine p) (hc : p.Consistent) (ha : p.Agrees around) :
    (script.run machine p).Faithful p around script := by
  -- a scope runs its steps from another state and under one more guard
  induction script generalizing p around with
  | done => exact ⟨rfl, trivial, rfl⟩
  | act s action next ih =>
      have hcells := Streams.sameCells_act machine.interfaces p s action
      exact faithful_act hc ha (ih hadmitted (hcells.consistent hc) (.of_values hcells.value ha))
  | scope kind s amount body next ihBody ihNext =>
      obtain ⟨hadmits, hinside, hbehind⟩ := hadmitted
      have hbody := ihBody hinside (hc.enter kind s amount) (Streams.agrees_enter hc ha kind s amount)
      cases hpanic : (body.run machine (p.enter kind s amount).value).panic with
      | some reason => exact faithful_scope_of_panic hc ha hadmits hpanic hbody
      | none =>
          obtain ⟨hleft, hagrees⟩ := agrees_scopeEnd hc ha
          exact faithful_scope_of_end hc ha hadmits hpanic hbody
            (ihNext (hbehind hpanic) hleft hagrees)
  | attempt s body next ihBody ihNext =>
      obtain ⟨hinside, hbehind⟩ := hadmitted
      obtain ⟨hinner, hvalues⟩ := body.value_run machine hc
      exact faithful_attempt hc ha (ihBody hinside hc ha)
        (ihNext hbehind hinner (.of_values hvalues ha))
  | panic reason next => exact ⟨rfl, trivial, rfl⟩

/-! ### Sums in range -/

/-- **If all sums are in range, then no scope is refused**, whatever the build is. -/
theorem admitted_of_depthsFit (machine : Machine) (script : Script) {p : Streams}
    {around : List Guard} (hfits : script.DepthsFit around) (hc : p.Consistent)
    (ha : p.Agrees around) : script.Admitted machine p := by
  induction script generalizing p around with
  | done => trivial
  | act s action next ih =>
      have hcells := Streams.sameCells_act machine.interfaces p s action
      exact ih (fun alive h => hfits alive (List.mem_cons_of_mem _ h)) (hcells.consistent hc)
        (.of_values hcells.value ha)
  | scope kind s amount body next ihBody ihNext =>
      obtain ⟨haround, halive⟩ := List.forall_mem_cons.mp hfits
      obtain ⟨hbodyFits, hnextFits⟩ := List.forall_mem_append.mp halive
      have hentered := Streams.agrees_enter hc ha kind s amount
      have hbody := ihBody hbodyFits (hc.enter kind s amount) hentered
      refine ⟨ha.admits machine (haround s) (hbodyFits _ List.mem_cons_self s), hbody, fun hpanic => ?_⟩
      -- the steps behind the scope have entries only if those inside it come to their end
      have hpanics : body.panics = false := by
        rw [← (faithful_run machine body hbody (hc.enter kind s amount) hentered).panics, hpanic]
        rfl
      rw [if_neg (by rw [hpanics]; exact Bool.false_ne_true)] at hnextFits
      obtain ⟨hleft, hagrees⟩ := agrees_scopeEnd hc ha
      exact ihNext hnextFits hleft hagrees
  | attempt s body next ihBody ihNext =>
      obtain ⟨haround, halive⟩ := List.forall_mem_cons.mp hfits
      obtain ⟨hbodyFits, hnextFits⟩ := List.forall_mem_append.mp halive
      obtain ⟨hinner, hvalues⟩ := body.value_run machine hc
      exact ⟨ihBody (List.forall_mem_cons.mpr ⟨haround, hbodyFits⟩) hc ha,
        ihNext hnextFits hinner (.of_values hvalues ha)⟩
  | panic reason next => trivial

end Script

theorem Streams.agrees_start (slots : Slots) (sinks : Table Nat Sink) :
    (Streams.start slots sinks).Agrees [] := by
  intro kind s
  rw [Streams.value_start]
  cases kind <;> rfl

/-- A run from `Streams.start` refuses no scope if there are no overflow checks, or nothing for them to
    find. -/
theorem Script.admitted_start {machine : Machine} {script : Script} {slots : Slots}
    (hfits : machine.overflow = .wraps ∨ slots.WellFormed ∧ script.DepthsFit [])
    (sinks : Table Nat Sink) : script.Admitted machine (.start slots sinks) := by
  rcases hfits with hwraps | ⟨hslots, hfits⟩
  · exact script.admitted_of_wraps hwraps _
  · exact script.admitted_of_depthsFit machine hfits (Streams.consistent_start hslots sinks)
      (Streams.agrees_start slots sinks)

/-- **Scoped annotations mean what their nesting says.** Take a run from streams without annotations,
    whatever slots are given out already. If the sums of indentations are in range, or else wrap around,
    then every entry shows the guards alive at it: the depth of every stream is the sum of its live
    indentations, its level that of its innermost live detail scope, and the same holds of every answer
    and of the units of indentation that are written. In any run a scope gives back both values of every
    stream as they were before it, by whichever way it is left, and at the end all of them are zero. -/
theorem Script.run_shows_live_guards (machine : Machine) (script : Script) {slots : Slots}
    (hslots : slots.WellFormed) (sinks : Table Nat Sink) :
    (machine.overflow = .wraps ∨ script.DepthsFit [] →
      Shown sinks (script.run machine (Streams.start slots sinks)).trace.entries
        (script.alive [])) ∧
      (∀ (p : Streams), p.Consistent → ∀ (kind : Annotation) (t : Nat) (amount : Int64)
        (body : Script) (s : Nat),
        (((scope kind t amount body done).run machine p).streams.depth s = p.depth s ∧
          (((scope kind t amount body done).run machine p).streams.detailLevel s).1 =
            (p.detailLevel s).1)) ∧
      (∀ s, (script.run machine (Streams.start slots sinks)).streams.depth s = 0 ∧
        ((script.run machine (Streams.start slots sinks)).streams.detailLevel s).1 = 0) := by
  have hstart := Streams.consistent_start hslots sinks
  refine ⟨fun hfits => ?_, ?_, ?_⟩
  · have hadmitted := admitted_start (hfits.imp_right (⟨hslots, ·⟩)) sinks
    exact (script.faithful_run machine hadmitted hstart (Streams.agrees_start slots sinks)).shown
  · intro p hp kind t amount body s
    obtain ⟨-, hvalue⟩ := (scope kind t amount body done).value_run machine hp
    exact ⟨hvalue .indent s, by rw [Streams.level_eq_value, Streams.level_eq_value, hvalue]⟩
  · intro s
    obtain ⟨-, hvalue⟩ := script.value_run machine hstart
    constructor
    · exact (hvalue .indent s).trans (Streams.value_start slots sinks .indent s)
    · rw [Streams.level_eq_value, hvalue, Streams.value_start]

/-- A detail scope on one stream and an indentation on another, which is written to a sink that is too
    small, in a build with overflow checks; a panic leaves both, and is caught. The steps are recorded
    under the guards listed here, five bytes of the indentation are written, and the level is `0` again. -/
theorem Script.run_shows_live_guards_caught :
    let script := attempt 0
      (scope .detail 1 3
        (scope .indent 0 2 (act 0 .writeIndentation (panic "lost".toList done)) done) done)
      (act 1 .level done)
    let run := script.run ⟨.loopbackOnly, .panics⟩ (.start .fresh fun _ => .empty (some 5) none)
    Slots.fresh.WellFormed ∧ script.DepthsFit [] ∧
      Shown (fun _ => .empty (some 5) none) run.trace.entries
        [[⟨.detail, 1, 3⟩], [⟨.indent, 0, 2⟩, ⟨.detail, 1, 3⟩], [⟨.indent, 0, 2⟩, ⟨.detail, 1, 3⟩],
          [], []] ∧
      (run.streams.table 0).sink.bytes = Text.utf8 "     ".toList ∧
      (run.streams.detailLevel 1).1 = 0 := by
  intro script run
  have hfits : script.DepthsFit [] := by
    have hsum : ∀ s, depthOf [⟨.indent, 0, 2⟩, ⟨.detail, 1, 3⟩] s = if s = 0 then 2 else 0 := by
      intro s
      cases s with
      | zero => rfl
      | succ s => rfl
    intro alive halive s
    have hmem : alive ∈ [[], [⟨.detail, 1, 3⟩], [⟨.indent, 0, 2⟩, ⟨.detail, 1, 3⟩],
      [⟨.indent, 0, 2⟩, ⟨.detail, 1, 3⟩], [], []] := halive
    simp only [List.mem_cons, List.not_mem_nil, or_false] at hmem
    rcases hmem with rfl | rfl | rfl | rfl | rfl | rfl
    · exact inInt64_toInt 0
    · exact inInt64_toInt 0
    · rw [hsum]
      split <;> decide
    · rw [hsum]
      split <;> decide
    · exact inInt64_toInt 0
    · exact inInt64_toInt 0
  obtain ⟨hshown, -, hend⟩ := run_shows_live_guards ⟨.loopbackOnly, .panics⟩ script
    Slots.wellFormed_fresh fun _ => .empty (some 5) none
  exact ⟨Slots.wellFormed_fresh, hfits, hshown (.inr hfits), by decide +kernel, (hend 1).2⟩

end NetKit
