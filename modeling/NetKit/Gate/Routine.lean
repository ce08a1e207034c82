import NetKit.Gate.Basic
import NetKit.Number.Integer
import NetKit.Table

/-!
# Routines — nested calls through several gates

A `Routine` is a sequence of steps on `Gates`. `Routine.call` calls a gate with a closure that runs a
routine of its own and then ends with an `Ending`; `Routine.load` loads a timeout through a gate, which
adds to `Gates.total`; `Routine.threads` lets several threads call a gate. A step may be marked to
propagate: its failure then ends the routine that it belongs to, and so becomes the outcome of the
closure around it.

`Routine.run` records every step as a `RoutineEntry`, with the gates after it; the start of a closure is
recorded too.

A step on a gate from within a closure of the same gate is outside the model, as what the program does
there is not specified. `Routine.run` and `Gate.call` are total and need an answer, for which success
without an execution is a placeholder; nothing that holds of such routines says anything about the program.

## Contents
- `Ending`: how a closure ends after its steps.
- `readTimeout`, `loadTimeout`: timeouts in text.
- `Routine`, `Gates`: sequences of steps, and what they work on.
- `RoutineEntry`, `Routine.run`: running a routine, and the record of it.
-/

namespace NetKit

/-! ## Timeouts -/

/-- `parseUInt64` with the message of a timeout. -/
def readTimeout (t : Text) : Except Text UInt64 :=
  (parseUInt64 t).mapError fun e => "invalid timeout: ".toList ++ e.message

/-- `readTimeout`, with `0` refused. -/
def loadTimeout (t : Text) : Except Text UInt64 :=
  match readTimeout t with
  | .error message => .error message
  | .ok n => if n = 0 then .error "timeout must not be zero".toList else .ok n

/-- What a closure does after its steps. -/
inductive Ending where
  | ok
  | error (message : Text)
  | panic (message : Text)
  /-- `readTimeout`, whose error is the closure's. -/
  | read (timeout : Text)
  deriving DecidableEq, Repr

/-- The outcome of a closure that returns a result. -/
def Outcome.ofExcept {α : Type} : Except Text α → Outcome
  | .ok _ => .ok
  | .error message => .error message

/-- The outcome of the ending by itself. -/
def Ending.outcome : Ending → Outcome
  | ok => .ok
  | error message => .error message
  | panic message => .panic message
  | read timeout => .ofExcept (readTimeout timeout)

/-! ## Routines -/

/-- A program of gate calls. -/
inductive Routine where
  /-- No step. -/
  | done
  /-- Looks at the flags of `gate`. -/
  | query (gate : Nat) (next : Routine)
  /-- Calls a gate with a closure that runs `body` and then ends with `ending`. -/
  | call (gate : Nat) (propagate : Bool) (body : Routine) (ending : Ending) (next : Routine)
  /-- `Gates.load`; with `propagate` a failure ends the routine. -/
  | load (gate : Nat) (propagate : Bool) (timeout : Text) (next : Routine)
  /-- Lets `count` threads call a gate, each with a closure that just ends with `ending`. -/
  | threads (gate count : Nat) (ending : Ending) (next : Routine)
  deriving DecidableEq, Inhabited, Repr

/-- The gates, and the total of the timeouts that were loaded, modulo `2 ^ 64`. -/
structure Gates where
  table : Table Nat Gate
  total : UInt64

namespace Gates

/-- All gates `unused`, total `0`. -/
def initial : Gates := ⟨fun _ => .unused, 0⟩

/-- Puts gate `g` into another state. -/
def setGate (gs : Gates) (g : Nat) (gate : Gate) : Gates := { gs with table := gs.table.set g gate }

/-- Loads a timeout through gate `g`: the gates after it, and the outcome of the call. The answer on a
    `running` gate is a placeholder, as for `Gate.call`. -/
def load (gs : Gates) (g : Nat) (timeout : Text) : Gates × Outcome :=
  match gs.table g with
  | .unused =>
    match loadTimeout timeout with
    | .error message => (gs.setGate g (.completed true), .error message)
    | .ok n => ({ gs.setGate g (.completed false) with total := gs.total + n }, .ok)
  | .running => (gs, .ok)
  | .completed _ => (gs, .ok)

/-- `Gate.callAll` on gate `g`: the gates after it, and the results of the threads. -/
def callAll {τ : Type} (gs : Gates) (g : Nat) (closure : Outcome) (order : List τ) :
    Gates × List (τ × Bool × Outcome) :=
  let (gate, results) := (gs.table g).callAll closure order
  (gs.setGate g gate, results)

end Gates

/-- What a `RoutineEntry` says of its step. -/
inductive RoutineNote where
  /-- A closure was started. -/
  | started
  /-- The flags were looked at. -/
  | queried
  /-- A call returned with `outcome`, after it had `executed` its closure or not. -/
  | called (outcome : Outcome) (executed : Bool)
  /-- A load returned with `outcome`. -/
  | loaded (outcome : Outcome)
  /-- Several threads have called, with this tally. -/
  | threaded (tally : Tally)
  deriving DecidableEq, Repr

/-- One item of the record: the step, its gate, and all gates after it. -/
structure RoutineEntry where
  note : RoutineNote
  gate : Nat
  state : Gates

/-- The recorded gate, after the step. -/
def RoutineEntry.gateState (e : RoutineEntry) : Gate := e.state.table e.gate

/-- The gates after a routine, its trace, and its outcome. -/
structure RoutineRun where
  gates : Gates
  trace : Trace RoutineEntry
  outcome : Outcome

namespace RoutineRun

/-- The run `r` after `earlier`. -/
def after (earlier : Trace RoutineEntry) (r : RoutineRun) : RoutineRun :=
  { r with trace := earlier ++ r.trace }

end RoutineRun

/-- Runs a routine. A `call` of a `running` gate can only come from within its own closure; the answer there
    is a placeholder that says nothing about the program, as for `Gate.call`. -/
def Routine.run : Routine → Gates → RoutineRun
  | done, gs => ⟨gs, [], .ok⟩
  | query g next, gs => (next.run gs).after [.entry ⟨.queried, g, gs⟩]
  | call g propagate body ending next, gs =>
    match gs.table g with
    | .unused =>
      let started := gs.setGate g .running
      let inner := body.run started
      let outcome := inner.outcome.andThen ending.outcome
      let closed := inner.gates.setGate g (.completed outcome.isFailure)
      let happened :=
        .entry ⟨.started, g, started⟩ :: inner.trace ++ Trace.ofEvents outcome.events ++
          [.entry ⟨.called outcome true, g, closed⟩]
      if propagate && outcome.isFailure then ⟨closed, happened, outcome⟩
      else (next.run closed).after happened
    | .running => (next.run gs).after [.entry ⟨.called .ok false, g, gs⟩]
    | .completed _ => (next.run gs).after [.entry ⟨.called .ok false, g, gs⟩]
  | load g propagate timeout next, gs =>
    let (loaded, outcome) := gs.load g timeout
    let happened := Trace.ofEvents outcome.events ++ [.entry ⟨.loaded outcome, g, loaded⟩]
    if propagate && outcome.isFailure then ⟨loaded, happened, outcome⟩
    else (next.run loaded).after happened
  | threads g count ending next, gs =>
    let (called, results) := gs.callAll g ending.outcome (List.range count)
    (next.run called).after
      (Trace.ofEvents (results.flatMap fun r => r.2.2.events) ++
        [.entry ⟨.threaded (Tally.ofResults results), g, called⟩])

end NetKit
