import NetKit.Event

/-!
# Gates — initialisation that runs at most once, and whose failure is final

A `Gate` lets one closure through. The first `Gate.call` runs its closure; from then on the gate is
`Gate.completed`, whatever came of the closure, and every later call succeeds without running anything.
Only the call that ran the closure sees its failure, which is logged (`Outcome.events`) before the call
returns.

A call from within the closure of the same gate, on the thread that runs it, is outside the model. The
primitive behind a gate leaves open whether such a call blocks for ever or panics.

## Contents
- `Outcome`: how a closure or a call ends.
- `Gate`, `Gate.isCompleted`, `Gate.hasFailed`, `Gate.debugText`: the states of a gate.
- `Gate.call`, `Gate.callAll`: one call, and the calls of several threads in the order in which they
  reach the gate.
- `Tally`: how many of several calls ran the closure, and how they ended.
-/

namespace NetKit

/-- How a closure ends, or a call. -/
inductive Outcome where
  | ok
  | error (message : Text)
  | panic (message : Text)
  deriving DecidableEq, Repr

namespace Outcome

/-- `error` or `panic`. -/
def isFailure : Outcome → Bool
  | ok => false
  | error _ => true
  | panic _ => true

/-- The warning that a failure is logged with. -/
def events : Outcome → List Event
  | ok => []
  | error _ => [.gateFailed]
  | panic _ => [.gatePanicked]

/-- `first` if it is a failure, else `second`. -/
def andThen (first second : Outcome) : Outcome := if first.isFailure then first else second

end Outcome

/-- The state of a gate.

    The program keeps the failure flag in a cell of its own, beside the one for completion. It is stored by
    the thread that runs the closure, after the closure has ended and before the gate is completed. No step
    of a `Routine` comes between the two, since its steps are run by that same thread, and no caller of a
    `Crowd` reads the flag. So both stores are one here, and the flag is part of `completed`. -/
inductive Gate where
  /-- No closure has been started. -/
  | unused
  /-- A closure is being executed. -/
  | running
  /-- The closure has ended, in a failure or not. -/
  | completed (failed : Bool)
  deriving DecidableEq, Repr

namespace Gate

/-- The gate is `completed`. -/
def isCompleted : Gate → Bool
  | unused => false
  | running => false
  | completed _ => true

/-- The failure flag of the gate, which is not set before it is `completed`. -/
def hasFailed : Gate → Bool
  | unused => false
  | running => false
  | completed failed => failed

/-- The word for a `Bool`. -/
def wordOf : Bool → Text
  | true => "true".toList
  | false => "false".toList

/-- The diagnostic form, with both flags. -/
def debugText (g : Gate) : Text :=
  "OnceGuard \x7b completed: ".toList ++ wordOf g.isCompleted ++ ", failed: ".toList ++
    wordOf g.hasFailed ++ " \x7d".toList

/-- A call with a closure that ends in a given way: the gate after the call, whether the closure was
    executed, and the outcome of the call. Only an `unused` gate executes anything. On a `running` gate the
    answer is a placeholder that says nothing about the program: a call from within the closure is outside
    the model, and one from another thread waits, which is `Crowd.Step.wait`. -/
def call (g : Gate) (closure : Outcome) : Gate × Bool × Outcome :=
  match g with
  | unused => (completed closure.isFailure, true, closure)
  | running => (running, false, .ok)
  | completed failed => (completed failed, false, .ok)

/-- The first call executes its closure and passes the outcome on. -/
theorem call_unused (closure : Outcome) :
    unused.call closure = (completed closure.isFailure, true, closure) := rfl

/-- A call of a gate that is not `unused` changes nothing. -/
theorem call_of_used {g : Gate} (h : g ≠ unused) (closure : Outcome) :
    g.call closure = (g, false, .ok) := by
  cases g with
  | unused => exact absurd rfl h
  | running => rfl
  | completed failed => rfl

/-- `Gate.call` for each thread in the order in which they reach the gate, all with closures that end in
    the same way: the gate after the calls, and for each thread whether it executed its closure and how its
    call ended. -/
def callAll {τ : Type} (closure : Outcome) : List τ → Gate → Gate × List (τ × Bool × Outcome)
  | [], g => (g, [])
  | thread :: threads, g =>
    let (after, result) := g.call closure
    let (final, results) := callAll closure threads after
    (final, (thread, result) :: results)

end Gate

/-- Counts over several calls: executions, and outcomes of each kind. -/
structure Tally where
  runs : Nat
  oks : Nat
  errors : Nat
  panics : Nat
  deriving DecidableEq, Repr

/-- The tally of the results of `Gate.callAll`. -/
def Tally.ofResults {τ : Type} (results : List (τ × Bool × Outcome)) : Tally :=
  { runs := results.countP fun r => r.2.1
    oks := results.countP fun r => r.2.2 matches .ok
    errors := results.countP fun r => r.2.2 matches .error _
    panics := results.countP fun r => r.2.2 matches .panic _ }

end NetKit
