import NetKit.Address.Parser
import NetKit.Address.Sockaddr
import NetKit.Address.Text
import NetKit.Stream.Basic

/-!
# Scripts — scoped annotations, writes and panics on several `Streams`

A `Script` is a sequence of steps. `Script.scope` changes an annotation of one stream (`Streams.enter`),
runs a script of its own and undoes the change (`Streams.leave`): an `Annotation.indent` scope adds its
amount and subtracts it again, an `Annotation.detail` scope sets the level and puts back the one before.
`Script.panic` abandons the steps that follow, up to the nearest enclosing `Script.attempt`, and undoes
the scopes on the way.

Depths are `Int64`. What an addition does whose sum is not an `Int64` depends on how the program was
built, which is `Machine.overflow`: the sum wraps around modulo `2 ^ 64`, or the scope is not entered and
`overflowText` is a panic. Leaving a scope never overflows (`Script.toInt_leave`).

`Script.run` records every step that ends without a panic as a `ScriptEntry`, with all streams after it;
a scope is also recorded when it is entered.

## Contents
- `Overflow`, `Machine`: what a run depends on besides its script.
- `Action`, `Streams.act`: steps that are not scopes.
- `Streams.admits`, `Streams.enter`, `Streams.leave`: the two ends of a scope.
- `Script`: sequences of steps.
- `ScriptEntry`, `Script.run`: running a script, and the record of it.
-/

namespace NetKit

/-! ## Machines -/

/-- What an `Int64` addition does if the sum is out of range. -/
inductive Overflow where
  /-- The sum is taken modulo `2 ^ 64`. -/
  | wraps
  /-- The addition panics with `overflowText`. -/
  | panics
  deriving DecidableEq, Repr

/-- What a run depends on besides its script: the network interfaces, which `Address.parse` looks up,
    and the overflow behaviour of the build. -/
structure Machine where
  interfaces : Interfaces
  overflow : Overflow

/-- `Interfaces.loopbackOnly`, without overflow checks. -/
def Machine.loopbackOnly : Machine := ⟨.loopbackOnly, .wraps⟩

/-- The panic of an addition that overflows. -/
def overflowText : Text := "attempt to add with overflow".toList

/-- `n` is the value of an `Int64`. -/
def InInt64 (n : Int) : Prop := Int64.minValue.toInt ≤ n ∧ n ≤ Int64.maxValue.toInt

instance (n : Int) : Decidable (InInt64 n) := instDecidableAnd

/-! ## Actions -/

/-- A step on one stream that is no scope. -/
inductive Action where
  /-- Asks for `Streams.depth`. -/
  | depth
  /-- Asks for `Streams.detailLevel`. -/
  | level
  /-- Asks for `indentText` at the depth. -/
  | indentation
  /-- Writes `indentUnit` once for each level of indentation. -/
  | writeIndentation
  /-- `Sink.writeAll`. -/
  | write (data : List UInt8)
  /-- `Sink.write`, a single call. -/
  | offer (data : List UInt8)
  /-- `Sink.write` on several pieces as one, a vectored write. -/
  | offerPieces (parts : List (List UInt8))
  /-- `Sink.writeAll` on the sink behind the stream. -/
  | writeSink (data : List UInt8)
  /-- Writes `Address.summary` of the address of `text`. -/
  | writeAddress (text : Text)
  /-- `Sink.flush`. -/
  | flush
  deriving DecidableEq, Repr

/-- The answer to an action that succeeds. -/
inductive Answer where
  | nothing
  | number (n : Int64)
  | text (t : Text)
  | count (n : Nat)
  deriving DecidableEq, Repr

/-- The answer to an action that fails. -/
inductive ActionError where
  | write (error : WriteError)
  | address (error : AddressError)
  deriving DecidableEq, Repr

/-- A sentence about `a`, in the pieces in which it is formatted. How `a.text` itself is cut does not
    matter, by `Sink.writePieces_eq_writeAll`. -/
def Address.summaryPieces (a : Address) : List Text :=
  [a.text, " (".toList, a.family.name, ", ".toList, Nat.toDigits 10 a.sockaddrSize,
    " bytes)".toList]

/-- `summaryPieces` as one text. -/
def Address.summary (a : Address) : Text := a.summaryPieces.flatten

/-- The answer of an action, and the streams after it. -/
abbrev ActionOutcome := Except ActionError Answer × Logged Streams

namespace Streams

/-- The outcome of an action that only works on the sink of stream `s`. -/
def onSink {α : Type} (p : Streams) (s : Nat) (answer : α → Answer)
    (r : Except WriteError α × Sink) : ActionOutcome :=
  ((r.1.map answer).mapError .write, .quiet (p.setSink s r.2))

/-- Writes all of `data` to stream `s`. -/
def writeAll (p : Streams) (s : Nat) (data : List UInt8) : ActionOutcome :=
  p.onSink s (fun () => .nothing) ((p.table s).sink.writeAll data)

/-- Writes `texts` to stream `s`, one after the other. -/
def writeTexts (p : Streams) (s : Nat) (texts : List Text) : ActionOutcome :=
  p.onSink s (fun () => .nothing) (Sink.writePieces (texts.map Text.utf8) (p.table s).sink)

/-- Performs an action on stream `s`. -/
def act (interfaces : Interfaces) (p : Streams) (s : Nat) : Action → ActionOutcome
  | .depth => (.ok (.number (p.depth s)), .quiet p)
  | .level =>
    let (level, after) := p.detailLevel s
    (.ok (.number level), after)
  | .indentation => (.ok (.text (indentText (p.depth s))), .quiet p)
  | .writeIndentation =>
    p.onSink s (fun () => .nothing)
      (Sink.writeRepeated indentUnit.utf8 (p.depth s).toInt.toNat (p.table s).sink)
  | .write data => p.writeAll s data
  | .offer data => p.onSink s .count ((p.table s).sink.write data)
  | .offerPieces parts => p.onSink s .count ((p.table s).sink.write parts.flatten)
  | .writeSink data => p.writeAll s data
  | .writeAddress text =>
    match Address.parse interfaces text 0 with
    | ⟨.error e, events⟩ => (.error (.address e), ⟨p, events⟩)
    | ⟨.ok a, events⟩ =>
      let (answer, after) := p.writeTexts s a.summaryPieces
      (answer, ⟨after.value, events ++ after.events⟩)
  | .flush => p.onSink s (fun () => .nothing) (p.table s).sink.flush

/-! ## Scopes -/

/-- Whether a scope can be entered: with overflow checks, an `Annotation.indent` scope only if the new
    depth is an `Int64`. -/
def admits (machine : Machine) (p : Streams) (kind : Annotation) (s : Nat) (amount : Int64) : Bool :=
  match machine.overflow, kind with
  | .panics, .indent => InInt64 ((p.depth s).toInt + amount.toInt)
  | .panics, .detail => true
  | .wraps, _ => true

/-- Enters a scope of `kind` on stream `s`. The sum wraps around. -/
def enter (p : Streams) (kind : Annotation) (s : Nat) (amount : Int64) : Logged Streams :=
  p.update kind s fun before =>
    match kind with
    | .indent => before + amount
    | .detail => amount

/-- The part of `enter` that precedes an addition that panics: the slot is asked for, and the cell stays
    as it is. -/
def touch (p : Streams) (kind : Annotation) (s : Nat) : Logged Streams := p.update kind s id

/-- Leaves a scope of `kind` on stream `s`, where the value was `before` when it was entered. -/
def leave (p : Streams) (kind : Annotation) (s : Nat) (amount before : Int64) : Logged Streams :=
  p.update kind s fun now =>
    match kind with
    | .indent => now - amount
    | .detail => before

end Streams

/-! ## Scripts -/

/-- A program of actions and scopes on several streams. -/
inductive Script where
  /-- No step. -/
  | done
  /-- `Streams.act` on stream `stream`. -/
  | act (stream : Nat) (action : Action) (next : Script)
  /-- `body` between `Streams.enter` and `Streams.leave`. -/
  | scope (kind : Annotation) (stream : Nat) (amount : Int64) (body next : Script)
  /-- Catches a panic of `body`; `stream` is the one that the record names. -/
  | attempt (stream : Nat) (body next : Script)
  /-- Abandons everything up to the nearest enclosing `attempt`; `next` is never reached. -/
  | panic (reason : Text) (next : Script)
  deriving DecidableEq, Inhabited, Repr

/-- What a `ScriptEntry` says of its step. -/
inductive ScriptNote where
  /-- A scope was entered. -/
  | entered (kind : Annotation)
  /-- The action was performed, and answered. -/
  | acted (action : Action) (answer : Except ActionError Answer)
  /-- A scope was left, at its end or by a panic. -/
  | left (kind : Annotation)
  /-- An `attempt` has ended: with the panic that it caught, or without. -/
  | caught (reason : Option Text)

/-- One item of the record: the step, the stream it names, and all streams after it. -/
structure ScriptEntry where
  note : ScriptNote
  stream : Nat
  state : Streams

namespace ScriptEntry

/-- The bytes in the sink of the recorded stream, after the step. -/
def length (e : ScriptEntry) : Nat := (e.state.table e.stream).sink.bytes.length

/-- `Streams.depth` of the recorded stream, after the step. -/
def depth (e : ScriptEntry) : Int64 := e.state.depth e.stream

end ScriptEntry

/-- The streams after a script, its trace, and the panic that ended it, if any. -/
structure ScriptRun where
  streams : Streams
  trace : Trace ScriptEntry
  panic : Option Text

namespace ScriptRun

/-- The run `r` after `earlier`. -/
def after (earlier : Trace ScriptEntry) (r : ScriptRun) : ScriptRun :=
  { r with trace := earlier ++ r.trace }

end ScriptRun

/-- Runs a script. A scope that `Streams.admits` refuses panics with nothing to undo, and leaves no entry. -/
def Script.run (machine : Machine) : Script → Streams → ScriptRun
  | done, p => ⟨p, [], none⟩
  | act s action next, p =>
    let (answer, outcome) := p.act machine.interfaces s action
    (next.run machine outcome.value).after
      (Trace.ofEvents outcome.events ++ [.entry ⟨.acted action answer, s, outcome.value⟩])
  | scope kind s amount body next, p =>
    if p.admits machine kind s amount then
      let entered := p.enter kind s amount
      let inner := body.run machine entered.value
      let left := inner.streams.leave kind s amount (p.value kind s)
      let happened :=
        Trace.ofEvents entered.events ++ [.entry ⟨.entered kind, s, entered.value⟩] ++
          inner.trace ++ Trace.ofEvents left.events
      match inner.panic with
      | some reason => ⟨left.value, happened, some reason⟩
      | none =>
        (next.run machine left.value).after
          (happened ++ [.entry ⟨.left kind, s, left.value⟩])
    else
      let touched := p.touch kind s
      ⟨touched.value, Trace.ofEvents touched.events, some overflowText⟩
  | attempt s body next, p =>
    let inner := body.run machine p
    (next.run machine inner.streams).after
      (inner.trace ++ [.entry ⟨.caught inner.panic, s, inner.streams⟩])
  | panic reason _, p => ⟨p, [], some reason⟩

end NetKit
