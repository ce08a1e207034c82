import NetKit.Stream.Slot
import NetKit.Text

/-!
# Events — what is logged besides the results

Some operations log what their result does not show. An `Event` is data: `Logged α` returns the events
of a computation beside its value, and a `Trace` interleaves events with the record of a run.

## Contents
- `Event`, `Event.level`, `Event.message`: the events, their urgency and their wording.
- `Logged`: a value and the events emitted while it was computed.
- `Trace`, `Trace.grouped`: events among the entries of a longer run.
-/

namespace NetKit

/-- The log levels in use. -/
inductive Level where
  | debug
  | info
  | warn
  deriving DecidableEq, Repr

/-- Everything that is logged. -/
inductive Event where
  /-- A named scope was found as the index of `interface`. -/
  | scopeResolved (interface : Text) (scope : UInt32)
  /-- The slot `id` was allocated to `kind`. -/
  | slotAllocated (kind : Annotation) (id : Nat)
  /-- The detail level was requested before any `DetailLevel` existed. -/
  | detailUnset
  /-- The hint about the detail level could not be written. -/
  | hintFailed (reason : Text)
  /-- The closure of a gate returned an error. -/
  | gateFailed
  /-- The closure of a gate panicked. -/
  | gatePanicked
  deriving DecidableEq, Repr

namespace Event

/-- The level that each event is logged at. -/
def level : Event → Level
  | scopeResolved .. => .debug
  | slotAllocated .. => .debug
  | detailUnset => .info
  | hintFailed .. => .debug
  | gateFailed => .warn
  | gatePanicked => .warn

/-- The log message of each event. -/
def message : Event → Text
  | scopeResolved .. => "resolved IPv6 scope from interface name".toList
  | slotAllocated .. => "allocated stream annotation slot".toList
  | detailUnset => "detail level requested, but no DetailLevel has been used yet".toList
  | hintFailed .. => "could not write DetailLevel hint to stream".toList
  | gateFailed => "run-once initialization failed; it will not be retried".toList
  | gatePanicked => "run-once initialization panicked; it will not be retried".toList

end Event

/-- A value, and the events emitted on the way to it, in order. -/
structure Logged (α : Type) where
  value : α
  events : List Event
  deriving DecidableEq, Repr

namespace Logged

/-- `a` with no event. -/
def quiet {α : Type} (a : α) : Logged α := ⟨a, []⟩

/-- Maps the value and keeps the events. -/
def map {α β : Type} (f : α → β) (x : Logged α) : Logged β := ⟨f x.value, x.events⟩

@[simp] theorem value_map {α β : Type} (f : α → β) (x : Logged α) :
    (x.map f).value = f x.value := rfl

@[simp] theorem events_map {α β : Type} (f : α → β) (x : Logged α) :
    (x.map f).events = x.events := rfl

end Logged

/-! ## Traces -/

/-- One item of a `Trace`: an `Event`, or an entry of the run's record. -/
inductive Happening (α : Type) where
  | event (e : Event)
  | entry (a : α)
  deriving DecidableEq, Repr

/-- Events and entries of a run, interleaved as they happened. -/
abbrev Trace (α : Type) := List (Happening α)

namespace Trace

/-- `es` as a `Trace` with no entry. -/
def ofEvents {α : Type} (es : List Event) : Trace α := es.map .event

/-- The events of `t`, in order. -/
def events {α : Type} (t : Trace α) : List Event :=
  t.filterMap fun
    | .event e => some e
    | .entry _ => none

/-- The entries of `t`, in order. -/
def entries {α : Type} (t : Trace α) : List α :=
  t.filterMap fun
    | .event _ => none
    | .entry a => some a

/-- Each entry of the trace with the events since the entry before it, `pending` for the first one. -/
def grouped {α : Type} (pending : List Event) : Trace α → List (Logged α)
  | [] => []
  | .event e :: t => grouped (pending ++ [e]) t
  | .entry a :: t => ⟨a, pending⟩ :: grouped [] t

@[simp] theorem entries_nil {α : Type} : entries ([] : Trace α) = [] := rfl

@[simp] theorem entries_entry {α : Type} (a : α) (t : Trace α) :
    entries (.entry a :: t) = a :: entries t := rfl

@[simp] theorem events_entry {α : Type} (a : α) (t : Trace α) :
    events (.entry a :: t) = events t := rfl

@[simp] theorem events_append {α : Type} (t u : Trace α) :
    events (t ++ u) = events t ++ events u := by
  simp [events]

@[simp] theorem entries_append {α : Type} (t u : Trace α) :
    entries (t ++ u) = entries t ++ entries u := by
  simp [entries]

@[simp] theorem events_ofEvents {α : Type} (es : List Event) :
    events (ofEvents es : Trace α) = es := by
  unfold events ofEvents
  rw [List.filterMap_map]
  exact List.filterMap_some

@[simp] theorem entries_ofEvents {α : Type} (es : List Event) :
    entries (ofEvents es : Trace α) = [] := by
  induction es with
  | nil => rfl
  | cons e es _ => simp [entries, ofEvents]

/-- `grouped` keeps every entry. -/
theorem values_grouped {α : Type} (pending : List Event) (t : Trace α) :
    (grouped pending t).map Logged.value = entries t := by
  induction t generalizing pending with
  | nil => rfl
  | cons h t ih =>
    cases h with
    | event e => simpa [grouped, entries] using ih (pending ++ [e])
    | entry a => simp [grouped, entries, ih []]

end Trace

end NetKit
