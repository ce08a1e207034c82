import NetKit.ErrorKind
import NetKit.Text

/-!
# Sinks — where the bytes of a stream go, possibly in limited amounts

A `Sink` takes the bytes that are written to it, up to `Sink.limit` in all and up to `Sink.chunk` in one
call. `Sink.write` takes a leading part of its data and answers its length; `Sink.writeAll` repeats the
call on what is left. Bytes that were taken before a `WriteError` stay taken.

## Contents
- `WriteError`: a full sink, and a sink that takes nothing.
- `Sink`, `Sink.write`, `Sink.flush`: one call.
- `Sink.writeAll`, `Sink.writePieces`, `Sink.writeRepeated`: repeated calls.
-/

namespace NetKit

/-- Why a call of a `Sink` fails. -/
inductive WriteError where
  /-- `Sink.limit` is reached. -/
  | closed
  /-- A call took `0` bytes although the limit is not reached. -/
  | tookNothing
  deriving DecidableEq, Repr

namespace WriteError

/-- The wording of the failure. -/
def message : WriteError → Text
  | closed => "closed".toList
  | tookNothing => "failed to write whole buffer".toList

/-- `brokenPipe` or `writeZero`. -/
def kind : WriteError → ErrorKind
  | closed => .brokenPipe
  | tookNothing => .writeZero

end WriteError

/-- The bytes taken so far, the `limit` in all, the `chunk` of one call, and the count of flushes. -/
structure Sink where
  bytes : List UInt8
  limit : Option Nat
  chunk : Option Nat
  flushes : Nat
  deriving DecidableEq, Repr

namespace Sink

/-- A sink that has taken nothing. -/
def empty (limit chunk : Option Nat) : Sink := ⟨[], limit, chunk, 0⟩

/-- `limit` is reached. -/
def isFull (s : Sink) : Bool := s.limit.any (· ≤ s.bytes.length)

/-- `min n bound`, or `n` without a bound. -/
def atMost (bound : Option Nat) (n : Nat) : Nat := (bound.map (min n)).getD n

/-- How many bytes one call takes of `n` offered ones. -/
def uptake (s : Sink) (n : Nat) : Nat :=
  atMost (s.limit.map (· - s.bytes.length)) (atMost s.chunk n)

theorem atMost_le (bound : Option Nat) (n : Nat) : atMost bound n ≤ n := by
  cases bound with
  | none => exact Nat.le_refl n
  | some b => exact Nat.min_le_left n b

theorem uptake_le (s : Sink) (n : Nat) : s.uptake n ≤ n :=
  Nat.le_trans (atMost_le _ _) (atMost_le _ _)

/-- One call: the count of bytes taken, and the sink after it. -/
def write (s : Sink) (data : List UInt8) : Except WriteError Nat × Sink :=
  if s.isFull && !data.isEmpty then (.error .closed, s)
  else
    let n := s.uptake data.length
    (.ok n, { s with bytes := s.bytes ++ data.take n })

/-- `write` appends as many leading bytes as it reports. -/
theorem write_ok (s : Sink) (data : List UInt8) {n : Nat} {after : Sink}
    (h : s.write data = (.ok n, after)) :
    n = s.uptake data.length ∧ after = { s with bytes := s.bytes ++ data.take n } := by
  unfold write at h
  split at h
  · cases h
  · obtain ⟨count, rfl⟩ := Prod.mk.inj h
    cases count
    exact ⟨rfl, rfl⟩

/-- `write` that fails leaves the sink alone. -/
theorem write_error (s : Sink) (data : List UInt8) {e : WriteError} {after : Sink}
    (h : s.write data = (.error e, after)) : after = s ∧ e = .closed := by
  unfold write at h
  split at h
  · obtain ⟨cause, rfl⟩ := Prod.mk.inj h
    cases cause
    exact ⟨rfl, rfl⟩
  · cases h

/-- Counts the flush, which fails on a full sink. -/
def flush (s : Sink) : Except WriteError Unit × Sink :=
  let flushed := { s with flushes := s.flushes + 1 }
  (if s.isFull then .error .closed else .ok (), flushed)

/-- `write` on what is left of `data`, until nothing is, or a call fails or takes nothing. -/
def writeAll (s : Sink) (data : List UInt8) : Except WriteError Unit × Sink :=
  if data = [] then (.ok (), s)
  else
    match s.write data with
    | (.error e, after) => (.error e, after)
    | (.ok 0, after) => (.error .tookNothing, after)
    | (.ok (n + 1), after) => writeAll after (data.drop (n + 1))
termination_by data.length
decreasing_by
  have := List.length_pos_iff.2 ‹¬data = []›
  simp only [List.length_drop]
  omega

@[simp] theorem writeAll_nil (s : Sink) : s.writeAll [] = (.ok (), s) := by
  rw [writeAll, if_pos rfl]

/-- `writeAll` for each piece, until one of them fails. -/
def writePieces : List (List UInt8) → Sink → Except WriteError Unit × Sink
  | [], s => (.ok (), s)
  | piece :: pieces, s =>
    match s.writeAll piece with
    | (.error e, after) => (.error e, after)
    | (.ok (), after) => writePieces pieces after

/-- `writeAll data`, `times` times, until one of them fails. -/
def writeRepeated (data : List UInt8) : (times : Nat) → Sink → Except WriteError Unit × Sink
  | 0, s => (.ok (), s)
  | times + 1, s =>
    match s.writeAll data with
    | (.error e, after) => (.error e, after)
    | (.ok (), after) => writeRepeated data times after

end Sink

end NetKit
