import NetKit.Event
import NetKit.Stream.Sink
import NetKit.Table

/-!
# Annotated streams — a `Sink` with `Int64` cells, and `Streams` that share `Slots`

A `Stream` is a `Sink` with a list of cells, indexed by the slot numbers of `Slots`. A cell beyond the
end of the list reads as zero, and `Stream.setCell` grows the list on demand. All `Streams` share one
`Slots`, so that `Streams.update` gives a kind of annotation its slot the first time that it is called
for any stream.

`Streams.detailLevel` writes `hintText` to the sink as long as `Annotation.detail` has no slot, and
answers `0` then. A `WriteError` of that write is only logged, as `Event.hintFailed`.

## Contents
- `Stream`, `Stream.cell`, `Stream.setCell`: the cells of one stream.
- `Streams`, `Streams.value`, `Streams.update`: all streams, with their `Slots`.
- `Streams.detailLevel`: the level, or `0` and the hint.
- `indentText`: an indentation depth as text.
-/

namespace NetKit

/-- A unit of indentation. -/
def indentUnit : Text := "    ".toList

/-- `indentUnit` repeated `depth` times; no text if `depth ≤ 0`. -/
def indentText (depth : Int64) : Text := (List.replicate depth.toInt.toNat indentUnit).flatten

/-- The hint that `Streams.detailLevel` writes while `Annotation.detail` has no slot. -/
def hintText : Text := "Hint: wrap with inet_endpoint::annotate::DetailLevel\n".toList

/-! ## Streams -/

/-- An output stream: its `Sink`, and the cells of its annotations by slot number. -/
structure Stream where
  sink : Sink
  cells : List Int64
  deriving DecidableEq, Repr

namespace Stream

/-- A stream without cells. -/
def ofSink (sink : Sink) : Stream := ⟨sink, []⟩

/-- The cell of slot `id`, `0` beyond the end of `cells`. -/
def cell (s : Stream) (id : Nat) : Int64 := s.cells.getD id 0

/-- Sets the cell of slot `id`, after `cells` was filled up with zeros to length `id + 1`. -/
def setCell (s : Stream) (id : Nat) (value : Int64) : Stream :=
  { s with cells := (s.cells ++ List.replicate (id + 1 - s.cells.length) 0).set id value }

/-- `setCell` sets its own cell. -/
theorem cell_setCell_same (s : Stream) (id : Nat) (value : Int64) :
    (s.setCell id value).cell id = value := by
  have bound : id < (s.cells ++ List.replicate (id + 1 - s.cells.length) 0).length := by
    rw [List.length_append, List.length_replicate]
    omega
  unfold cell setCell
  rw [List.getD_eq_getElem?_getD, List.getElem?_set_self bound, Option.getD_some]

/-- `setCell` changes no other cell, although it may grow `cells`. -/
theorem cell_setCell_other (s : Stream) {id other : Nat} (value : Int64) (h : other ≠ id) :
    (s.setCell id value).cell other = s.cell other := by
  unfold cell setCell
  rw [List.getD_eq_getElem?_getD, List.getD_eq_getElem?_getD, List.getElem?_set_ne (Ne.symm h),
    List.getElem?_append]
  split
  · rfl
  · next outside =>
    rw [List.getElem?_replicate, List.getElem?_eq_none (Nat.le_of_not_lt outside)]
    split <;> rfl

/-- `setCell` grows `cells` no further than its own slot needs. -/
theorem length_cells_setCell (s : Stream) (id : Nat) (value : Int64) :
    (s.setCell id value).cells.length = max s.cells.length (id + 1) := by
  unfold setCell
  rw [List.length_set, List.length_append, List.length_replicate]
  omega

/-- Writing a cell back that is there changes nothing. -/
theorem setCell_cell (s : Stream) {id : Nat} (h : id < s.cells.length) :
    s.setCell id (s.cell id) = s := by
  have hnone : id + 1 - s.cells.length = 0 := Nat.sub_eq_zero_of_le h
  unfold setCell cell
  rw [hnone, List.replicate_zero, List.append_nil, List.getD_eq_getElem?_getD,
    List.getElem?_eq_getElem h, Option.getD_some, List.set_getElem_self]

end Stream

/-! ## Streams that share slots -/

/-- All streams by index, and the `Slots` that they share. -/
structure Streams where
  slots : Slots
  table : Table Nat Stream

namespace Streams

/-- Replaces stream `s`. -/
def setStream (p : Streams) (s : Nat) (stream : Stream) : Streams :=
  { p with table := p.table.set s stream }

/-- Replaces the sink of stream `s`. -/
def setSink (p : Streams) (s : Nat) (sink : Sink) : Streams :=
  p.setStream s { p.table s with sink := sink }

/-- The value of annotation `kind` on stream `s`, `0` while `kind` has no slot. -/
def value (p : Streams) (kind : Annotation) (s : Nat) : Int64 :=
  match p.slots.number? kind with
  | none => 0
  | some id => (p.table s).cell id

/-- Applies `f` to the cell of `kind` on stream `s`, after `Slots.allocate` was asked for its slot. Logs
    `Event.slotAllocated` if the slot is new. -/
def update (p : Streams) (kind : Annotation) (s : Nat) (f : Int64 → Int64) : Logged Streams :=
  match p.slots.allocate kind with
  | (id, slots, isNew) =>
    let stream := p.table s
    ⟨{ slots := slots, table := p.table.set s (stream.setCell id (f (stream.cell id))) },
      if isNew then [.slotAllocated kind id] else []⟩

/-- The indentation depth of stream `s`. -/
def depth (p : Streams) (s : Nat) : Int64 := p.value .indent s

/-- The detail level of stream `s`. While `Annotation.detail` has no slot, the answer is `0` and
    `hintText` is written to the sink of `s`. -/
def detailLevel (p : Streams) (s : Nat) : Int64 × Logged Streams :=
  match p.slots.number? .detail with
  | some id => ((p.table s).cell id, .quiet p)
  | none =>
    match (p.table s).sink.writeAll hintText.utf8 with
    | (.ok (), sink) => (0, ⟨p.setSink s sink, [.detailUnset]⟩)
    | (.error e, sink) => (0, ⟨p.setSink s sink, [.detailUnset, .hintFailed e.message]⟩)

end Streams

end NetKit
