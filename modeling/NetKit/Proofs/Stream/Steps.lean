import NetKit.Proofs.Stream.Truncation
import NetKit.Proofs.Stream.Values

/-!
# Steps — what a step leaves alone, and what it adds to a run

Two runs are compared step by step. For that it is enough to know of `Streams.act` that it answers
questions from `Streams.value` of its stream, does nothing to the other streams and the same to the cells
whatever the sinks hold, and to know which entries a step adds to `Trace.entries` of `Script.run`. The
events between the entries are left out here.

## Contents
- `Action.role`, `Streams.answer_question_congr`: kinds of actions.
- `Streams.act_writeIndentation`, `Streams.writeTexts_eq_writeAll`: writes in pieces.
- `Streams.table_act_other`, `Streams.table_update_other`: other streams.
- `Streams.SameCells.act`, `Streams.SameCells.update`: cells past different sinks.
- `Script.entries_act`, `Script.run_scope_of_panic`, `Script.run_scope_of_end`, `Script.entries_attempt`: runs.
-/

namespace NetKit

/-! ## Kinds of actions -/

/-- What an action is about. -/
inductive ActionRole where
  /-- It asks for a value. -/
  | question
  /-- It writes all of some bytes. -/
  | write
  /-- It offers bytes in one call. -/
  | offer
  /-- It flushes the sink. -/
  | flush
  deriving DecidableEq, Repr

/-- The `ActionRole` of an action. -/
def Action.role : Action → ActionRole
  | depth => .question
  | level => .question
  | indentation => .question
  | writeIndentation => .write
  | write _ => .write
  | offer _ => .offer
  | offerPieces _ => .offer
  | writeSink _ => .write
  | writeAddress _ => .write
  | flush => .flush

namespace Streams

variable {p q : Streams} {kind : Annotation} {s t : Nat} {f : Int64 → Int64}

/-- Questions about a stream are answered from `Streams.value`. -/
theorem answer_question_congr (interfaces : Interfaces) {action : Action}
    (hquestion : action.role = .question) (hvalues : ∀ kind, q.value kind t = p.value kind t) :
    (q.act interfaces t action).1 = (p.act interfaces t action).1 := by
  have hdepth : q.depth t = p.depth t := hvalues .indent
  have hlevel : (q.detailLevel t).1 = (p.detailLevel t).1 := by
    rw [level_eq_value, level_eq_value, hvalues]
  cases action with
  | depth => exact congrArg (fun n => Except.ok (Answer.number n)) hdepth
  | level => exact congrArg (fun n => Except.ok (Answer.number n)) hlevel
  | indentation => exact congrArg (fun n => Except.ok (Answer.text (indentText n))) hdepth
  | writeIndentation => cases hquestion
  | write data => cases hquestion
  | offer data => cases hquestion
  | offerPieces parts => cases hquestion
  | writeSink data => cases hquestion
  | writeAddress text => cases hquestion
  | flush => cases hquestion

/-! ## Writes in pieces -/

/-- `writeIndentation` is a `writeAll` of one text. -/
theorem act_writeIndentation (interfaces : Interfaces) (p : Streams) (s : Nat) :
    p.act interfaces s .writeIndentation = p.writeAll s (indentText (p.depth s)).utf8 := by
  unfold act writeAll indentText
  rw [Sink.writeRepeated_eq_writeAll, Text.utf8_flatten, List.map_replicate]

/-- `writeTexts` is a `writeAll` of one text. -/
theorem writeTexts_eq_writeAll (p : Streams) (s : Nat) (texts : List Text) :
    p.writeTexts s texts = p.writeAll s (Text.utf8 texts.flatten) := by
  unfold writeTexts writeAll
  rw [Sink.writePieces_eq_writeAll, Text.utf8_flatten]

/-! ## Other streams -/

theorem table_setSink_other (p : Streams) (h : t ≠ s) (sink : Sink) :
    (p.setSink s sink).table t = p.table t :=
  Table.set_other _ _ h

theorem sink_setSink_same (p : Streams) (s : Nat) (sink : Sink) :
    ((p.setSink s sink).table s).sink = sink :=
  congrArg Stream.sink (Table.set_same _ _ _)

theorem table_detailLevel_other (p : Streams) (h : t ≠ s) :
    (p.detailLevel s).2.value.table t = p.table t := by
  unfold detailLevel
  split
  · rfl
  · split <;> exact p.table_setSink_other h _

/-- **`act` leaves the other streams alone.** -/
theorem table_act_other (interfaces : Interfaces) (p : Streams) (h : t ≠ s) (action : Action) :
    (p.act interfaces s action).2.value.table t = p.table t := by
  cases action with
  | depth => rfl
  | level => exact p.table_detailLevel_other h
  | indentation => rfl
  | writeIndentation => exact p.table_setSink_other h _
  | write data => exact p.table_setSink_other h _
  | offer data => exact p.table_setSink_other h _
  | offerPieces parts => exact p.table_setSink_other h _
  | writeSink data => exact p.table_setSink_other h _
  | writeAddress text =>
      unfold act
      simp only
      split
      · rfl
      · exact p.table_setSink_other h _
  | flush => exact p.table_setSink_other h _

theorem table_update_other (h : t ≠ s) : (p.update kind s f).value.table t = p.table t :=
  Table.set_other _ _ h

/-! ## Cells past different sinks -/

theorem SameCells.symm (h : SameCells p q) : SameCells q p := ⟨h.1.symm, fun t => (h.2 t).symm⟩

theorem SameCells.trans {r : Streams} (h : SameCells p q) (h' : SameCells q r) : SameCells p r :=
  ⟨h'.1.trans h.1, fun t => (h'.2 t).trans (h.2 t)⟩

theorem SameCells.act (h : SameCells p q) (interfaces : Interfaces) (s : Nat) (action : Action) :
    SameCells (p.act interfaces s action).2.value (q.act interfaces s action).2.value :=
  ((sameCells_act interfaces p s action).symm.trans h).trans (sameCells_act interfaces q s action)

theorem SameCells.update (h : SameCells p q) (kind : Annotation) (s : Nat) (f : Int64 → Int64) :
    SameCells (p.update kind s f).value (q.update kind s f).value := by
  refine ⟨?_, fun t => ?_⟩
  · rw [slots_update, slots_update, h.1]
  · rw [table_update, table_update, h.1]
    by_cases ht : t = s
    · subst ht
      rw [Table.set_same, Table.set_same]
      unfold Stream.setCell Stream.cell
      rw [h.2 t]
    · rw [Table.set_other _ _ ht, Table.set_other _ _ ht]
      exact h.2 t

end Streams

/-! ## Runs -/

namespace Script

variable (machine : Machine) (p : Streams)

theorem entries_act (s : Nat) (action : Action) (next : Script) :
    ((act s action next).run machine p).trace.entries =
      ⟨.acted action (p.act machine.interfaces s action).1, s,
          (p.act machine.interfaces s action).2.value⟩ ::
        (next.run machine (p.act machine.interfaces s action).2.value).trace.entries := by
  simp [run, ScriptRun.after]

theorem entries_attempt (s : Nat) (body next : Script) :
    ((attempt s body next).run machine p).trace.entries =
      (body.run machine p).trace.entries ++
        ⟨.caught (body.run machine p).panic, s, (body.run machine p).streams⟩ ::
          (next.run machine (body.run machine p).streams).trace.entries := by
  simp [run, ScriptRun.after]

/-- The streams after the steps of a scope that has been left. -/
def scopeEnd (kind : Annotation) (s : Nat) (amount : Int64) (body : Script) : Streams :=
  ((body.run machine (p.enter kind s amount).value).streams.leave kind s amount
    (p.value kind s)).value

variable {kind : Annotation} {s : Nat} {amount : Int64} {body : Script}

/-- `run` of a scope that is admitted and whose steps panic ends with its entry and theirs. -/
theorem run_scope_of_panic (hadmits : p.admits machine kind s amount = true) (next : Script)
    {reason : Text}
    (hpanic : (body.run machine (p.enter kind s amount).value).panic = some reason) :
    ((scope kind s amount body next).run machine p).streams =
        scopeEnd machine p kind s amount body ∧
      ((scope kind s amount body next).run machine p).panic = some reason ∧
      ((scope kind s amount body next).run machine p).trace.entries =
        ⟨.entered kind, s, (p.enter kind s amount).value⟩ ::
          (body.run machine (p.enter kind s amount).value).trace.entries := by
  rw [run, if_pos hadmits]
  simp only [hpanic]
  refine ⟨rfl, trivial, ?_⟩
  simp

/-- `run` of a scope that is admitted and whose steps come to their end goes on after the scope is left. -/
theorem run_scope_of_end (hadmits : p.admits machine kind s amount = true) (next : Script)
    (hpanic : (body.run machine (p.enter kind s amount).value).panic = none) :
    ((scope kind s amount body next).run machine p).streams =
        (next.run machine (scopeEnd machine p kind s amount body)).streams ∧
      ((scope kind s amount body next).run machine p).panic =
        (next.run machine (scopeEnd machine p kind s amount body)).panic ∧
      ((scope kind s amount body next).run machine p).trace.entries =
        ⟨.entered kind, s, (p.enter kind s amount).value⟩ ::
          (body.run machine (p.enter kind s amount).value).trace.entries ++
          ⟨.left kind, s, scopeEnd machine p kind s amount body⟩ ::
            (next.run machine (scopeEnd machine p kind s amount body)).trace.entries := by
  rw [run, if_pos hadmits]
  simp only [hpanic]
  refine ⟨rfl, rfl, ?_⟩
  simp [ScriptRun.after, scopeEnd]

end Script

end NetKit
