import NetKit.Proofs.Stream.Moves
import NetKit.Proofs.Stream.Truncation

/-!
# Hint — asking for a level before any level was set

`Streams.detailLevel` answers `0` and writes `hintText`, as long as no level was ever set. What decides is the
slot of `Annotation.detail`, which all streams share and which is never taken back: so one detail scope on any
stream ends the hints for good on all of them, also if the scope was left long ago, or by a panic.

The hint is written as far as the sink takes it (`Sink.accepted`). If it does not take all of it, this is only
logged.

## Contents
- `Streams.hinted`, `Streams.hintEvents`: what the hint comes to.
- `Streams.detailLevel_of_none`: the answer while no level was set.
- `Script.run_hints_until_detail`: levels in a run.
-/

namespace NetKit

/-! ## The hint -/

namespace Streams

/-- The streams after `hintText` was written to stream `s`, as far as its sink takes it. -/
def hinted (p : Streams) (s : Nat) : Streams :=
  p.setSink s ((p.table s).sink.append ((p.table s).sink.accepted hintText.utf8))

/-- What is logged of the hint: `detailUnset`, and then why the hint could not be written, if it could not. -/
def hintEvents (p : Streams) (s : Nat) : List Event :=
  .detailUnset :: (((p.table s).sink.refusal? hintText.utf8).map (.hintFailed ·.message)).toList

variable {p : Streams}

theorem detailLevel_of_none (h : p.slots.number? .detail = none) (s : Nat) :
    p.detailLevel s = (0, ⟨p.hinted s, p.hintEvents s⟩) := by
  unfold detailLevel hinted hintEvents
  rw [h, Sink.writeAll_eq]
  cases (p.table s).sink.refusal? hintText.utf8 with
  | none => rfl
  | some e => rfl

end Streams

/-! ## Runs -/

/-- A detail scope was entered in one of the entries. -/
def DetailEntered (groups : List (Logged ScriptEntry)) : Prop :=
  ∃ g ∈ groups, g.value.note = .entered .detail

/-- **Levels and the hint.** In a run that starts without slots, a stream that is asked for its level answers
    `0` and gets the hint, with what is logged of it, as long as no detail scope was entered before. After
    that it answers its level, and nothing is written or logged. Neither an indentation scope nor asking for
    the level makes a difference to this. -/
theorem Script.run_hints_until_detail (machine : Machine) (script : Script) {p : Streams}
    (hfresh : ∀ kind, p.slots.number? kind = none) {earlier later : List (Logged ScriptEntry)}
    {answer : Except ActionError Answer} {s : Nat} {after : Streams} {events : List Event}
    (hrecord : (script.run machine p).trace.grouped [] =
      earlier ++ ⟨⟨.acted .level answer, s, after⟩, events⟩ :: later) :
    let before := stateAfter p earlier
    (¬DetailEntered earlier → answer = .ok (.number 0) ∧ after = before.hinted s ∧
      events = before.hintEvents s) ∧
    (DetailEntered earlier → answer = .ok (.number (before.value .detail s)) ∧ after = before ∧
      events = []) ∧
    after.slots = before.slots ∧
    ∀ t amount, (before.enter .indent t amount).value.slots.number? .detail =
      before.slots.number? .detail := by
  intro before
  have hmoves := (moves_run machine script p).moves
  rw [hrecord] at hmoves
  obtain ⟨hearlier, hmove⟩ := hmoves.split
  have hlevel : answer = .ok (.number (before.detailLevel s).1) ∧
      after = (before.detailLevel s).2.value ∧ events = (before.detailLevel s).2.events := by
    cases hmove
    exact ⟨rfl, rfl, rfl⟩
  -- the slot of the levels was given out by a detail scope or not at all
  have hslot : (before.slots.number? .detail).isSome = true ↔ DetailEntered earlier := by
    have hiff := hearlier.isSome_number_iff .detail
    rw [hfresh] at hiff
    exact hiff.trans (or_iff_right Bool.false_ne_true)
  refine ⟨fun hnone => ?_, fun hentered => ?_, ?_, fun t amount => ?_⟩
  · have hempty : before.slots.number? .detail = none :=
      Option.not_isSome_iff_eq_none.mp (fun h => hnone (hslot.mp h))
    rw [Streams.detailLevel_of_none hempty s] at hlevel
    exact hlevel
  · rw [Streams.detailLevel_of_isSome (hslot.mpr hentered) s] at hlevel
    exact hlevel
  · rw [hlevel.2.1]
    exact (Streams.sameCells_detailLevel before s).1
  · exact Slots.number_allocate_other _ (fun h => nomatch h)

/-- A hint of which six bytes fit, although an indentation scope is open; and, after a detail scope on another
    stream was left by a panic, levels `5` inside a detail scope of their own stream and `0` behind it, without
    a hint. -/
theorem Script.run_hints_until_detail_panic :
    let start := Streams.start .fresh fun _ => .empty (some 6) none
    let asking := scope .indent 0 1 (act 0 .level done) done
    let lost := attempt 1 (scope .detail 1 3 (panic "lost".toList done) done)
      (scope .detail 0 5 (act 0 .level done) (act 0 .level done))
    (∀ kind, start.slots.number? kind = none) ∧
      (∃ entered answer after events later, (asking.run .loopbackOnly start).trace.grouped [] =
          entered :: ⟨⟨.acted .level answer, 0, after⟩, events⟩ :: later ∧
        answer = .ok (.number 0) ∧ (after.table 0).sink.bytes = Text.utf8 "Hint: ".toList ∧
        events = [.detailUnset, .hintFailed "closed".toList]) ∧
      ∃ earlier inside left last, (lost.run .loopbackOnly start).trace.grouped [] =
          earlier ++ [inside, left, last] ∧ earlier.length = 3 ∧
        inside.value.note = .acted .level (.ok (.number 5)) ∧ inside.events = [] ∧
        last.value.note = .acted .level (.ok (.number 0)) ∧ last.events = [] ∧
        (last.value.state.table 0).sink.bytes = [] := by
  intro start asking lost
  have hfresh : ∀ kind, start.slots.number? kind = none := fun kind => by cases kind <;> rfl
  refine ⟨hfresh, ?_, ?_⟩
  · let asked := (start.enter .indent 0 1).value.act .loopbackOnly 0 .level
    have htrace : (asking.run .loopbackOnly start).trace =
        Trace.ofEvents [.slotAllocated .indent 0] ++
          .entry ⟨.entered .indent, 0, (start.enter .indent 0 1).value⟩ ::
            (Trace.ofEvents asked.2.events ++ .entry ⟨.acted .level asked.1, 0, asked.2.value⟩ ::
              [.entry ⟨.left .indent, 0, (asked.2.value.leave .indent 0 1 0).value⟩]) := by
      rw [run_scope_of_admits _ start .indent 0 1 _ _ rfl]
      show (_ ++ [_]) ++ ((((Trace.ofEvents asked.2.events ++ [_]) ++ []) ++ [_]) ++ []) = _
      simp only [List.append_nil, List.append_assoc, List.cons_append]
      rfl
    have hrecord : (asking.run .loopbackOnly start).trace.grouped [] =
        [⟨⟨.entered .indent, 0, (start.enter .indent 0 1).value⟩, [.slotAllocated .indent 0]⟩] ++
          ⟨⟨.acted .level asked.1, 0, asked.2.value⟩, asked.2.events⟩ ::
            [⟨⟨.left .indent, 0, (asked.2.value.leave .indent 0 1 0).value⟩, []⟩] := by
      rw [htrace, Trace.grouped_step, Trace.grouped_step]
      rfl
    obtain ⟨hhint, -⟩ := run_hints_until_detail .loopbackOnly asking hfresh hrecord
    have hnone : ¬DetailEntered [⟨⟨.entered .indent, 0, (start.enter .indent 0 1).value⟩,
        [.slotAllocated .indent 0]⟩] := by
      rintro ⟨g, hg, hdetail⟩
      rw [List.mem_singleton.mp hg] at hdetail
      cases hdetail
    obtain ⟨hanswer, hafter, hevents⟩ := hhint hnone
    refine ⟨_, _, _, _, _, hrecord, hanswer, ?_, hevents⟩
    rw [hafter]
    rfl
  · have hinside : (lost.run .loopbackOnly start).trace.grouped [] =
        [_, _, _] ++ ⟨⟨.acted .level _, _, _⟩, _⟩ :: [_, _] := rfl
    have hlast : (lost.run .loopbackOnly start).trace.grouped [] =
        [_, _, _, _, _] ++ ⟨⟨.acted .level _, _, _⟩, _⟩ :: [] := rfl
    obtain ⟨-, hlevel, -⟩ := run_hints_until_detail .loopbackOnly lost hfresh hinside
    obtain ⟨-, hlevel', -⟩ := run_hints_until_detail .loopbackOnly lost hfresh hlast
    obtain ⟨hanswer, -, hevents⟩ := hlevel ⟨_, List.mem_cons_self, rfl⟩
    obtain ⟨hanswer', hafter', hevents'⟩ := hlevel' ⟨_, List.mem_cons_self, rfl⟩
    exact ⟨_, _, _, _, hinside, rfl, congrArg _ hanswer, hevents, congrArg _ hanswer', hevents', rfl⟩

end NetKit
