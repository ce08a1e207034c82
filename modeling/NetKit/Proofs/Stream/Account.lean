import NetKit.Proofs.Stream.Hint

/-!
# Accounts — of every byte that a run writes, which step wrote it

Bytes are written in many ways: offered in one call, in pieces or not, repeated until all are taken, unit by unit
of an indentation, past the stream to its sink, and as a hint that nobody has asked for. A sink takes what it
likes of them, nothing also being an answer, and each way goes on or gives up in its own manner. All of them come
to the same: `Sink.bytes` is what it was, and behind it a leading part of what the step wanted to write
(`Sink.Took`). Nothing is lost between two calls and nothing is written twice.

A `WriteLedger` of a run is an account of this: for every entry of its record the bytes that were taken. A stream
holds its `share` of the account and nothing else, within its limit, and the scopes that a panic leaves take no
part in it.

## Contents
- `Sink.Took`, `Sink.took_write`, `Sink.took_writeAll`: what a sink takes.
- `Action.wanted`, `ActionRole.Answers`, `Streams.act_took`: actions.
- `ScriptEntry.Accounts`, `ScriptMove.exists_accounts`: entries.
- `WriteLedger`, `ScriptMoves.exists_ledger`, `WriteLedger.bytes_eq`: accounts of runs.
- `Streams.Bounded`, `Script.run_accounts`: whole runs.
-/

namespace NetKit

/-! ## What a sink takes -/

namespace Sink

/-- The sink holds no more than its `limit`. -/
def Within (s : Sink) : Prop := ∀ most, s.limit = some most → s.bytes.length ≤ most

/-- The sink has `taken` some of `data`, when it was `s` before and is `after` now. -/
structure Took (s : Sink) (data taken : List UInt8) (after : Sink) : Prop where
  leading : taken <+: data
  bytes : after.bytes = s.bytes ++ taken
  limit : after.limit = s.limit
  within : s.Within → after.Within

variable {s after : Sink} {data taken : List UInt8}

/-- A sink that holds the same bytes has taken none. -/
theorem took_nil (data : List UInt8) (hbytes : after.bytes = s.bytes) (hlimit : after.limit = s.limit) :
    s.Took data [] after where
  leading := ⟨data, rfl⟩
  bytes := hbytes.trans (List.append_nil _).symm
  limit := hlimit
  within hs := by
    unfold Within
    rw [hbytes, hlimit]
    exact hs

/-- `Sink.append` of what there is room for. -/
theorem took_append (hleading : taken <+: data)
    (hroom : ∀ most, s.limit = some most → taken.length ≤ most - s.bytes.length) :
    s.Took data taken (s.append taken) where
  leading := hleading
  bytes := rfl
  limit := rfl
  within hs most hmost := by
    have hbefore := hs most hmost
    have htaken := hroom most hmost
    show (s.bytes ++ taken).length ≤ most
    rw [List.length_append]
    omega

/-- **`Sink.write` takes as many bytes as it reports**, or fails and takes none. -/
theorem took_write (s : Sink) (data : List UInt8) : ∃ taken, s.Took data taken (s.write data).2 ∧
    ((s.write data).1 = .ok taken.length ∨ (s.write data).1 = .error .closed ∧ taken = []) := by
  cases hwrite : s.write data with
  | mk result after =>
      cases result with
      | error e =>
          obtain ⟨rfl, rfl⟩ := s.write_error data hwrite
          exact ⟨[], took_nil data rfl rfl, .inr ⟨rfl, rfl⟩⟩
      | ok n =>
          obtain ⟨hcount, rfl⟩ := s.write_ok data hwrite
          have hlength : (data.take n).length = n := by
            rw [List.length_take, hcount, Nat.min_eq_left (s.uptake_le _)]
          have hroom : ∀ most, s.limit = some most → (data.take n).length ≤ most - s.bytes.length := by
            intro most hmost
            rw [hlength, hcount, uptake, hmost]
            exact Nat.min_le_right _ _
          exact ⟨_, took_append ⟨_, List.take_append_drop n data⟩ hroom, .inl (congrArg _ hlength.symm)⟩

/-- **`Sink.writeAll` takes what is `accepted`**, and succeeds only if that is all. -/
theorem took_writeAll (s : Sink) (data : List UInt8) :
    s.Took data (s.accepted data) (s.writeAll data).2 ∧
      ((s.writeAll data).1 = .ok () → s.accepted data = data) := by
  rw [writeAll_eq]
  constructor
  · unfold accepted
    split
    · exact took_append ⟨data, rfl⟩ fun _ _ => Nat.zero_le _
    · unfold clip
      cases hlimit : s.limit with
      | none =>
          refine took_append (List.prefix_refl data) fun most hmost => ?_
          rw [hlimit] at hmost
          cases hmost
      | some most =>
          refine took_append ⟨_, List.take_append_drop _ data⟩ fun most' hmost => ?_
          rw [hlimit] at hmost
          cases hmost
          exact List.length_take_le _ _
  · intro hok
    by_cases hpart : s.accepted data = data
    · exact hpart
    · unfold refusal? at hok
      rw [if_neg hpart] at hok
      split at hok <;> cases hok

end Sink

/-! ## Actions -/

/-- What an action wants to write to stream `s`: the indentation as text, its data, a sentence if there is
    an address to write about, or `hintText` if no level was ever set. -/
def Action.wanted (interfaces : Interfaces) (p : Streams) (s : Nat) : Action → List UInt8
  | depth => []
  | level => if (p.slots.number? .detail).isSome then [] else hintText.utf8
  | indentation => []
  | writeIndentation => (indentText (p.depth s)).utf8
  | write data => data
  | offer data => data
  | offerPieces parts => parts.flatten
  | writeSink data => data
  | writeAddress text => ((Address.parse interfaces text 0).value.toOption.map (·.summary.utf8)).getD []
  | flush => []

/-- What the answer to an action says about the bytes taken: an `offer` answers how many they are or fails
    without any, and a `write` that succeeds has written all. -/
def ActionRole.Answers (wanted taken : List UInt8) (answer : Except ActionError Answer) : ActionRole → Prop
  | question => True
  | write => ∀ value, answer = .ok value → taken = wanted
  | offer => answer = .ok (.count taken.length) ∨ answer = .error (.write .closed) ∧ taken = []
  | flush => True

namespace Streams

variable {p : Streams} {s : Nat} {wanted taken : List UInt8}

/-- What became of stream `s` and of the action on it: the stream has taken some of `wanted`, and the answer
    is true of that. -/
def ActTook (p : Streams) (s : Nat) (role : ActionRole) (wanted : List UInt8) (r : ActionOutcome) : Prop :=
  ∃ taken, (p.table s).sink.Took wanted taken (r.2.value.table s).sink ∧ role.Answers wanted taken r.1

theorem took_self (p : Streams) (s : Nat) (data : List UInt8) :
    (p.table s).sink.Took data [] (p.table s).sink :=
  Sink.took_nil data rfl rfl

theorem took_setSink {sink : Sink} (h : (p.table s).sink.Took wanted taken sink) :
    (p.table s).sink.Took wanted taken ((p.setSink s sink).table s).sink := by
  rw [sink_setSink_same]
  exact h

/-- A write of all of some data, in whichever way. -/
theorem actTook_written {result : Except WriteError Unit × Sink}
    (htook : (p.table s).sink.Took wanted taken result.2) (hall : result.1 = .ok () → taken = wanted) :
    ActTook p s .write wanted (p.onSink s (fun () => .nothing) result) := by
  refine ⟨taken, took_setSink htook, ?_⟩
  intro value hvalue
  unfold onSink at hvalue
  cases hresult : result.1 with
  | error e => rw [hresult] at hvalue; cases hvalue
  | ok => exact hall hresult

theorem actTook_writeAll (p : Streams) (s : Nat) (data : List UInt8) :
    ActTook p s .write data (p.writeAll s data) := by
  obtain ⟨htook, hall⟩ := (p.table s).sink.took_writeAll data
  exact actTook_written htook hall

/-- An offer of some data in one call. -/
theorem actTook_offered (p : Streams) (s : Nat) (data : List UInt8) :
    ActTook p s .offer data (p.onSink s .count ((p.table s).sink.write data)) := by
  obtain ⟨taken, htook, hcount⟩ := (p.table s).sink.took_write data
  refine ⟨taken, took_setSink htook, ?_⟩
  unfold onSink
  rcases hcount with hcount | ⟨hclosed, hnone⟩
  · rw [hcount]
    exact .inl rfl
  · rw [hclosed]
    exact .inr ⟨rfl, hnone⟩

/-- `detailLevel` writes `hintText` as far as it goes, or nothing if levels have a slot. -/
theorem took_detailLevel (p : Streams) (s : Nat) :
    ∃ taken, (p.table s).sink.Took (if (p.slots.number? .detail).isSome then [] else hintText.utf8) taken
      ((p.detailLevel s).2.value.table s).sink := by
  cases hslot : p.slots.number? .detail with
  | some id =>
      rw [detailLevel_of_isSome (Option.isSome_of_eq_some hslot)]
      exact ⟨[], p.took_self s _⟩
  | none =>
      have hhint := ((p.table s).sink.took_writeAll hintText.utf8).1
      rw [Sink.writeAll_eq] at hhint
      rw [detailLevel_of_none hslot]
      exact ⟨_, took_setSink hhint⟩

/-- **`Streams.act` appends a leading part of what the action wants to write**, and its answer is true of
    that. -/
theorem act_took (interfaces : Interfaces) (p : Streams) (s : Nat) (action : Action) :
    ActTook p s action.role (action.wanted interfaces p s) (p.act interfaces s action) := by
  cases action with
  | depth => exact ⟨[], p.took_self s _, trivial⟩
  | level =>
      obtain ⟨taken, htook⟩ := p.took_detailLevel s
      exact ⟨taken, htook, trivial⟩
  | indentation => exact ⟨[], p.took_self s _, trivial⟩
  | writeIndentation =>
      rw [act_writeIndentation]
      exact p.actTook_writeAll s _
  | write data => exact p.actTook_writeAll s data
  | offer data => exact p.actTook_offered s data
  | offerPieces parts => exact p.actTook_offered s parts.flatten
  | writeSink data => exact p.actTook_writeAll s data
  | writeAddress text =>
      unfold act Action.wanted
      simp only [writeTexts_eq_writeAll]
      cases Address.parse interfaces text 0 with
      | mk result events =>
          cases result with
          | error e => exact ⟨[], p.took_self s _, fun _ h => nomatch h⟩
          | ok a => exact p.actTook_writeAll s a.summary.utf8
  | flush => exact ⟨[], took_setSink (Sink.took_nil [] rfl rfl), trivial⟩

end Streams

/-! ## Entries -/

/-- What a step wants to write to its stream, of which scopes and catches want nothing. -/
def ScriptNote.wanted (interfaces : Interfaces) (p : Streams) (s : Nat) : ScriptNote → List UInt8
  | acted action _ => action.wanted interfaces p s
  | entered _ => []
  | left _ => []
  | caught _ => []

/-- What is recorded of a step is true of the bytes taken. -/
def ScriptNote.Answers (wanted taken : List UInt8) : ScriptNote → Prop
  | acted action answer => action.role.Answers wanted taken answer
  | entered _ => True
  | left _ => True
  | caught _ => True

/-- The bytes that stream `e.stream` has taken in the step that led to `e`: they are a leading part of what
    the step wanted to write, no other stream has taken any, and what is recorded is true of them. -/
structure ScriptEntry.Accounts (interfaces : Interfaces) (before : Streams) (e : ScriptEntry)
    (taken : List UInt8) : Prop where
  took : (before.table e.stream).sink.Took (e.note.wanted interfaces before e.stream) taken
    (e.state.table e.stream).sink
  others : ∀ t, t ≠ e.stream → (e.state.table t).sink = (before.table t).sink
  answers : e.note.Answers (e.note.wanted interfaces before e.stream) taken

/-- Steps that are no writes: questions, flushing and scopes, and asking for a level if levels are `known`. -/
inductive ScriptNote.WritesNothing (known : Prop) : ScriptNote → Prop where
  | depth (answer : Except ActionError Answer) : WritesNothing known (.acted .depth answer)
  | indentation (answer : Except ActionError Answer) : WritesNothing known (.acted .indentation answer)
  | flush (answer : Except ActionError Answer) : WritesNothing known (.acted .flush answer)
  | level (hknown : known) (answer : Except ActionError Answer) : WritesNothing known (.acted .level answer)
  | entered (kind : Annotation) : WritesNothing known (.entered kind)
  | left (kind : Annotation) : WritesNothing known (.left kind)
  | caught (reason : Option Text) : WritesNothing known (.caught reason)

/-- The limits that the streams keep. -/
structure Streams.Bounded (limits : Nat → Option Nat) (p : Streams) : Prop where
  limit : ∀ t, (p.table t).sink.limit = limits t
  within : ∀ t, (p.table t).sink.Within

section Moves

variable {interfaces : Interfaces} {p q : Streams} {g : Logged ScriptEntry}
  {groups : List (Logged ScriptEntry)} {limits : Nat → Option Nat}

/-- Scopes that a panic leaves touch no sink. -/
theorem Streams.Unwound.sinks (h : p.Unwound q) : q.sinks = p.sinks := by
  induction h with
  | stays => rfl
  | leaves _ _ s amount before ih => exact (Streams.sinks_leave _ _ s amount before).trans ih

theorem Streams.Bounded.of_sinks (h : p.Bounded limits) (hsinks : q.sinks = p.sinks) : q.Bounded limits where
  limit t := (congrArg Sink.limit (congrFun hsinks t)).trans (h.limit t)
  within t := by
    have hsink : (q.table t).sink = (p.table t).sink := congrFun hsinks t
    rw [hsink]
    exact h.within t

/-- `Bounded` is kept in a step. -/
theorem ScriptEntry.Accounts.bounded {e : ScriptEntry} {taken : List UInt8}
    (h : e.Accounts interfaces p taken) (hp : p.Bounded limits) : e.state.Bounded limits := by
  have hsink : ∀ t, (e.state.table t).sink.limit = limits t ∧ (e.state.table t).sink.Within := by
    intro t
    by_cases ht : t = e.stream
    · rw [ht]
      exact ⟨h.took.limit.trans (hp.limit _), h.took.within (hp.within _)⟩
    · rw [h.others t ht]
      exact ⟨hp.limit t, hp.within t⟩
  exact ⟨fun t => (hsink t).1, fun t => (hsink t).2⟩

/-- A step that wants to write nothing and touches no sink. -/
theorem ScriptEntry.accounts_nil {e : ScriptEntry} (hsinks : e.state.sinks = p.sinks)
    (hanswers : e.note.Answers (e.note.wanted interfaces p e.stream) []) : e.Accounts interfaces p [] := by
  have hsink : ∀ t, (e.state.table t).sink = (p.table t).sink := congrFun hsinks
  refine ⟨?_, fun t _ => hsink t, hanswers⟩
  rw [hsink]
  exact p.took_self _ _

/-- **Every `ScriptMove` is accounted for.** -/
theorem ScriptMove.exists_accounts (h : ScriptMove interfaces p g) :
    ∃ taken, g.value.Accounts interfaces p taken := by
  cases h with
  | acted s action =>
      obtain ⟨taken, htook, hanswers⟩ := Streams.act_took interfaces p s action
      have hothers : ∀ t, t ≠ s → ((p.act interfaces s action).2.value.table t).sink = (p.table t).sink :=
        fun t ht => congrArg Stream.sink (Streams.table_act_other interfaces p ht action)
      exact ⟨taken, htook, hothers, hanswers⟩
  | entered kind s amount =>
      have hsinks : (p.enter kind s amount).value.sinks = p.sinks := Streams.sinks_update
      exact ⟨[], ScriptEntry.accounts_nil hsinks trivial⟩
  | left hslot s amount before =>
      exact ⟨[], ScriptEntry.accounts_nil (Streams.sinks_leave _ _ s amount before) trivial⟩
  | caught reason s hunwound => exact ⟨[], ScriptEntry.accounts_nil hunwound.sinks trivial⟩

/-- `WritesNothing` wants to write nothing, where levels are known if they have a slot. -/
theorem ScriptNote.WritesNothing.wanted {note : ScriptNote}
    (h : note.WritesNothing ((p.slots.number? .detail).isSome = true)) (s : Nat) :
    note.wanted interfaces p s = [] := by
  cases h with
  | depth => rfl
  | indentation => rfl
  | flush => rfl
  | level hknown => exact if_pos hknown
  | entered => rfl
  | left => rfl
  | caught => rfl

/-- A step that wants to write nothing appends nothing. -/
theorem ScriptEntry.Accounts.bytes_of_wanted {e : ScriptEntry} {taken : List UInt8}
    (h : e.Accounts interfaces p taken) (hwanted : e.note.wanted interfaces p e.stream = []) (t : Nat) :
    (e.state.table t).sink.bytes = (p.table t).sink.bytes := by
  have hleading := h.took.leading
  rw [hwanted, List.prefix_nil] at hleading
  by_cases ht : t = e.stream
  · rw [ht, h.took.bytes, hleading, List.append_nil]
  · rw [h.others t ht]

/-! ## Accounts of runs -/

/-- The account of some entries: the bytes taken in every step, from the state before it. -/
inductive WriteLedger (interfaces : Interfaces) :
    Streams → List (Logged ScriptEntry) → List (List UInt8) → Prop where
  | nil (p : Streams) : WriteLedger interfaces p [] []
  | cons {p : Streams} {g : Logged ScriptEntry} {groups : List (Logged ScriptEntry)} {taken : List UInt8}
      {rest : List (List UInt8)} (hentry : g.value.Accounts interfaces p taken)
      (hrest : WriteLedger interfaces g.value.state groups rest) :
      WriteLedger interfaces p (g :: groups) (taken :: rest)

/-- The share of stream `t` in an account: what was taken in the steps on it, in order. -/
def share (t : Nat) : List (Logged ScriptEntry) → List (List UInt8) → List UInt8
  | g :: groups, taken :: rest => (if g.value.stream = t then taken else []) ++ share t groups rest
  | _, _ => []

theorem ScriptMoves.exists_ledger (h : ScriptMoves interfaces p groups) :
    ∃ account, WriteLedger interfaces p groups account := by
  induction h with
  | nil p => exact ⟨[], .nil p⟩
  | cons hmove _ ih =>
      obtain ⟨taken, hentry⟩ := hmove.exists_accounts
      obtain ⟨rest, hrest⟩ := ih
      exact ⟨taken :: rest, .cons hentry hrest⟩

/-- **A stream has the bytes that it had before, and its `share` of the account.** -/
theorem WriteLedger.bytes_eq {account : List (List UInt8)} (h : WriteLedger interfaces p groups account) (t : Nat) :
    ((stateAfter p groups).table t).sink.bytes = (p.table t).sink.bytes ++ share t groups account := by
  induction h with
  | nil p => exact (List.append_nil _).symm
  | @cons p g groups taken rest hentry _ ih =>
      show ((stateAfter g.value.state groups).table t).sink.bytes = _
      rw [ih, share]
      by_cases ht : g.value.stream = t
      · rw [if_pos ht, ← ht, hentry.took.bytes, List.append_assoc]
      · rw [if_neg ht, hentry.others t (Ne.symm ht), List.nil_append]

/-- `Bounded` is kept in a run. -/
theorem ScriptMoves.bounded (h : ScriptMoves interfaces p groups) (hp : p.Bounded limits) :
    (stateAfter p groups).Bounded limits := by
  induction h with
  | nil => exact hp
  | cons hmove _ ih =>
      obtain ⟨taken, hentry⟩ := hmove.exists_accounts
      exact ih (hentry.bounded hp)

end Moves

/-! ## Runs -/

theorem Streams.bounded_start (slots : Slots) (limits chunks : Nat → Option Nat) :
    (Streams.start slots fun t => Sink.empty (limits t) (chunks t)).Bounded limits :=
  ⟨fun _ => rfl, fun _ _ _ => Nat.zero_le _⟩

/-- **Every byte of a run is accounted for**, whatever the limits and the chunks of the streams are, and also if
    steps fail or panic. There is an account of the record, in which every step has appended to its stream, and to
    no other, a leading part of what it wanted to write, and has answered as is true of that; and a stream holds
    its share of the account and nothing else. Steps that are no writes leave all bytes as they are, asking for a
    level among them as soon as levels have been set. After every step, and past the scopes that a panic leaves
    then, no stream holds more than its limit. -/
theorem Script.run_accounts (machine : Machine) (script : Script) (slots : Slots)
    (limits chunks : Nat → Option Nat) :
    let start := Streams.start slots fun t => Sink.empty (limits t) (chunks t)
    let run := script.run machine start
    let record := run.trace.grouped []
    (∃ account, WriteLedger machine.interfaces start record account ∧
      ∀ t, (run.streams.table t).sink.bytes = share t record account) ∧
    (∀ earlier g later, record = earlier ++ g :: later →
      g.value.note.WritesNothing ((slots.number? .detail).isSome = true ∨ DetailEntered earlier) →
      ∀ t, (g.value.state.table t).sink.bytes = ((stateAfter start earlier).table t).sink.bytes) ∧
    (∀ earlier later, record = earlier ++ later → ∀ q, (stateAfter start earlier).Unwound q →
      q.sinks = (stateAfter start earlier).sinks ∧
      ∀ t most, limits t = some most → (q.table t).sink.bytes.length ≤ most) ∧
    (stateAfter start record).Unwound run.streams := by
  intro start run record
  have hrun : run.MovesFrom machine.interfaces start := moves_run machine script start
  have hmoves : ScriptMoves machine.interfaces start record := hrun.moves
  refine ⟨?_, ?_, ?_, hrun.unwound⟩
  · obtain ⟨account, hledger⟩ := hmoves.exists_ledger
    refine ⟨account, hledger, fun t => ?_⟩
    have hsink : (run.streams.table t).sink = ((stateAfter start record).table t).sink :=
      congrFun hrun.unwound.sinks t
    rw [hsink, hledger.bytes_eq]
    rfl
  · intro earlier g later hrecord hnothing t
    rw [hrecord] at hmoves
    obtain ⟨hearlier, hmove⟩ := hmoves.split
    -- levels have been set if and only if they have a slot by now
    have hknown := hearlier.isSome_number_iff .detail
    have hnothing' : g.value.note.WritesNothing
        (((stateAfter start earlier).slots.number? .detail).isSome = true) := by
      rw [hknown]
      exact hnothing
    obtain ⟨taken, haccounts⟩ := hmove.exists_accounts
    exact haccounts.bytes_of_wanted (hnothing'.wanted _) t
  · intro earlier later hrecord q hunwound
    rw [hrecord] at hmoves
    have hbounded := (hmoves.of_append.bounded (Streams.bounded_start slots limits chunks)).of_sinks
      hunwound.sinks
    exact ⟨hunwound.sinks, fun t most hmost => hbounded.within t most ((hbounded.limit t).trans hmost)⟩

/-- Offers to a stream that takes three bytes in a call and five in all, and to one that takes nothing; and asking
    for a level after a detail scope on another stream, which was left by a panic. -/
theorem Script.run_accounts_partial :
    let limits := fun t => if t = 0 then some 5 else none
    let chunks := fun t => if t = 0 then some 3 else some 0
    let start := Streams.start .fresh fun t => Sink.empty (limits t) (chunks t)
    let offers := act 0 (.offerPieces [[1, 2], [3, 4]]) (act 0 (.offer [5, 6, 7]) (act 0 (.offer [8])
      (act 1 (.offer [9]) (panic "lost".toList done))))
    let script := attempt 0 (scope .detail 1 3 offers done) (act 0 .level done)
    let record := (script.run .loopbackOnly start).trace.grouped []
    (∃ account, WriteLedger .loopbackOnly start record account ∧ share 0 record account = [1, 2, 3, 5, 6] ∧
      share 1 record account = []) ∧
    ∃ earlier level, record = earlier ++ [level] ∧ level.value.note = .acted .level (.ok (.number 0)) ∧
      ∀ t, (level.value.state.table t).sink.bytes = ((stateAfter start earlier).table t).sink.bytes := by
  intro limits chunks start offers script record
  obtain ⟨⟨account, hledger, hbytes⟩, hnothing, -⟩ := run_accounts .loopbackOnly script .fresh limits chunks
  refine ⟨⟨account, hledger, (hbytes 0).symm.trans rfl, (hbytes 1).symm.trans rfl⟩, ?_⟩
  have hrecord : record = [_, _, _, _, _, _] ++ [⟨⟨.acted .level (.ok (.number 0)), _, _⟩, _⟩] := rfl
  exact ⟨_, _, hrecord, rfl,
    hnothing _ _ _ hrecord (.level (.inr ⟨_, List.mem_cons_self, rfl⟩) _)⟩

end NetKit
