import NetKit.Stream.Sink

/-!
# Truncation — writes to a sink that takes only so much

A `Sink` with a limit, which takes its bytes in chunks, is compared with one that was offered the same
bytes and took them all. It holds the first bytes of what the other one holds (`Sink.limited`), and this
stays so whatever is written, past failures too. `Sink.writeAll` fails exactly if there is something to
write that goes beyond the limit; the chunk has no part in either, as long as a call can take anything.
The induction is on the data that is left, as the sink takes some of it in every call.

For any sink, chunk `0` included, `Sink.accepted` is what it takes of a `writeAll` and `Sink.refusal?` why
it takes no more (`Sink.writeAll_eq`). From this form one reads that writes in sequence are one write
(`Sink.writeAll_append`), so that `Sink.writePieces` and `Sink.writeRepeated` are `Sink.writeAll` of what
they come to.

## Contents
- `clip`, `overruns`, `reaches`: bytes and a limit.
- `Sink.limited`, `Sink.append`, `Sink.writeOutcome`: limited sinks, and how a write to them ends.
- `Sink.flush_limited`, `Sink.write_limited`, `Sink.writeAll_limited`: what the calls do.
- `Sink.accepted`, `Sink.refusal?`, `Sink.writeAll_eq`: what any sink takes of a write.
- `Sink.writeAll_append`, `Sink.writePieces_eq_writeAll`, `Sink.writeRepeated_eq_writeAll`: writes in
  sequence.
-/

namespace NetKit

/-! ## Bytes and a limit -/

/-- The first `limit` bytes, or all of them if there is no limit. -/
def clip (limit : Option Nat) (bytes : List UInt8) : List UInt8 :=
  match limit with
  | none => bytes
  | some most => bytes.take most

/-- Whether there are more bytes than `limit`. -/
def overruns (limit : Option Nat) (bytes : List UInt8) : Bool := limit.any (· < bytes.length)

/-- Whether there are as many bytes as `limit`, or more. -/
def reaches (limit : Option Nat) (bytes : List UInt8) : Bool := limit.any (· ≤ bytes.length)

section

variable {limit : Option Nat} {bytes more : List UInt8}

theorem clip_nil (limit : Option Nat) : clip limit [] = [] := by
  cases limit with
  | none => rfl
  | some most => exact List.take_nil

theorem clip_of_not_overruns (h : overruns limit bytes = false) : clip limit bytes = bytes := by
  cases limit with
  | none => rfl
  | some most => exact List.take_of_length_le (Nat.le_of_not_lt (of_decide_eq_false h))

/-- `clip` of bytes that reach the limit shows nothing of what follows. -/
theorem clip_append_of_reaches (h : reaches limit bytes = true) (more : List UInt8) :
    clip limit (bytes ++ more) = clip limit bytes := by
  cases limit with
  | none => cases h
  | some most => exact List.take_append_of_le_length (of_decide_eq_true h)

theorem reaches_of_overruns (h : overruns limit bytes = true) : reaches limit bytes = true := by
  cases limit with
  | none => cases h
  | some most => exact decide_eq_true (Nat.le_of_lt (of_decide_eq_true h))

theorem overruns_append (h : overruns limit bytes = true) (more : List UInt8) :
    overruns limit (bytes ++ more) = true := by
  cases limit with
  | none => cases h
  | some most =>
      have hlt : most < bytes.length := of_decide_eq_true h
      exact decide_eq_true (by rw [List.length_append]; omega)

/-- Bytes that reach a limit overrun it with one more. -/
theorem overruns_append_of_reaches (h : reaches limit bytes = true) (hmore : more ≠ []) :
    overruns limit (bytes ++ more) = true := by
  cases limit with
  | none => cases h
  | some most =>
      have hle : most ≤ bytes.length := of_decide_eq_true h
      have hpos := List.length_pos_iff.mpr hmore
      exact decide_eq_true (by rw [List.length_append]; omega)

theorem not_overruns_of_not_reaches (h : reaches limit bytes = false) :
    overruns limit bytes = false := by
  cases hover : overruns limit bytes with
  | false => rfl
  | true => rw [reaches_of_overruns hover] at h; cases h

end

/-! ## Limited sinks -/

namespace Sink

variable {limit chunk : Option Nat}

/-- A sink with a limit and a chunk that was offered all bytes of `full`. -/
def limited (limit chunk : Option Nat) (full : Sink) : Sink :=
  ⟨clip limit full.bytes, limit, chunk, full.flushes⟩

/-- The sink with `data` behind its bytes. -/
def append (s : Sink) (data : List UInt8) : Sink := { s with bytes := s.bytes ++ data }

/-- How `writeAll` of `data` ends after some bytes within a limit. -/
def writeOutcome (limit : Option Nat) (bytes data : List UInt8) : Except WriteError Unit :=
  if data ≠ [] ∧ overruns limit (bytes ++ data) = true then .error .closed else .ok ()

theorem append_append (s : Sink) (data more : List UInt8) :
    (s.append data).append more = s.append (data ++ more) := by
  unfold append
  rw [List.append_assoc]

theorem append_nil (s : Sink) : s.append [] = s := by
  unfold append
  rw [List.append_nil]

/-- `writeOutcome` of data in two parts. -/
theorem writeOutcome_append (limit : Option Nat) (bytes data more : List UInt8) :
    writeOutcome limit bytes (data ++ more) =
      match writeOutcome limit bytes data with
      | .error e => .error e
      | .ok () => writeOutcome limit (bytes ++ data) more := by
  unfold writeOutcome
  by_cases hfails : data ≠ [] ∧ overruns limit (bytes ++ data) = true
  · have hover := overruns_append hfails.2 more
    rw [List.append_assoc] at hover
    rw [if_pos hfails, if_pos ⟨List.append_ne_nil_of_left_ne_nil hfails.1 more, hover⟩]
  · rw [if_neg hfails, List.append_assoc]
    simp only
    -- if nothing is left, then both are the first part, which is within the limit or empty
    by_cases hmore : more = []
    · rw [hmore, List.append_nil, if_neg hfails, if_neg (fun h => h.1 rfl)]
    · have hboth : data ++ more ≠ [] := List.append_ne_nil_of_right_ne_nil data hmore
      simp only [ne_eq, hboth, hmore, not_false_eq_true, true_and]

theorem writeOutcome_of_not_overruns {bytes data : List UInt8}
    (h : overruns limit (bytes ++ data) = false) : writeOutcome limit bytes data = .ok () := by
  refine if_neg ?_
  rw [h]
  rintro ⟨-, hover⟩
  cases hover

theorem limited_append_of_reaches {full : Sink} (h : reaches limit full.bytes = true)
    (data : List UInt8) : (full.append data).limited limit chunk = full.limited limit chunk := by
  unfold limited append
  rw [clip_append_of_reaches h]

/-- A `limited` sink is full if the other one holds enough for its limit. -/
theorem isFull_limited (full : Sink) :
    (full.limited limit chunk).isFull = reaches limit full.bytes := by
  unfold isFull limited clip reaches
  cases limit with
  | none => rfl
  | some most =>
      simp only [Option.any_some, List.length_take]
      exact decide_eq_decide.mpr (by omega)

theorem flush_limited (limit chunk : Option Nat) (full : Sink) : (full.limited limit chunk).flush =
    (if reaches limit full.bytes then .error .closed else .ok (), full.flush.2.limited limit chunk) := by
  unfold flush
  rw [isFull_limited]
  rfl

theorem atMost_pos {bound : Option Nat} {n : Nat} (hbound : bound ≠ some 0) (hn : 0 < n) :
    0 < atMost bound n := by
  cases bound with
  | none => exact hn
  | some most =>
      have hmost : most ≠ 0 := fun h => hbound (congrArg some h)
      show 0 < min n most
      omega

/-- `write` to a sink that is not full takes some bytes, and none beyond the limit. -/
theorem write_limited (hchunk : chunk ≠ some 0) {full : Sink}
    (hfull : reaches limit full.bytes = false) {data : List UInt8} (hdata : data ≠ []) :
    ∃ n, n < data.length ∧ overruns limit (full.bytes ++ data.take (n + 1)) = false ∧
      (full.limited limit chunk).write data =
        (.ok (n + 1), (full.append (data.take (n + 1))).limited limit chunk) := by
  have hclip : clip limit full.bytes = full.bytes :=
    clip_of_not_overruns (not_overruns_of_not_reaches hfull)
  have hroom : limit.map (· - full.bytes.length) ≠ some 0 := by
    cases limit with
    | none => intro h; cases h
    | some most =>
        have hlt := of_decide_eq_false hfull
        intro h
        have hzero : most - full.bytes.length = 0 := Option.some.inj h
        omega
  have huptake : (full.limited limit chunk).uptake data.length =
      atMost (limit.map (· - full.bytes.length)) (atMost chunk data.length) := by
    unfold uptake limited
    simp only [hclip]
  have hpos : 0 < (full.limited limit chunk).uptake data.length := by
    rw [huptake]
    exact atMost_pos hroom (atMost_pos hchunk (List.length_pos_iff.mpr hdata))
  have hle := (full.limited limit chunk).uptake_le data.length
  obtain ⟨n, hn⟩ := Nat.exists_eq_succ_of_ne_zero (Nat.ne_of_gt hpos)
  have hwithin : overruns limit (full.bytes ++ data.take (n + 1)) = false := by
    cases limit with
    | none => rfl
    | some most =>
        have hlt := of_decide_eq_false hfull
        have hmin : n + 1 ≤ most - full.bytes.length := by
          rw [← Nat.succ_eq_add_one, ← hn, huptake]
          exact Nat.min_le_right _ _
        refine decide_eq_false ?_
        rw [List.length_append, List.length_take]
        omega
  refine ⟨n, by omega, hwithin, ?_⟩
  unfold write
  rw [isFull_limited, hfull, Bool.false_and, if_neg Bool.false_ne_true, hn]
  unfold limited append
  simp only [clip_of_not_overruns hwithin, hclip]

theorem write_of_isFull {s : Sink} (hfull : s.isFull = true) {data : List UInt8} (hdata : data ≠ []) :
    s.write data = (.error .closed, s) := by
  unfold write
  rw [hfull, Bool.true_and, if_pos (by rw [Bool.not_eq_true', List.isEmpty_eq_false_iff]; exact hdata)]

/-- **`writeAll` truncates**: the sink holds what it should up to the limit, and the write fails exactly if
    there was something to write that goes beyond it. -/
theorem writeAll_limited (hchunk : chunk ≠ some 0) (full : Sink) (data : List UInt8) :
    (full.limited limit chunk).writeAll data =
      (writeOutcome limit full.bytes data, (full.append data).limited limit chunk) := by
  induction hlength : data.length using Nat.strongRecOn generalizing full data with
  | ind length ih =>
      by_cases hdata : data = []
      · rw [hdata, writeAll_nil, append_nil]
        rfl
      · rw [writeAll, if_neg hdata]
        cases hfull : reaches limit full.bytes with
        | true =>
            have hover := overruns_append_of_reaches hfull hdata
            rw [write_of_isFull ((isFull_limited full).trans hfull) hdata, writeOutcome,
              if_pos ⟨hdata, hover⟩, limited_append_of_reaches hfull]
        | false =>
            obtain ⟨n, hn, hwithin, hwrite⟩ := write_limited hchunk hfull hdata
            have hrest := ih (data.drop (n + 1)).length (by rw [List.length_drop]; omega)
              (full.append (data.take (n + 1))) (data.drop (n + 1)) rfl
            have hparts := writeOutcome_append limit full.bytes (data.take (n + 1))
              (data.drop (n + 1))
            rw [List.take_append_drop, writeOutcome_of_not_overruns hwithin] at hparts
            rw [hwrite]
            simp only
            rw [hrest, append_append, List.take_append_drop, hparts]
            rfl

/-! ## Any sink -/

/-- What the sink takes of `data` in `writeAll`. -/
def accepted (s : Sink) (data : List UInt8) : List UInt8 :=
  if s.chunk = some 0 then [] else clip (s.limit.map (· - s.bytes.length)) data

/-- Why `writeAll` of `data` fails, if it does. -/
def refusal? (s : Sink) (data : List UInt8) : Option WriteError :=
  if s.accepted data = data then none
  else if s.isFull = false ∧ s.chunk = some 0 then some .tookNothing
  else some .closed

theorem accepted_nil (s : Sink) : s.accepted [] = [] := by
  unfold accepted
  split
  · rfl
  · exact clip_nil _

theorem accepted_of_isFull {s : Sink} (hfull : s.isFull = true) (data : List UInt8) :
    s.accepted data = [] := by
  obtain ⟨bytes, limit, chunk, flushes⟩ := s
  unfold accepted
  cases limit with
  | none => cases hfull
  | some most =>
      have hle : most ≤ bytes.length := of_decide_eq_true hfull
      split
      · rfl
      · show data.take (most - bytes.length) = []
        rw [Nat.sub_eq_zero_of_le hle, List.take_zero]

/-- A sink that is not full is its own truncation. -/
theorem limited_self {s : Sink} (hfull : s.isFull = false) : s.limited s.limit s.chunk = s := by
  have hclip : clip s.limit s.bytes = s.bytes :=
    clip_of_not_overruns (not_overruns_of_not_reaches hfull)
  unfold limited
  rw [hclip]

/-- What a sink with room takes is what its truncation shows of the data. -/
theorem limited_append {s : Sink} (hfull : s.isFull = false) (hchunk : s.chunk ≠ some 0)
    (data : List UInt8) : (s.append data).limited s.limit s.chunk = s.append (s.accepted data) := by
  obtain ⟨bytes, limit, chunk, flushes⟩ := s
  unfold accepted limited append
  rw [if_neg hchunk]
  cases limit with
  | none => rfl
  | some most =>
      have hlt : ¬most ≤ bytes.length := of_decide_eq_false hfull
      have htake : bytes.take most = bytes := List.take_of_length_le (by omega)
      have hclip : clip (some most) (bytes ++ data) = bytes ++ data.take (most - bytes.length) :=
        (List.take_append ..).trans (congrArg (· ++ _) htake)
      simp only [hclip]
      rfl

/-- A sink with room takes all of the data unless they go beyond the limit. -/
theorem accepted_eq_iff {s : Sink} (hfull : s.isFull = false) (hchunk : s.chunk ≠ some 0)
    (data : List UInt8) : s.accepted data = data ↔ overruns s.limit (s.bytes ++ data) = false := by
  obtain ⟨bytes, limit, chunk, flushes⟩ := s
  unfold accepted
  rw [if_neg hchunk]
  cases limit with
  | none => exact ⟨fun _ => rfl, fun _ => rfl⟩
  | some most =>
      have hlt : ¬most ≤ bytes.length := of_decide_eq_false hfull
      show data.take (most - bytes.length) = data ↔ decide (most < (bytes ++ data).length) = false
      rw [decide_eq_false_iff_not, List.length_append]
      constructor
      · intro h
        have hlength := congrArg List.length h
        rw [List.length_take] at hlength
        omega
      · intro h
        exact List.take_of_length_le (by omega)

/-- **`writeAll` to any sink** appends what is `accepted`, and fails if that is not all. -/
theorem writeAll_eq (s : Sink) (data : List UInt8) : s.writeAll data =
    ((s.refusal? data).elim (.ok ()) .error, s.append (s.accepted data)) := by
  by_cases hdata : data = []
  · rw [hdata, writeAll_nil, refusal?, accepted_nil, append_nil]
    rfl
  · cases hfull : s.isFull with
    | true =>
        have hwrite := write_of_isFull hfull hdata
        rw [writeAll, if_neg hdata, hwrite, refusal?, accepted_of_isFull hfull, hfull, append_nil,
          if_neg (Ne.symm hdata)]
        rfl
    | false =>
        by_cases hchunk : s.chunk = some 0
        · have hwrite : s.write data = (.ok 0, s) := by
            have hzero : s.uptake data.length = 0 := by
              unfold uptake
              rw [hchunk, show atMost (some 0) data.length = 0 from Nat.min_zero _]
              exact Nat.le_zero.mp (atMost_le _ 0)
            unfold write
            rw [hfull, Bool.false_and, if_neg Bool.false_ne_true, hzero]
            exact congrArg (Prod.mk _) s.append_nil
          have hnone : s.accepted data = [] := if_pos hchunk
          rw [writeAll, if_neg hdata, hwrite, refusal?, hnone, append_nil, if_neg (Ne.symm hdata),
            if_pos ⟨hfull, hchunk⟩]
          rfl
        · have hwrite : (s.limited s.limit s.chunk).writeAll data = _ := writeAll_limited hchunk s data
          rw [limited_self hfull, limited_append hfull hchunk] at hwrite
          rw [hwrite, writeOutcome, refusal?]
          cases hover : overruns s.limit (s.bytes ++ data) with
          | false =>
              rw [if_neg (fun h => Bool.false_ne_true h.2),
                if_pos ((accepted_eq_iff hfull hchunk data).mpr hover)]
              rfl
          | true =>
              have hpart : s.accepted data ≠ data := fun h => by
                rw [(accepted_eq_iff hfull hchunk data).mp h] at hover
                cases hover
              rw [if_pos ⟨hdata, rfl⟩, if_neg hpart, if_neg (fun h => hchunk h.2)]
              rfl

/-! ## One write after another -/

theorem accepted_of_chunk {s : Sink} (hchunk : s.chunk ≠ some 0) (data : List UInt8) :
    s.accepted data = clip (s.limit.map (· - s.bytes.length)) data :=
  if_neg hchunk

theorem length_accepted_le (s : Sink) (data : List UInt8) :
    (s.accepted data).length ≤ data.length := by
  unfold accepted clip
  split
  · exact Nat.zero_le _
  · split
    · exact Nat.le_refl _
    · exact List.length_take_le' ..

/-- A sink that does not take all of `data` takes nothing of what comes after them. -/
theorem accepted_append_of_ne {s : Sink} {data : List UInt8} (h : s.accepted data ≠ data)
    (more : List UInt8) : s.accepted (data ++ more) = s.accepted data := by
  obtain ⟨bytes, limit, chunk, flushes⟩ := s
  by_cases hchunk : chunk = some 0
  · rw [accepted, accepted, if_pos hchunk, if_pos hchunk]
  · rw [accepted_of_chunk hchunk] at h
    rw [accepted_of_chunk hchunk, accepted_of_chunk hchunk]
    cases limit with
    | none => exact absurd rfl h
    | some most =>
        have hlt : most - bytes.length < data.length :=
          Nat.lt_of_not_le fun hle => h (List.take_of_length_le hle)
        exact List.take_append_of_le_length (Nat.le_of_lt hlt)

/-- A sink that takes all of `data` has the rest of its room for what comes after them. -/
theorem accepted_append_of_eq {s : Sink} (hchunk : s.chunk ≠ some 0) {data : List UInt8}
    (h : s.accepted data = data) (more : List UInt8) :
    s.accepted (data ++ more) = data ++ (s.append data).accepted more := by
  have hchunk' : (s.append data).chunk ≠ some 0 := hchunk
  rw [accepted_of_chunk hchunk] at h
  rw [accepted_of_chunk hchunk, accepted_of_chunk hchunk']
  obtain ⟨bytes, limit, chunk, flushes⟩ := s
  cases limit with
  | none => rfl
  | some most =>
      have hle : data.length ≤ most - bytes.length := by
        have hlength : (data.take (most - bytes.length)).length = data.length :=
          congrArg List.length h
        rw [List.length_take] at hlength
        omega
      show (data ++ more).take (most - bytes.length) =
        data ++ more.take (most - (bytes ++ data).length)
      rw [List.take_append, List.take_of_length_le hle, List.length_append, Nat.sub_sub]

/-- **Two `writeAll`s one after the other are one**; the second one is left out if the first one fails. -/
theorem writeAll_append (s : Sink) (data more : List UInt8) : s.writeAll (data ++ more) =
    match s.writeAll data with
    | (.error e, after) => (.error e, after)
    | (.ok (), after) => after.writeAll more := by
  rw [writeAll_eq s data]
  by_cases hall : s.accepted data = data
  · have hrefusal : s.refusal? data = none := if_pos hall
    rw [hrefusal, hall]
    simp only [Option.elim_none]
    by_cases hchunk : s.chunk = some 0
    · -- all that such a sink takes in full is nothing
      have hnil : data = [] := hall.symm.trans (if_pos hchunk)
      rw [hnil, List.nil_append, append_nil]
    · have haccepted := accepted_append_of_eq hchunk hall more
      have hchunk' : (s.append data).chunk ≠ some 0 := hchunk
      rw [writeAll_eq, writeAll_eq, haccepted, append_append]
      unfold refusal?
      rw [haccepted]
      simp only [List.append_cancel_left_eq, hchunk, hchunk', and_false, if_false]
  · have haccepted := accepted_append_of_ne hall more
    have hpart : s.accepted data ≠ data ++ more := by
      intro heq
      have hle := s.length_accepted_le data
      rw [heq, List.length_append] at hle
      have hmore : more = [] := List.length_eq_zero_iff.mp (by omega)
      rw [hmore, List.append_nil] at heq
      exact hall heq
    rw [writeAll_eq, haccepted]
    unfold refusal?
    rw [haccepted, if_neg hpart, if_neg hall]
    split <;> rfl

/-- **`writePieces` is one `writeAll`**: it does not show in which pieces something is written. -/
theorem writePieces_eq_writeAll (s : Sink) (pieces : List (List UInt8)) :
    writePieces pieces s = s.writeAll pieces.flatten := by
  induction pieces generalizing s with
  | nil => exact (writeAll_nil s).symm
  | cons piece pieces ih =>
      rw [writePieces, List.flatten_cons, writeAll_append]
      rcases s.writeAll piece with ⟨_ | _, after⟩
      · rfl
      · exact ih after

/-- `writeRepeated` is one `writeAll`. -/
theorem writeRepeated_eq_writeAll (data : List UInt8) (times : Nat) (s : Sink) :
    writeRepeated data times s = s.writeAll (List.replicate times data).flatten := by
  induction times generalizing s with
  | zero => exact (writeAll_nil s).symm
  | succ times ih =>
      rw [writeRepeated, List.replicate_succ, List.flatten_cons, writeAll_append]
      rcases s.writeAll data with ⟨_ | _, after⟩
      · rfl
      · exact ih after

end Sink

end NetKit
