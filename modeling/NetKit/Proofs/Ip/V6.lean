import NetKit.Ip.V6
import NetKit.Proofs.Ip.V4

/-!
# IPv6 literals — the printed text is read back, and what an accepted text looks like

`Ipv6.text` has three shapes: all eight groups, groups around a compressed run of zeros, and the mixed
notation of an IPv4-mapped address. `Ipv6.readAllGroups?` has two runs of groups with `::` between them,
each of which may end in an IPv4 address. The two meet in `readGroups_groupsText`: a run that is
printed is read to its end, and the reader stops exactly where the printer has put `::` or nothing.

For the converse, `Follows` bounds every run of groups by what it takes: each group costs at most five
characters with its separator, and an IPv4 address, which stands for two groups, six more.

## Contents
- `followingText`, `EndsRun`: groups with a colon before each, and where a run of them stops.
- `readGroups_groupsText`, `ofText?_text`: the round trip.
- `Follows`, `follows_readGroups`, `literal_of_ofText?`: the shape of accepted texts.
-/

namespace NetKit

/-- `Ipv4.read?` fails on digits with neither a digit nor a point behind them. -/
theorem Ipv4.read?_digits_eq_none {ds rest : Text} (hds : ∀ c ∈ ds, isDigit 16 c = true)
    (hdigit : startsWithDigit 10 rest = false) (hdot : rest.head? ≠ some '.') :
    Ipv4.read? (ds ++ rest) = none := by
  cases hread : Ipv4.readOctet? (ds ++ rest) with
  | none => unfold Ipv4.read?; rw [hread]; rfl
  | some p =>
      obtain ⟨a, tail⟩ := p
      have hsplit := Ipv4.eq_toDigits_of_readOctet? hread
      cases hnext : Ipv4.readDotOctet? tail with
      | none =>
          unfold Ipv4.read?
          rw [hread]
          simp only [Option.bind_eq_bind, Option.bind_some, hnext, Option.bind_none]
      | some q =>
          -- the point after the octet lies in `ds`, at the head of `rest`, or behind a digit there
          obtain rfl := Ipv4.eq_toDigits_of_readDotOctet? hnext
          exfalso
          rcases List.append_eq_append_iff.mp hsplit with ⟨more, hmore, hrest⟩ | ⟨more, hmore, hrest⟩
          · cases more with
            | nil => rw [hrest] at hdot; exact hdot rfl
            | cons c more =>
                have hmem : c ∈ Nat.toDigits 10 a.toNat := by simp [hmore]
                have hc : isDigit 10 c = true :=
                  isDigit_of_mem_toDigits (by decide) (by decide) hmem
                rw [hrest, List.cons_append, startsWithDigit_cons, hc] at hdigit
                cases hdigit
          · cases more with
            | nil => rw [← show '.' :: _ = rest from hrest] at hdot; exact hdot rfl
            | cons c more =>
                have hc : isDigit 16 c = true := hds c (by simp [hmore])
                rw [← (List.cons.inj hrest).1] at hc
                exact absurd hc (by decide)

namespace Ipv6

/-! ## Groups as they are written -/

theorem readGroup?_toDigits (g : UInt16) {rest : Text} (hrest : startsWithDigit 16 rest = false) :
    readGroup? (Nat.toDigits 16 g.toNat ++ rest) = some (g, rest) := by
  have hlength : (Nat.toDigits 16 g.toNat).length ≤ 4 :=
    length_toDigits_le (by decide) (by decide) g.toNat_lt
  have hempty : (Nat.toDigits 16 g.toNat).isEmpty = false := by
    rw [List.isEmpty_eq_false_iff]; exact Nat.toDigits_ne_nil
  unfold readGroup?
  rw [spanDigits_toDigits (by decide) (by decide) _ hrest]
  simp only [hempty, Bool.false_or, decide_eq_true_eq,
    digitsValue_toDigits (by decide : 1 < 16) (by decide)]
  rw [if_neg (Nat.not_lt.mpr hlength), UInt16.ofNat_toNat]

/-- `groupsText` with a colon before the first group too. -/
def followingText (gs : List UInt16) : Text := gs.flatMap fun g => ':' :: Nat.toDigits 16 g.toNat

theorem groupsText_cons (g : UInt16) (gs : List UInt16) :
    groupsText (g :: gs) = Nat.toDigits 16 g.toNat ++ followingText gs := by
  induction gs generalizing g with
  | nil => exact (List.append_nil _).symm
  | cons g' gs ih =>
      show Nat.toDigits 16 g.toNat ++ ':' :: groupsText (g' :: gs) = _
      rw [ih]; rfl

/-- Where a run of groups stops: at the end of the text, or before `::`. -/
def EndsRun (rest : Text) : Prop := rest = [] ∨ ∃ body, rest = ':' :: ':' :: body

theorem EndsRun.not_digit {rest : Text} (h : EndsRun rest) (radix : Nat) :
    startsWithDigit radix rest = false := by
  rcases h with rfl | ⟨body, rfl⟩
  · rfl
  · have hnone : digitValue? ':' = none := by decide
    rw [startsWithDigit_cons, isDigit, hnone]; rfl

theorem EndsRun.not_dot {rest : Text} (h : EndsRun rest) : rest.head? ≠ some '.' := by
  rcases h with rfl | ⟨body, rfl⟩ <;> simp

/-- No digit follows a run of groups, or what `EndsRun` ends it with. -/
theorem followingText_not_digit (gs : List UInt16) {rest : Text} (h : EndsRun rest) (radix : Nat) :
    startsWithDigit radix (followingText gs ++ rest) = false := by
  cases gs with
  | nil => exact h.not_digit radix
  | cons g gs =>
      have hnone : digitValue? ':' = none := by decide
      show isDigit radix ':' = false
      rw [isDigit, hnone]; rfl

theorem followingText_not_dot (gs : List UInt16) {rest : Text} (h : EndsRun rest) :
    (followingText gs ++ rest).head? ≠ some '.' := by
  cases gs with
  | nil => exact h.not_dot
  | cons g gs => simp [followingText]

/-! ## One step of a run -/

section

variable {room : Nat} {isFirst : Bool} {t body rest : Text}

theorem readGroups_ipv4 {v4 : Ipv4} (hstrip : stripSeparator? isFirst t = some body)
    (hv4 : (if 1 ≤ room then Ipv4.read? body else none) = some (v4, rest)) :
    readGroups (room + 1) isFirst t = ⟨v4.groups, true, rest⟩ := by
  rw [readGroups, hstrip]; simp only; rw [hv4]

theorem readGroups_group {g : UInt16} (hstrip : stripSeparator? isFirst t = some body)
    (hv4 : (if 1 ≤ room then Ipv4.read? body else none) = none)
    (hgroup : readGroup? body = some (g, rest)) :
    readGroups (room + 1) isFirst t =
      { readGroups room false rest with groups := g :: (readGroups room false rest).groups } := by
  rw [readGroups, hstrip]; simp only; rw [hv4, hgroup]

theorem readGroups_stop (hstrip : stripSeparator? isFirst t = some body)
    (hv4 : (if 1 ≤ room then Ipv4.read? body else none) = none)
    (hgroup : readGroup? body = none) : readGroups (room + 1) isFirst t = ⟨[], false, t⟩ := by
  rw [readGroups, hstrip]; simp only; rw [hv4, hgroup]

end

/-! ## The round trip -/

/-- `readGroups` takes nothing at an `EndsRun`. -/
theorem readGroups_end {rest : Text} (h : EndsRun rest) (room : Nat) (isFirst : Bool) :
    readGroups room isFirst rest = ⟨[], false, rest⟩ := by
  have hdigits : ∀ c ∈ ([] : Text), isDigit 16 c = true := by simp
  cases room with
  | zero => rfl
  | succ room =>
      rcases h with rfl | ⟨body, rfl⟩
      · -- the end of the text: a run that goes on misses its colon, a first run its digits
        cases isFirst with
        | true =>
            have hv4 : Ipv4.read? [] = none := Ipv4.read?_digits_eq_none hdigits rfl (by simp)
            exact readGroups_stop rfl (by rw [hv4, ite_self]) rfl
        | false => rfl
      · -- a run that goes on takes the first colon of `::` and fails at the second
        cases isFirst with
        | true =>
            have hv4 : Ipv4.read? (':' :: ':' :: body) = none :=
              Ipv4.read?_digits_eq_none hdigits rfl (by simp)
            exact readGroups_stop rfl (by rw [hv4, ite_self]) rfl
        | false =>
            have hv4 : Ipv4.read? (':' :: body) = none :=
              Ipv4.read?_digits_eq_none hdigits rfl (by simp)
            exact readGroups_stop rfl (by rw [hv4, ite_self]) rfl

/-- `readGroups` takes one written group and goes on behind it. -/
theorem readGroups_step {room : Nat} {isFirst : Bool} {t body : Text} {g : UInt16}
    (hstrip : stripSeparator? isFirst t = some (Nat.toDigits 16 g.toNat ++ body))
    (hdigit : startsWithDigit 16 body = false) (hdot : body.head? ≠ some '.') :
    readGroups (room + 1) isFirst t =
      { readGroups room false body with groups := g :: (readGroups room false body).groups } := by
  have hdecimal : startsWithDigit 10 body = false := by
    cases body with
    | nil => rfl
    | cons c body =>
        rw [startsWithDigit_cons] at hdigit ⊢
        cases hc : isDigit 10 c with
        | false => rfl
        | true => rw [isDigit_mono (by decide) hc] at hdigit; cases hdigit
  have hv4 : Ipv4.read? (Nat.toDigits 16 g.toNat ++ body) = none :=
    Ipv4.read?_digits_eq_none
      (fun c hc => isDigit_of_mem_toDigits (by decide) (by decide) hc) hdecimal hdot
  exact readGroups_group hstrip (by rw [hv4, ite_self]) (readGroup?_toDigits g hdigit)

theorem readGroups_followingText {gs : List UInt16} {room : Nat} {rest : Text}
    (hroom : gs.length ≤ room) (hrest : EndsRun rest) :
    readGroups room false (followingText gs ++ rest) = ⟨gs, false, rest⟩ := by
  induction gs generalizing room with
  | nil => exact readGroups_end hrest room false
  | cons g gs ih =>
      cases room with
      | zero => exact absurd hroom (by simp)
      | succ room =>
          have hstrip : stripSeparator? false (followingText (g :: gs) ++ rest) =
              some (Nat.toDigits 16 g.toNat ++ (followingText gs ++ rest)) := by
            show some ((Nat.toDigits 16 g.toNat ++ followingText gs) ++ rest) = _
            rw [List.append_assoc]
          rw [readGroups_step hstrip (followingText_not_digit gs hrest 16)
            (followingText_not_dot gs hrest), ih (Nat.le_of_succ_le_succ hroom)]

/-- **`readGroups` takes a printed run of groups to its end.** -/
theorem readGroups_groupsText {gs : List UInt16} {room : Nat} {rest : Text}
    (hroom : gs.length ≤ room) (hrest : EndsRun rest) :
    readGroups room true (groupsText gs ++ rest) = ⟨gs, false, rest⟩ := by
  cases gs with
  | nil => exact readGroups_end hrest room true
  | cons g gs =>
      cases room with
      | zero => exact absurd hroom (by simp)
      | succ room =>
          have hstrip : stripSeparator? true (groupsText (g :: gs) ++ rest) =
              some (Nat.toDigits 16 g.toNat ++ (followingText gs ++ rest)) := by
            rw [groupsText_cons, List.append_assoc]; rfl
          rw [readGroups_step hstrip (followingText_not_digit gs hrest 16)
            (followingText_not_dot gs hrest),
            readGroups_followingText (Nat.le_of_succ_le_succ hroom) hrest]

/-- What `readAllGroups?` makes of two printed runs around `::`, if they leave room for a group. -/
theorem readAllGroups?_compressed {head tail : List UInt16} (hroom : head.length + tail.length < 8) :
    readAllGroups? (groupsText head ++ ':' :: ':' :: groupsText tail) =
      some (head ++ List.replicate (8 - head.length - tail.length) 0 ++ tail, []) := by
  have hends : EndsRun (':' :: ':' :: groupsText tail) := Or.inr ⟨_, rfl⟩
  have hhead := readGroups_groupsText (by omega : head.length ≤ 8) hends
  have htail : readGroups (8 - (head.length + 1)) true (groupsText tail) = ⟨tail, false, []⟩ := by
    have h := readGroups_groupsText (by omega : tail.length ≤ 8 - (head.length + 1))
      (Or.inl rfl : EndsRun [])
    rwa [List.append_nil] at h
  unfold readAllGroups?
  simp only [hhead, htail]
  rw [if_neg (by omega), if_neg (by decide)]

theorem ofText?_eq_of_groups {t : Text} {ip : Ipv6} (h : readAllGroups? t = some (ip.groups, [])) :
    ofText? t = some ip := by
  unfold ofText?
  rw [h]
  simp only [ip.length_groups, dite_true]

/-- `longestZeroRun` points at zeros. -/
theorem longestZeroRun_spec {gs : List UInt16} {start length : Nat}
    (h : longestZeroRun gs = (start, length)) :
    ∃ head tail, gs = head ++ List.replicate length 0 ++ tail ∧ head.length = start := by
  induction gs generalizing start length with
  | nil =>
      cases h
      exact ⟨[], [], rfl, rfl⟩
  | cons g gs ih =>
      cases hrun : longestZeroRun gs with
      | mk start' length' =>
          unfold longestZeroRun at h
          rw [hrun] at h
          simp only at h
          split at h
          · -- the run at the front is at least as long as the best one behind it
            cases h
            have hzeros : (g :: gs).takeWhile (· = 0) =
                List.replicate ((g :: gs).takeWhile (· = 0)).length 0 := by
              apply List.eq_replicate_of_mem
              intro x hx
              exact of_decide_eq_true (List.all_eq_true.mp List.all_takeWhile x hx)
            refine ⟨[], (g :: gs).dropWhile (· = 0), ?_, rfl⟩
            rw [← hzeros, List.nil_append, List.takeWhile_append_dropWhile]
          · cases h
            obtain ⟨head, tail, rfl, rfl⟩ := ih hrun
            exact ⟨g :: head, tail, rfl, rfl⟩

/-- `readAllGroups?` inverts `compressedText`. -/
theorem readAllGroups?_compressedText (ip : Ipv6) :
    readAllGroups? (compressedText ip.groups) = some (ip.groups, []) := by
  have height := ip.length_groups
  cases hrun : longestZeroRun ip.groups with
  | mk start length =>
      obtain ⟨head, tail, hgroups, hstart⟩ := longestZeroRun_spec hrun
      unfold compressedText
      rw [hrun]
      simp only
      split
      · next hlong =>
          have hsum : head.length + length + tail.length = 8 := by
            rw [← height, hgroups]; simp [Nat.add_assoc]
          have htake : ip.groups.take start = head := by
            rw [hgroups, List.append_assoc, ← hstart, List.take_left]
          have hdrop : ip.groups.drop (start + length) = tail := by
            have hskip : (head ++ List.replicate length 0).length = start + length := by simp [hstart]
            rw [hgroups, ← hskip, List.drop_left]
          rw [htake, hdrop, readAllGroups?_compressed (by omega),
            show 8 - head.length - tail.length = length by omega, ← hgroups]
      · have h := readGroups_groupsText (Nat.le_of_eq height) (Or.inl rfl : EndsRun [])
        rw [List.append_nil] at h
        unfold readAllGroups?
        simp only [h, height, if_true]

/-! ### The mixed notation -/

/-- `Ipv4.groups` inverts `Ipv4.ofGroups`. -/
theorem groups_ofGroups (g h : UInt16) : (Ipv4.ofGroups g h).groups = [g, h] := by
  have hgroup : ∀ x : UInt16, UInt16.ofNat ((UInt8.ofNat (x.toNat / 256)).toNat * 256 +
      (UInt8.ofNat x.toNat).toNat) = x := by
    intro x
    have hx := x.toNat_lt
    apply UInt16.toNat_inj.mp
    simp only [UInt16.toNat_ofNat', UInt8.toNat_ofNat']
    omega
  unfold Ipv4.groups Ipv4.ofGroups
  simp only [hgroup]

/-- An address with `embedded?` starts with `mappedHead`. -/
theorem groups_of_embedded? {ip : Ipv6} {v4 : Ipv4} (h : ip.embedded? = some v4) :
    ip.groups = mappedHead ++ v4.groups := by
  unfold embedded? at h
  split at h
  · next hhead =>
      split at h
      · next g g' htail =>
          cases h
          rw [groups_ofGroups, ← hhead, ← htail, List.take_append_drop]
      · cases h
  · cases h

theorem readAllGroups?_mixed (v4 : Ipv4) :
    readAllGroups? ("::ffff:".toList ++ v4.text) = some (mappedHead ++ v4.groups, []) := by
  -- nothing, `::`, then the group `ffff` and the IPv4 address as a run of three groups
  have hends : EndsRun (':' :: ':' :: ("ffff:".toList ++ v4.text)) := Or.inr ⟨_, rfl⟩
  have hhead : readGroups 8 true (':' :: ':' :: ("ffff:".toList ++ v4.text)) = ⟨[], false, _⟩ :=
    readGroups_end hends 8 true
  have hv4 : Ipv4.read? v4.text = some (v4, []) := by
    have h : Ipv4.read? (v4.text ++ []) = some (v4, []) := v4.read?_text rfl
    rwa [List.append_nil] at h
  have hlast : readGroups 6 false (':' :: v4.text) = ⟨v4.groups, true, []⟩ :=
    readGroups_ipv4 rfl (by rw [if_pos (by decide), hv4])
  have htail : readGroups 7 true ("ffff:".toList ++ v4.text) =
      ⟨0xffff :: v4.groups, true, []⟩ := by
    have hstrip : stripSeparator? true ("ffff:".toList ++ v4.text) =
        some (Nat.toDigits 16 (0xffff : UInt16).toNat ++ ':' :: v4.text) := rfl
    rw [readGroups_step hstrip rfl (by simp), hlast]
  show readAllGroups? (':' :: ':' :: ("ffff:".toList ++ v4.text)) = _
  unfold readAllGroups?
  simp only [hhead]
  rw [if_neg (by decide), if_neg (by decide), show 8 - (([] : List UInt16).length + 1) = 7 from rfl,
    htail]
  rfl

/-- **`ofText?` inverts `text`.** -/
theorem ofText?_text (ip : Ipv6) : ofText? ip.text = some ip := by
  apply ofText?_eq_of_groups
  unfold text
  cases hembedded : ip.embedded? with
  | some v4 => rw [groups_of_embedded? hembedded]; exact readAllGroups?_mixed v4
  | none => exact readAllGroups?_compressedText ip

/-! ## What is accepted -/

/-- `readGroup?` takes four hexadecimal digits at most. -/
theorem taken_of_readGroup? {t rest : Text} {g : UInt16} (h : readGroup? t = some (g, rest)) :
    ∃ ds, t = ds ++ rest ∧ (∀ c ∈ ds, isDigit 16 c = true) ∧ ds.length ≤ 4 := by
  unfold readGroup? at h
  cases hspan : spanDigits 16 t with
  | mk ds tail =>
      obtain ⟨ht, hds, -⟩ := spanDigits_eq_iff.mp hspan
      rw [hspan] at h
      simp only at h
      split at h
      · cases h
      · next hok =>
          cases h
          refine ⟨ds, ht, hds, ?_⟩
          simp only [Bool.or_eq_true, decide_eq_true_eq] at hok
          omega

/-- What `readGroups` has taken of a text, each group behind a colon: the characters, one colon for each
    group but the second of an IPv4 address, and a bound on the length. -/
structure Follows (t : Text) (room : Nat) (run : GroupRun) (taken : Text) : Prop where
  split : t = taken ++ run.rest
  chars : ∀ c ∈ taken, isLiteralChar c = true
  fits : run.groups.length ≤ room
  starts : run.groups ≠ [] → taken ≠ []
  colons : taken.count ':' + run.endsInIpv4.toNat = run.groups.length
  short : taken.length ≤ 5 * run.groups.length + 6 * run.endsInIpv4.toNat

theorem follows_nothing (t : Text) (room : Nat) : Follows t room ⟨[], false, t⟩ [] where
  split := rfl
  chars := by simp
  fits := Nat.zero_le room
  starts := fun h => absurd rfl h
  colons := rfl
  short := Nat.zero_le _

/-- An IPv4 address behind a colon is a run of two groups. -/
theorem follows_ipv4 {body rest : Text} {v4 : Ipv4} (hread : Ipv4.read? body = some (v4, rest))
    {room : Nat} (hroom : 1 ≤ room) :
    ∃ taken, Follows (':' :: body) (room + 1) ⟨v4.groups, true, rest⟩ (':' :: taken) := by
  obtain rfl := Ipv4.eq_text_of_read? hread
  have hlength := v4.length_text_le
  have hcolon : ':' ∉ v4.text := by
    intro hmem
    rcases Ipv4.char_of_mem_text hmem with hdigit | hdot
    · exact absurd hdigit (by decide)
    · exact absurd hdot (by decide)
  refine ⟨v4.text, rfl, ?_, Nat.succ_le_succ hroom, by simp, ?_, ?_⟩
  · intro c hc
    rcases List.mem_cons.mp hc with rfl | hc
    · decide
    · rcases Ipv4.char_of_mem_text hc with hdigit | rfl
      · exact isLiteralChar_of_isDigit (by decide) hdigit
      · decide
  · rw [List.count_cons_self, List.count_eq_zero_of_not_mem hcolon]; rfl
  · show v4.text.length + 1 ≤ 5 * 2 + 6 * 1
    omega

/-- `Follows` for a group in front of a run. -/
theorem follows_group {body rest taken : Text} {g : UInt16} {room : Nat} {run : GroupRun}
    (hread : readGroup? body = some (g, rest)) (hrun : Follows rest room run taken) :
    ∃ taken', Follows (':' :: body) (room + 1) { run with groups := g :: run.groups }
      (':' :: taken') := by
  obtain ⟨ds, rfl, hds, hlength⟩ := taken_of_readGroup? hread
  have hcolon : ':' ∉ ds := not_mem_of_digits (by decide) hds (by decide)
  refine ⟨ds ++ taken, ?_, ?_, Nat.succ_le_succ hrun.fits, by simp, ?_, ?_⟩
  · rw [List.cons_append, List.append_assoc, ← hrun.split]
  · intro c hc
    rcases List.mem_cons.mp hc with rfl | hc
    · decide
    · rcases List.mem_append.mp hc with hc | hc
      · exact isLiteralChar_of_isDigit (by decide) (hds c hc)
      · exact hrun.chars c hc
  · have hcolons := hrun.colons
    rw [List.count_cons_self, List.count_append, List.count_eq_zero_of_not_mem hcolon,
      List.length_cons]
    show 0 + taken.count ':' + 1 + run.endsInIpv4.toNat = run.groups.length + 1
    omega
  · have hshort := hrun.short
    rw [List.length_cons, List.length_append, List.length_cons]
    show ds.length + taken.length + 1 ≤ 5 * (run.groups.length + 1) + 6 * run.endsInIpv4.toNat
    omega

theorem eq_cons_of_stripSeparator? {t body : Text} (h : stripSeparator? false t = some body) :
    t = ':' :: body := by
  unfold stripSeparator? at h
  split at h
  · next hfirst => cases hfirst
  · split at h
    · cases h; rfl
    · cases h

/-- **`readGroups` takes what its groups account for.** -/
theorem follows_readGroups (room : Nat) (t : Text) :
    ∃ taken, Follows t room (readGroups room false t) taken := by
  -- the reader recurses on the room that is left for groups
  induction room generalizing t with
  | zero => exact ⟨[], follows_nothing t 0⟩
  | succ room ih =>
      cases hstrip : stripSeparator? false t with
      | none =>
          have hnothing : readGroups (room + 1) false t = ⟨[], false, t⟩ := by
            rw [readGroups, hstrip]
          exact ⟨[], hnothing ▸ follows_nothing t _⟩
      | some body =>
          obtain rfl : t = ':' :: body := eq_cons_of_stripSeparator? hstrip
          cases hv4 : if 1 ≤ room then Ipv4.read? body else none with
          | some p =>
              obtain ⟨v4, rest⟩ := p
              rw [readGroups_ipv4 hstrip hv4]
              split at hv4
              · next hroom =>
                  obtain ⟨taken, htaken⟩ := follows_ipv4 hv4 hroom
                  exact ⟨':' :: taken, htaken⟩
              · cases hv4
          | none =>
              cases hgroup : readGroup? body with
              | none =>
                  rw [readGroups_stop hstrip hv4 hgroup]
                  exact ⟨[], follows_nothing _ _⟩
              | some p =>
                  obtain ⟨g, rest⟩ := p
                  rw [readGroups_group hstrip hv4 hgroup]
                  obtain ⟨taken, hrun⟩ := ih rest
                  obtain ⟨taken', htaken⟩ := follows_group hgroup hrun
                  exact ⟨':' :: taken', htaken⟩

/-- A first run takes nothing, or what the same run takes behind a colon. -/
theorem readGroups_first (room : Nat) (t : Text) :
    readGroups room true t = ⟨[], false, t⟩ ∨
      (readGroups room true t = readGroups room false (':' :: t) ∧
        (readGroups room true t).groups ≠ []) := by
  cases room with
  | zero => exact Or.inl rfl
  | succ room =>
      have hfirst : stripSeparator? true t = some t := rfl
      have hlater : stripSeparator? false (':' :: t) = some t := rfl
      cases hv4 : if 1 ≤ room then Ipv4.read? t else none with
      | some p =>
          rw [readGroups_ipv4 hfirst hv4, readGroups_ipv4 hlater hv4]
          exact Or.inr ⟨rfl, by simp [Ipv4.groups]⟩
      | none =>
          cases hgroup : readGroup? t with
          | none => exact Or.inl (readGroups_stop hfirst hv4 hgroup)
          | some p =>
              rw [readGroups_group hfirst hv4 hgroup, readGroups_group hlater hv4 hgroup]
              exact Or.inr ⟨rfl, by simp⟩

/-- What a first run has taken, with no colon before its first group. -/
theorem taken_of_first (room : Nat) (t : Text) :
    ∃ taken, t = taken ++ (readGroups room true t).rest ∧ (∀ c ∈ taken, isLiteralChar c = true) ∧
      (readGroups room true t).groups.length ≤ room ∧
      (readGroups room true t).groups.length ≤
        taken.count ':' + 1 + (readGroups room true t).endsInIpv4.toNat ∧
      taken.length ≤ 5 * (readGroups room true t).groups.length - 1 +
        6 * (readGroups room true t).endsInIpv4.toNat := by
  rcases readGroups_first room t with hnothing | ⟨hsame, hsome⟩
  · rw [hnothing]
    exact ⟨[], rfl, by simp, Nat.zero_le room, Nat.zero_le _, Nat.zero_le _⟩
  · -- put a colon before the text, and take it away from what was counted
    obtain ⟨taken, h⟩ := follows_readGroups room (':' :: t)
    rw [← hsame] at h
    have hpos : 0 < (readGroups room true t).groups.length := List.length_pos_iff.mpr hsome
    have hcolons := h.colons
    have hshort := h.short
    cases taken with
    | nil => exact absurd rfl (h.starts hsome)
    | cons c taken =>
        obtain ⟨rfl, htail⟩ := List.cons.inj h.split
        rw [List.count_cons_self] at hcolons
        rw [List.length_cons] at hshort
        refine ⟨taken, htail, fun d hd => h.chars d (List.mem_cons_of_mem _ hd), h.fits, ?_, ?_⟩
        · omega
        · omega

/-- **`ofText?` accepts forty-five characters at most**, all of them `isLiteralChar`, with two colons or
    more. -/
theorem literal_of_ofText? {t : Text} {ip : Ipv6} (h : ofText? t = some ip) :
    (∀ c ∈ t, isLiteralChar c = true) ∧ t.length ≤ 45 ∧ 2 ≤ t.count ':' := by
  obtain ⟨head, hsplit, hchars, hfits, hcolons, hshort⟩ := taken_of_first 8 t
  cases hall : readAllGroups? t with
  | none => unfold ofText? at h; rw [hall] at h; cases h
  | some p =>
      obtain ⟨groups, rest⟩ := p
      obtain rfl : rest = [] := by
        unfold ofText? at h
        rw [hall] at h
        cases rest with
        | nil => rfl
        | cons c rest => cases h
      unfold readAllGroups? at hall
      simp only at hall
      split at hall
      · next hfull =>
          -- eight groups without `::`
          rw [(Prod.mk.inj (Option.some.inj hall)).2, List.append_nil] at hsplit
          subst hsplit
          have hipv4 := Bool.toNat_le (readGroups 8 true t).endsInIpv4
          refine ⟨hchars, ?_, ?_⟩
          · omega
          · omega
      · next hfull =>
          split at hall
          · cases hall
          · next hno =>
              split at hall
              · next body hrest =>
                  -- a run, `::`, and another run
                  obtain ⟨tail, hsplit', hchars', hfits', -, hshort'⟩ :=
                    taken_of_first (8 - ((readGroups 8 true t).groups.length + 1)) body
                  rw [(Prod.mk.inj (Option.some.inj hall)).2, List.append_nil] at hsplit'
                  rw [hrest, hsplit'] at hsplit
                  have hipv4 := Bool.toNat_le
                    (readGroups (8 - ((readGroups 8 true t).groups.length + 1)) true body).endsInIpv4
                  rw [Bool.eq_false_iff.mpr hno, Bool.toNat_false] at hshort
                  rw [hsplit]
                  refine ⟨?_, ?_, ?_⟩
                  · intro c hc
                    simp only [List.mem_append, List.mem_cons] at hc
                    rcases hc with hc | rfl | rfl | hc
                    · exact hchars c hc
                    · decide
                    · decide
                    · exact hchars' c hc
                  · simp only [List.length_append, List.length_cons]
                    omega
                  · simp only [List.count_append, List.count_cons_self]
                    omega
              · cases hall

end Ipv6

end NetKit
