/-!
# Text — characters, their UTF-8 bytes, and cutting at a mark

A `Text` is the list of its characters. `Text.byteLength`, on which limits are stated, counts UTF-8
bytes, and `Text.utf8` is what an output stream receives. The parsers take a `Text` apart with
`Text.cutFirst?` and `Text.cutLast?`.

## Contents
- **Bytes.** `Text.utf8`, `Text.byteLength`, and `Text.length_utf8`, which ties the two together.
- **Cutting.** `Text.cutFirst?` and `Text.cutLast?`, each pinned down by an equivalence: the cut is
  the one decomposition `before ++ mark :: after` whose `before` (respectively `after`) is free of
  the mark.
-/

namespace NetKit

/-- Unicode scalar values in reading order. -/
abbrev Text := List Char

namespace Text

-- Sums start from the core library's zero, also where a theory of sums is imported.
attribute [local instance (high)] Zero.ofOfNat0

/-! ## Bytes -/

/-- The UTF-8 encoding of `t`. -/
def utf8 (t : Text) : List UInt8 := t.flatMap String.utf8EncodeChar

/-- The length of `t.utf8`, by `Char.utf8Size` alone. -/
def byteLength (t : Text) : Nat := (t.map Char.utf8Size).sum

@[simp] theorem utf8_nil : utf8 [] = [] := rfl

@[simp] theorem utf8_cons (c : Char) (t : Text) :
    utf8 (c :: t) = String.utf8EncodeChar c ++ utf8 t := rfl

@[simp] theorem utf8_append (t u : Text) : utf8 (t ++ u) = utf8 t ++ utf8 u := by
  simp [utf8]

theorem utf8_flatten (texts : List Text) : utf8 texts.flatten = (texts.map utf8).flatten := by
  induction texts with
  | nil => rfl
  | cons t texts ih => rw [List.flatten_cons, utf8_append, ih, List.map_cons, List.flatten_cons]

/-- `byteLength` is the length of `utf8`. -/
theorem length_utf8 (t : Text) : (utf8 t).length = byteLength t := by
  induction t with
  | nil => rfl
  | cons c t ih => simp [byteLength, ih]

/-! ## Cutting at a mark -/

/-- The text before and after the first `mark`, if there is one. -/
def cutFirst? (mark : Char) (t : Text) : Option (Text × Text) :=
  match t.dropWhile (· ≠ mark) with
  | [] => none
  | _ :: after => some (t.takeWhile (· ≠ mark), after)

/-- The text before and after the last `mark`, if there is one. -/
def cutLast? (mark : Char) (t : Text) : Option (Text × Text) :=
  (cutFirst? mark t.reverse).map fun (after, before) => (before.reverse, after.reverse)

theorem cutFirst?_append {mark : Char} {before : Text} (after : Text) (h : mark ∉ before) :
    cutFirst? mark (before ++ mark :: after) = some (before, after) := by
  have passes : ∀ c ∈ before, decide (c ≠ mark) = true := by
    intro c hc
    exact decide_eq_true fun same => h (same ▸ hc)
  unfold cutFirst?
  rw [List.dropWhile_append_of_pos passes, List.takeWhile_append_of_pos passes]
  simp

theorem cutFirst?_eq_none_iff {mark : Char} {t : Text} : cutFirst? mark t = none ↔ mark ∉ t := by
  constructor
  · intro h occurs
    obtain ⟨before, after, rfl, absent⟩ := List.eq_append_cons_of_mem occurs
    rw [cutFirst?_append after absent] at h
    cases h
  · intro absent
    have all : ∀ c ∈ t, decide (c ≠ mark) = true := by
      intro c hc
      exact decide_eq_true fun same => absent (same ▸ hc)
    have nothing : (t ++ []).dropWhile (fun c => decide (c ≠ mark)) = [] :=
      List.dropWhile_append_of_pos all
    rw [List.append_nil] at nothing
    unfold cutFirst?
    rw [nothing]

/-- `cutFirst?` is the decomposition with `mark ∉ before`. -/
theorem cutFirst?_eq_some_iff {mark : Char} {t before after : Text} :
    cutFirst? mark t = some (before, after) ↔ t = before ++ mark :: after ∧ mark ∉ before := by
  constructor
  · intro h
    have occurs : mark ∈ t := by
      apply Decidable.byContradiction
      intro absent
      rw [cutFirst?_eq_none_iff.2 absent] at h
      cases h
    obtain ⟨b, a, rfl, absent⟩ := List.eq_append_cons_of_mem occurs
    rw [cutFirst?_append a absent] at h
    cases h
    exact ⟨rfl, absent⟩
  · rintro ⟨rfl, absent⟩
    exact cutFirst?_append after absent

theorem cutLast?_eq_none_iff {mark : Char} {t : Text} : cutLast? mark t = none ↔ mark ∉ t := by
  unfold cutLast?
  rw [Option.map_eq_none_iff, cutFirst?_eq_none_iff, List.mem_reverse]

/-- `cutLast?` is the decomposition with `mark ∉ after`. -/
theorem cutLast?_eq_some_iff {mark : Char} {t before after : Text} :
    cutLast? mark t = some (before, after) ↔ t = before ++ mark :: after ∧ mark ∉ after := by
  unfold cutLast?
  constructor
  · intro h
    obtain ⟨⟨a, b⟩, cut, eq⟩ := Option.map_eq_some_iff.1 h
    cases eq
    obtain ⟨whole, absent⟩ := cutFirst?_eq_some_iff.1 cut
    refine ⟨?_, fun occurs => absent (List.mem_reverse.1 occurs)⟩
    rw [← List.reverse_reverse t, whole]
    simp
  · rintro ⟨rfl, absent⟩
    rw [List.reverse_append, List.reverse_cons, List.append_assoc, List.singleton_append,
      cutFirst?_append _ (fun occurs => absent (List.mem_reverse.1 occurs))]
    simp

end Text

end NetKit
