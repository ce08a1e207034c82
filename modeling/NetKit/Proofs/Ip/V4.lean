import NetKit.Ip.V4
import NetKit.Proofs.Numeral

/-!
# IPv4 literals — the printed text is read back, and what an accepted text looks like

Two directions, both needed by the readers of whole addresses. `Ipv4.read?` gives a printed address back,
also with more text behind it as long as no digit follows (`Ipv4.read?_text`). And every text that
`Ipv4.ofText?` accepts is the `Ipv4.text` of its address (`Ipv4.ofText?_eq_some_iff`): there is no other
way to write one. So it is made of decimal digits and points and has at most fifteen characters, has
none of the marks that divide an address and passes the limit on its length.

## Contents
- `isLiteralChar`, `byteLength_of_literal`: the characters of IP literals, each a single byte.
- `Ipv4.read?_text`, `Ipv4.ofText?_text`: the round trip.
- `Ipv4.eq_text_of_read?`, `Ipv4.ofText?_eq_some_iff`: what is accepted is what is printed.
- `Ipv4.literal_of_ofText?`: the shape of accepted texts.
-/

namespace NetKit

/-! ## Characters of IP literals -/

/-- The characters of IP literals of both versions. -/
def isLiteralChar (c : Char) : Bool := isDigit 16 c || c = '.' || c = ':'

theorem isLiteralChar_of_isDigit {radix : Nat} {c : Char} (hradix : radix ≤ 16)
    (hc : isDigit radix c = true) : isLiteralChar c = true := by
  simp [isLiteralChar, isDigit_mono hradix hc]

/-- An `isLiteralChar` takes one byte of UTF-8. -/
theorem utf8Size_of_isLiteralChar {c : Char} (hc : isLiteralChar c = true) : c.utf8Size = 1 := by
  simp only [isLiteralChar, Bool.or_eq_true, decide_eq_true_eq] at hc
  rcases hc with (hdigit | rfl) | rfl
  · exact Char.utf8Size_eq_one_iff.mpr (UInt32.le_trans (le_of_isDigit hdigit) (by decide))
  · decide
  · decide

/-- `byteLength` of a literal is its `length`. -/
theorem byteLength_of_literal {t : Text} (ht : ∀ c ∈ t, isLiteralChar c = true) :
    t.byteLength = t.length := by
  induction t with
  | nil => rfl
  | cons c t ih =>
      have hc := utf8Size_of_isLiteralChar (ht c (List.mem_cons_self ..))
      have htail := ih fun d hd => ht d (List.mem_cons_of_mem c hd)
      unfold Text.byteLength at htail ⊢
      rw [List.map_cons, List.sum_cons, hc, htail, List.length_cons, Nat.add_comm]

namespace Ipv4

/-! ## The round trip -/

theorem readOctet?_toDigits (a : UInt8) {rest : Text} (hrest : startsWithDigit 10 rest = false) :
    readOctet? (Nat.toDigits 10 a.toNat ++ rest) = some (a, rest) := by
  have hlt : a.toNat < 256 := a.toNat_lt
  have hlength : (Nat.toDigits 10 a.toNat).length ≤ 3 :=
    length_toDigits_le (by decide) (by decide) (by omega)
  have hempty : (Nat.toDigits 10 a.toNat).isEmpty = false := by
    rw [List.isEmpty_eq_false_iff]; exact Nat.toDigits_ne_nil
  have hzeros : (decide (1 < (Nat.toDigits 10 a.toNat).length) &&
      (Nat.toDigits 10 a.toNat).head? == some '0') = false := by
    by_cases ha : a.toNat = 0
    · rw [ha]; rfl
    · have hhead := head_toDigits_ne_zero (by decide : 1 < 10) ha
      rw [beq_eq_false_iff_ne.mpr hhead, Bool.and_false]
  unfold readOctet?
  rw [spanDigits_toDigits (by decide) (by decide) _ hrest]
  simp only [hempty, hzeros, Bool.false_or, Bool.or_false, decide_eq_true_eq,
    digitsValue_toDigits (by decide : 1 < 10) (by decide)]
  rw [if_neg (Nat.not_lt.mpr hlength), if_neg (by omega)]
  rw [UInt8.ofNat_toNat]

/-- **`read?` gives an address back from its `text`**, whatever follows but a digit. -/
theorem read?_text (ip : Ipv4) {rest : Text} (hrest : startsWithDigit 10 rest = false) :
    read? (ip.text ++ rest) = some (ip, rest) := by
  have hdot : ∀ t : Text, startsWithDigit 10 ('.' :: t) = false := fun _ => rfl
  have hdotOctet : ∀ t : Text, readDotOctet? ('.' :: t) = readOctet? t := fun _ => rfl
  unfold read? text
  simp only [List.append_assoc, List.cons_append, readOctet?_toDigits ip.a (hdot _),
    readOctet?_toDigits ip.b (hdot _), readOctet?_toDigits ip.c (hdot _),
    readOctet?_toDigits ip.d hrest, hdotOctet, Option.bind_eq_bind, Option.bind_some, Option.pure_def]

theorem ofText?_text (ip : Ipv4) : ofText? ip.text = some ip := by
  have hread : read? (ip.text ++ []) = some (ip, []) := read?_text ip rfl
  unfold ofText?
  rw [List.append_nil] at hread
  rw [hread]

/-! ## What is accepted -/

/-- `readOctet?` takes what `Nat.toDigits` writes. -/
theorem eq_toDigits_of_readOctet? {t rest : Text} {a : UInt8} (h : readOctet? t = some (a, rest)) :
    t = Nat.toDigits 10 a.toNat ++ rest := by
  unfold readOctet? at h
  cases hspan : spanDigits 10 t with
  | mk ds tail =>
      obtain ⟨rfl, hds, -⟩ := spanDigits_eq_iff.mp hspan
      rw [hspan] at h
      simp only at h
      split at h
      · cases h
      · next hok =>
          split at h
          · cases h
          · next hsmall =>
              cases h
              simp only [Bool.or_eq_true, Bool.and_eq_true, List.isEmpty_iff, decide_eq_true_eq,
                beq_iff_eq, not_or, not_and] at hok
              obtain ⟨⟨hempty, -⟩, hhead⟩ := hok
              have hvalue : (UInt8.ofNat (digitsValue 10 ds)).toNat = digitsValue 10 ds := by
                rw [UInt8.toNat_ofNat']
                omega
              rw [hvalue, toDigits_digitsValue hds hempty hhead]

theorem eq_toDigits_of_readDotOctet? {t rest : Text} {a : UInt8}
    (h : readDotOctet? t = some (a, rest)) : t = '.' :: (Nat.toDigits 10 a.toNat ++ rest) := by
  unfold readDotOctet? at h
  split at h
  · rw [eq_toDigits_of_readOctet? h]
  · cases h

/-- **What `read?` takes is the `text` of its answer.** -/
theorem eq_text_of_read? {t rest : Text} {ip : Ipv4} (h : read? t = some (ip, rest)) :
    t = ip.text ++ rest := by
  unfold read? at h
  simp only [Option.bind_eq_bind, Option.bind_eq_some_iff, Option.pure_def, Option.some.injEq,
    Prod.mk.injEq, Prod.exists] at h
  obtain ⟨a, ta, ha, b, tb, hb, c, tc, hc, d, td, hd, rfl, rfl⟩ := h
  rw [eq_toDigits_of_readOctet? ha, eq_toDigits_of_readDotOctet? hb, eq_toDigits_of_readDotOctet? hc,
    eq_toDigits_of_readDotOctet? hd]
  simp only [text, List.append_assoc, List.cons_append]

/-- **`ofText?` accepts exactly the `text` of an address.** -/
theorem ofText?_eq_some_iff {t : Text} {ip : Ipv4} : ofText? t = some ip ↔ t = ip.text := by
  constructor
  · intro h
    unfold ofText? at h
    split at h
    · next hread =>
        cases h
        rw [eq_text_of_read? hread, List.append_nil]
    · cases h
  · rintro rfl
    exact ofText?_text ip

/-- `Ipv4.text` has decimal digits and points only. -/
theorem char_of_mem_text {ip : Ipv4} {c : Char} (hc : c ∈ ip.text) :
    isDigit 10 c = true ∨ c = '.' := by
  have hoctet : ∀ a : UInt8, c ∈ Nat.toDigits 10 a.toNat → isDigit 10 c = true := fun a h =>
    isDigit_of_mem_toDigits (by decide) (by decide) h
  simp only [text, List.mem_append, List.mem_cons] at hc
  rcases hc with ((h | h | h) | h | h) | h | h
  · exact .inl (hoctet ip.a h)
  · exact .inr h
  · exact .inl (hoctet ip.b h)
  · exact .inr h
  · exact .inl (hoctet ip.c h)
  · exact .inr h
  · exact .inl (hoctet ip.d h)

theorem length_text_le (ip : Ipv4) : ip.text.length ≤ 15 := by
  have hoctet : ∀ a : UInt8, (Nat.toDigits 10 a.toNat).length ≤ 3 := fun a =>
    length_toDigits_le (by decide) (by decide) (Nat.lt_trans a.toNat_lt (by decide))
  have ha := hoctet ip.a
  have hb := hoctet ip.b
  have hc := hoctet ip.c
  have hd := hoctet ip.d
  simp only [text, List.length_append, List.length_cons]
  omega

/-- `ofText?` accepts fifteen characters at most, all decimal digits and points. -/
theorem literal_of_ofText? {t : Text} {ip : Ipv4} (h : ofText? t = some ip) :
    (∀ c ∈ t, isDigit 10 c = true ∨ c = '.') ∧ t.length ≤ 15 := by
  obtain rfl := ofText?_eq_some_iff.mp h
  exact ⟨fun c hc => char_of_mem_text hc, ip.length_text_le⟩

end Ipv4

end NetKit
