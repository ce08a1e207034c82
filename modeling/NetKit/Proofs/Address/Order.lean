import Mathlib.Data.Finset.Card
import NetKit.Address.Order
import NetKit.Proofs.Address.Blocks

/-!
# Order of addresses — a total order, and one sorted list for all orders of the same items

`compare` on addresses goes by `Address.key`, which is five numbers. What it means is said here without the
key: the first of the family, the IP address, the port, the flow information and the scope in which two
addresses differ decides (`Address.Precedes`). An IP address is determined by its number within its family, so
the key leaves nothing out, and two addresses that are neither before nor after each other are the same.

From this follows what sorting is used for. A list has one ascending arrangement, whichever order its items came
in, and there equal addresses stand side by side: `countRepeats`, which counts the items that equal their
predecessor, counts all that are there more than once.

## Contents
- `Ipv4.value_injective`, `Ipv6.value_injective`: IP addresses and their numbers.
- `Address.Precedes`, `Address.compare_eq_lt_iff`, `Address.compare_eq_eq_iff`: what the comparison means.
- `Address.OrdersTotally`, `Address.ordersTotally_compare`: the laws of the order.
- `countRepeats_add_card`: repeats in an ascending list.
- `Address.sorted_canonical`: sorting.
-/

namespace NetKit

/-! ## Numbers of IP addresses -/

/-- `Ipv4.value` is injective. -/
theorem Ipv4.value_injective {ip ip' : Ipv4} (h : ip.value = ip'.value) : ip = ip' := by
  have hoctets := congrArg (bigEndian 4) h
  unfold value at hoctets
  rw [show 4 = ip.octets.length from rfl, bigEndian_ofBigEndian,
    show ip.octets.length = ip'.octets.length from rfl, bigEndian_ofBigEndian] at hoctets
  exact octets_injective hoctets

/-- The fold of `Ipv6.value` is injective in its start and its groups, as long as there are as many groups. -/
theorem Ipv6.foldl_groups_injective {gs hs : List UInt16} (hlength : gs.length = hs.length) {n m : Nat}
    (h : gs.foldl (fun n g => n * 65536 + g.toNat) n = hs.foldl (fun n g => n * 65536 + g.toNat) m) :
    n = m ∧ gs = hs := by
  induction gs generalizing hs n m with
  | nil =>
      cases hs with
      | nil => exact ⟨h, rfl⟩
      | cons g hs => cases hlength
  | cons g gs ih =>
      cases hs with
      | nil => cases hlength
      | cons g' hs =>
          obtain ⟨hnumber, rfl⟩ := ih (Nat.succ.inj hlength) h
          have hparts : n * 65536 + g.toNat = m * 65536 + g'.toNat := hnumber
          -- a group is the remainder of the number that it ends
          have hg := g.toNat_lt
          have hg' := g'.toNat_lt
          have hgroup : g.toNat = g'.toNat := by omega
          exact ⟨by omega, by rw [UInt16.toNat_inj.mp hgroup]⟩

/-- `Ipv6.value` is injective. -/
theorem Ipv6.value_injective {ip ip' : Ipv6} (h : ip.value = ip'.value) : ip = ip' := by
  obtain ⟨groups, hlength⟩ := ip
  obtain ⟨groups', hlength'⟩ := ip'
  obtain ⟨-, rfl⟩ := foldl_groups_injective (hlength.trans hlength'.symm) h
  rfl

/-! ## What the comparison means -/

/-- `unspecified` comes first, then `ipv4`, then `ipv6`. -/
inductive Family.Precedes : Family → Family → Prop where
  | unspecified_ipv4 : Family.Precedes .unspecified .ipv4
  | unspecified_ipv6 : Family.Precedes .unspecified .ipv6
  | ipv4_ipv6 : Family.Precedes .ipv4 .ipv6

namespace Address

/-- `a` comes before `b`: in the first of family, IP address, port, flow information and scope in which they
    differ, it has the smaller one. -/
inductive Precedes (a b : Address) : Prop where
  | family (hlt : a.family.Precedes b.family)
  | ip (hfamily : a.family = b.family) {i j : Ip} (hi : a.ip? = some i) (hj : b.ip? = some j)
      (hlt : i.value < j.value)
  | port (hfamily : a.family = b.family) (hip : a.ip? = b.ip?) (hlt : a.port < b.port)
  | flow (hfamily : a.family = b.family) (hip : a.ip? = b.ip?) (hport : a.port = b.port)
      (hlt : a.flow < b.flow)
  | scope (hfamily : a.family = b.family) (hip : a.ip? = b.ip?) (hport : a.port = b.port)
      (hflow : a.flow = b.flow) (hlt : a.scope < b.scope)

/-- `a` and `b` are equal in every field. -/
structure SameFields (a b : Address) : Prop where
  family : a.family = b.family
  ip : a.ip? = b.ip?
  port : a.port = b.port
  flow : a.flow = b.flow
  scope : a.scope = b.scope

variable {a b : Address}

theorem familyRank_lt_iff (f g : Family) : familyRank f < familyRank g ↔ f.Precedes g := by
  constructor
  · intro h
    cases f <;> cases g <;> first | constructor | exact absurd h (by decide)
  · rintro (_ | _ | _) <;> decide

theorem familyRank_inj {f g : Family} : familyRank f = familyRank g ↔ f = g := by
  constructor
  · intro h
    cases f <;> cases g <;> first | rfl | cases h
  · exact congrArg familyRank

/-- `Ip.value` of the address, or `0` if it is `unspecified`. -/
def ipValue (a : Address) : Nat := (a.ip?.map Ip.value).getD 0

/-- `ipValue` is injective within a family. -/
theorem ipValue_inj (hfamily : a.family = b.family) : a.ipValue = b.ipValue ↔ a.ip? = b.ip? := by
  constructor
  · intro h
    cases a with
    | unspecified =>
        cases b with
        | unspecified => rfl
        | specified e => cases e <;> cases hfamily
    | specified e =>
        cases b with
        | unspecified => cases e <;> cases hfamily
        | specified e' =>
            cases e with
            | v4 ip port =>
                cases e' with
                | v4 ip' port' => exact congrArg (fun ip => some (Ip.v4 ip)) (Ipv4.value_injective h)
                | v6 => cases hfamily
            | v6 ip port flow scope =>
                cases e' with
                | v4 => cases hfamily
                | v6 ip' port' flow' scope' =>
                    exact congrArg (fun ip => some (Ip.v6 ip)) (Ipv6.value_injective h)
  · intro h
    exact congrArg (fun ip => (Option.map Ip.value ip).getD 0) h

/-- `ipValue` is monotone within a family. -/
theorem ipValue_lt_iff (hfamily : a.family = b.family) :
    a.ipValue < b.ipValue ↔ ∃ i j, a.ip? = some i ∧ b.ip? = some j ∧ i.value < j.value := by
  constructor
  · intro h
    cases a with
    | unspecified =>
        cases b with
        | unspecified => exact absurd h (Nat.lt_irrefl _)
        | specified e => cases e <;> cases hfamily
    | specified e =>
        cases b with
        | unspecified => exact absurd h (Nat.not_lt_zero _)
        | specified e' => exact ⟨e.ip, e'.ip, rfl, rfl, h⟩
  · rintro ⟨i, j, hi, hj, hlt⟩
    unfold ipValue
    rw [hi, hj]
    exact hlt

/-- `SameFields` is equality. -/
theorem SameFields.eq (h : SameFields a b) : a = b := by
  obtain ⟨hfamily, hip, hport, hflow, hscope⟩ := h
  cases a with
  | unspecified =>
      cases b with
      | unspecified => rfl
      | specified e => cases hip
  | specified e =>
      cases b with
      | unspecified => cases hip
      | specified e' =>
          cases e with
          | v4 ip port =>
              cases e' with
              | v4 ip' port' => cases hip; cases hport; rfl
              | v6 => cases hfamily
          | v6 ip port flow scope =>
              cases e' with
              | v4 => cases hfamily
              | v6 ip' port' flow' scope' => cases hip; cases hport; cases hflow; cases hscope; rfl

/-- **The first field that differs decides**: `compare` is `.lt` exactly for `Precedes`. -/
theorem compare_eq_lt_iff : compare a b = .lt ↔ a.Precedes b := by
  have hkey : ∀ a : Address, a.key =
      [familyRank a.family, a.ipValue, a.port.toNat, a.flow.toNat, a.scope.toNat] := fun _ => rfl
  have hnil : Ord.compare ([] : List Nat) [] = .lt ↔ False := ⟨fun h => (nomatch h), False.elim⟩
  unfold compare
  rw [hkey, hkey]
  simp only [List.compare_cons_cons, Ordering.then_eq_lt, Nat.compare_eq_lt, Nat.compare_eq_eq, hnil,
    and_false, or_false, familyRank_lt_iff, familyRank_inj]
  constructor
  · rintro (hlt | ⟨hfamily, hlt | ⟨hip, hlt | ⟨hport, hlt | ⟨hflow, hlt⟩⟩⟩⟩)
    · exact .family hlt
    · obtain ⟨i, j, hi, hj, hlt⟩ := (ipValue_lt_iff hfamily).mp hlt
      exact .ip hfamily hi hj hlt
    · exact .port hfamily ((ipValue_inj hfamily).mp hip) hlt
    · exact .flow hfamily ((ipValue_inj hfamily).mp hip) (UInt16.toNat_inj.mp hport) hlt
    · exact .scope hfamily ((ipValue_inj hfamily).mp hip) (UInt16.toNat_inj.mp hport)
        (UInt32.toNat_inj.mp hflow) hlt
  · intro h
    cases h with
    | family hlt => exact .inl hlt
    | ip hfamily hi hj hlt =>
        exact .inr ⟨hfamily, .inl ((ipValue_lt_iff hfamily).mpr ⟨_, _, hi, hj, hlt⟩)⟩
    | port hfamily hip hlt =>
        exact .inr ⟨hfamily, .inr ⟨(ipValue_inj hfamily).mpr hip, .inl hlt⟩⟩
    | flow hfamily hip hport hlt =>
        exact .inr ⟨hfamily, .inr ⟨(ipValue_inj hfamily).mpr hip, .inr
          ⟨congrArg UInt16.toNat hport, .inl hlt⟩⟩⟩
    | scope hfamily hip hport hflow hlt =>
        exact .inr ⟨hfamily, .inr ⟨(ipValue_inj hfamily).mpr hip, .inr
          ⟨congrArg UInt16.toNat hport, .inr ⟨congrArg UInt32.toNat hflow, hlt⟩⟩⟩⟩

/-- Addresses with one `key` have `SameFields`. -/
theorem sameFields_of_key (h : a.key = b.key) : SameFields a b := by
  unfold key at h
  simp only [List.cons.injEq, and_true] at h
  obtain ⟨hfamily, hip, hport, hflow, hscope⟩ := h
  have hfamily' := familyRank_inj.mp hfamily
  exact ⟨hfamily', (ipValue_inj hfamily').mp hip, UInt16.toNat_inj.mp hport, UInt32.toNat_inj.mp hflow,
    UInt32.toNat_inj.mp hscope⟩

/-- **`compare` is `.eq` only for an address and itself.** -/
theorem compare_eq_eq_iff : compare a b = .eq ↔ a = b := by
  unfold compare
  rw [Std.compare_eq_iff_eq]
  exact ⟨fun h => (sameFields_of_key h).eq, congrArg key⟩

/-! ## The laws -/

theorem compare_swap (a b : Address) : compare b a = (compare a b).swap := Std.OrientedOrd.eq_swap

theorem compare_trans {c : Address} (h : (compare a b).isLE = true) (h' : (compare b c).isLE = true) :
    (compare a c).isLE = true :=
  Std.TransOrd.isLE_trans h h'

theorem compare_total (a b : Address) : (compare a b).isLE = true ∨ (compare b a).isLE = true := by
  rw [compare_swap a b]
  cases compare a b with
  | lt => exact .inl rfl
  | eq => exact .inl rfl
  | gt => exact .inr rfl

theorem compare_antisymm (h : (compare a b).isLE = true) (h' : (compare b a).isLE = true) : a = b := by
  rw [compare_swap a b] at h'
  apply compare_eq_eq_iff.mp
  cases hab : compare a b with
  | lt => rw [hab] at h'; cases h'
  | eq => rfl
  | gt => rw [hab] at h; cases h

/-- `cmp` is a total order that agrees with equality, and goes by `Precedes`. -/
structure OrdersTotally (cmp : Address → Address → Ordering) : Prop where
  swap : ∀ a b, cmp b a = (cmp a b).swap
  antisymm : ∀ a b, (cmp a b).isLE = true → (cmp b a).isLE = true → a = b
  trans : ∀ a b c, (cmp a b).isLE = true → (cmp b c).isLE = true → (cmp a c).isLE = true
  total : ∀ a b, (cmp a b).isLE = true ∨ (cmp b a).isLE = true
  eq_iff : ∀ a b, cmp a b = .eq ↔ a = b
  eq_iff_sameFields : ∀ a b, cmp a b = .eq ↔ SameFields a b
  lt_iff : ∀ a b, cmp a b = .lt ↔ a.Precedes b

theorem ordersTotally_compare : OrdersTotally compare where
  swap := compare_swap
  antisymm _ _ := compare_antisymm
  trans _ _ _ := compare_trans
  total := compare_total
  eq_iff _ _ := compare_eq_eq_iff
  eq_iff_sameFields _ _ := by
    rw [compare_eq_eq_iff]
    exact ⟨fun h => h ▸ ⟨rfl, rfl, rfl, rfl, rfl⟩, SameFields.eq⟩
  lt_iff _ _ := compare_eq_lt_iff

end Address

/-! ## Repeats -/

/-- **In an ascending list equal items stand side by side**: its length is `countRepeats`, which counts the
    items that equal their predecessor, and the number of different items. -/
theorem countRepeats_add_card {α : Type} [DecidableEq α] {le : α → α → Prop}
    (hantisymm : ∀ a b, le a b → le b a → a = b) {as : List α} (hsorted : as.Pairwise le) :
    countRepeats as + as.toFinset.card = as.length := by
  rw [List.card_toFinset]
  induction as with
  | nil => rfl
  | cons a as ih =>
      cases as with
      | nil => rfl
      | cons b rest =>
          obtain ⟨ha, htail⟩ := List.pairwise_cons.mp hsorted
          have hrest := ih htail
          rw [countRepeats, List.length_cons]
          by_cases hab : a = b
          · have hmem : a ∈ b :: rest := hab ▸ List.mem_cons_self
            rw [if_pos hab, List.dedup_cons_of_mem hmem]
            omega
          · -- were the item found again later, the one after it would stand between two of it
            have hnot : a ∉ b :: rest := by
              intro hmem
              rcases List.mem_cons.mp hmem with heq | hlater
              · exact hab heq
              · exact hab (hantisymm a b (ha b List.mem_cons_self)
                  ((List.pairwise_cons.mp htail).1 a hlater))
            rw [if_neg hab, List.dedup_cons_of_notMem hnot, List.length_cons]
            omega

/-! ## Sorting -/

namespace Address

/-- The list is ascending in `compare`. -/
def Ascending (as : List Address) : Prop := as.Pairwise fun a b => (compare a b).isLE = true

theorem ascending_sorted (as : List Address) : Ascending (sorted as) := by
  apply List.pairwise_mergeSort
  · exact fun _ _ _ => compare_trans
  · intro a b
    rw [Bool.or_eq_true]
    exact compare_total a b

theorem perm_sorted (as : List Address) : (sorted as).Perm as := List.mergeSort_perm _ _

/-- `Ascending` lists of the same items are equal. -/
theorem Ascending.eq_of_perm {as bs : List Address} (h : Ascending as) (h' : Ascending bs)
    (hperm : as.Perm bs) : as = bs :=
  List.Perm.eq_of_pairwise (fun _ _ _ _ => compare_antisymm) h h' hperm

/-- **Addresses are totally ordered, and sorting is canonical.** `compare` is a total order in which only
    equal addresses are equal, and which goes by family, IP address, port, flow information and scope. The
    items of a list have one ascending arrangement, and `sorted` gives it whichever order they came in. In
    it `countRepeats` is by how many the items of the list are more than the different ones. -/
theorem sorted_canonical :
    OrdersTotally compare ∧
    ∀ as bs : List Address, bs.Perm as →
      sorted bs = sorted as ∧ Ascending (sorted as) ∧ (sorted as).Perm as ∧
      (∀ cs, Ascending cs → cs.Perm as → cs = sorted as) ∧
      countRepeats (sorted bs) + as.toFinset.card = as.length := by
  refine ⟨ordersTotally_compare, fun as bs hperm => ?_⟩
  have hsame : sorted bs = sorted as :=
    (ascending_sorted bs).eq_of_perm (ascending_sorted as)
      (((perm_sorted bs).trans hperm).trans (perm_sorted as).symm)
  have hunique : ∀ cs, Ascending cs → cs.Perm as → cs = sorted as := fun cs hcs hcsPerm =>
    hcs.eq_of_perm (ascending_sorted as) (hcsPerm.trans (perm_sorted as).symm)
  have hcount : countRepeats (sorted as) + (sorted as).toFinset.card = (sorted as).length :=
    countRepeats_add_card (fun _ _ => compare_antisymm) (ascending_sorted as)
  rw [List.toFinset_eq_of_perm _ _ (perm_sorted as), (perm_sorted as).length_eq] at hcount
  refine ⟨hsame, ascending_sorted as, perm_sorted as, hunique, ?_⟩
  rw [hsame]
  exact hcount

/-- Addresses of all families, one of them twice, and two that only their flow information tells apart. -/
theorem sorted_canonical_reversed :
    let a := specified (.v4 ⟨10, 0, 0, 1⟩ 80)
    let b := specified (.v6 Ipv6.loopback 80 0 3)
    let c := specified (.v6 Ipv6.loopback 80 7 0)
    [unspecified, a, a, b, c].Perm [c, a, unspecified, b, a] ∧
      sorted [c, a, unspecified, b, a] = [unspecified, a, a, b, c] ∧
      sorted [a, b, unspecified, a, c] = [unspecified, a, a, b, c] ∧
      countRepeats (sorted [a, b, unspecified, a, c]) = 1 := by
  intro a b c
  have hreversed : [a, b, unspecified, a, c].Perm [c, a, unspecified, b, a] := by decide
  have hperm : [unspecified, a, a, b, c].Perm [c, a, unspecified, b, a] := by decide
  have hascending : Ascending [unspecified, a, a, b, c] := by unfold Ascending; decide
  have hcard : [c, a, unspecified, b, a].toFinset.card = 4 := by decide
  obtain ⟨hsame, -, -, hunique, hcount⟩ := sorted_canonical.2 _ _ hreversed
  have hsorted := hunique _ hascending hperm
  refine ⟨hperm, hsorted.symm, hsame.trans hsorted.symm, ?_⟩
  rw [hcard] at hcount
  exact Nat.add_right_cancel (hcount.trans (show _ = 1 + 4 from rfl))

end Address

end NetKit
