import EntryRef.Authority
import EntryRef.Proofs.Text.Cutting

/-!
# Well-formed authorities

`Authority.fault?` finds what is wrong with an authority. Here is what it takes for nothing to be
wrong (`WellFormed`): no character may be taken for one that ends a host, and if there are brackets,
then there are some of both kinds and the host is an address that stands in brackets. The host is
what follows the last at sign, and the brackets that are counted may stand before it; so there are
odd authorities in which an address of a future form needs no brackets, or only an opening one
(`Encloses`).

The search takes an IPv4 address for a fault before it looks for an IPv6 address, and it looks at
the first letter before that. Neither matters, since no address is of two kinds
(`bracketedFault?_eq_none_iff`).
-/

namespace EntryRef.Authority

open Text

variable {s host authority : Text} {c : Char} {n : Nat}

/-! ### Addresses -/

/-- What may stand in brackets: an address of a future form, or an IPv6 address. -/
def IsAddress (host : Text) : Prop := isFuture host ∨ isIpv6 host

private theorem isHex_of_isDigit (h : c.isDigit) : isHex c := by
  have hc : '0' ≤ c ∧ c ≤ '9' := by
    rw [Char.isDigit, Bool.and_eq_true, decide_eq_true_eq, decide_eq_true_eq] at h
    exact h
  rw [isHex, hexValue?, if_pos hc]
  rfl

/-- An address of four numbers is written with digits and dots. -/
private theorem isDigit_of_isIpv4 (h : isIpv4 s) (hc : c ∈ s) : c.isDigit ∨ c = '.' := by
  rw [← joined_pieces '.' s] at hc
  rcases mem_joined hc with hc | ⟨octet, hoctet, hc⟩
  · exact .inr (List.mem_singleton.mp hc)
  · rw [isIpv4, Bool.and_eq_true, List.all_eq_true] at h
    have hdigits := h.2 octet hoctet
    simp only [isOctet, Bool.and_eq_true, List.all_eq_true] at hdigits
    exact .inl (hdigits.1.1.1.2 c hc)

/-- An address of four numbers has a dot, so that it is never a part of another kind of address. -/
private theorem dot_mem_of_isIpv4 (h : isIpv4 s) : '.' ∈ s := by
  by_contra hdot
  rw [isIpv4, pieces_eq_self hdot] at h
  exact Bool.false_ne_true h

/-- Groups are written with hexadecimal digits, colons and dots. -/
theorem isHex_of_groups? {tail : Bool} (h : groups? tail s = some n) (hc : c ∈ s) :
    isHex c ∨ c = ':' ∨ c = '.' := by
  have hgroup : ∀ {part : Text}, isGroup part → c ∈ part → isHex c := by
    intro part hpart hc
    simp only [isGroup, Bool.and_eq_true, List.all_eq_true] at hpart
    exact hpart.2 c hc
  rw [← joined_pieces ':' s] at hc
  rcases mem_joined hc with hc | ⟨part, hpart, hc⟩
  · exact .inr (.inl (List.mem_singleton.mp hc))
  rw [groups?] at h
  split at h
  · next hs =>
    rw [List.isEmpty_iff] at hs
    rw [hs] at hpart
    rw [List.mem_singleton.mp hpart] at hc
    cases hc
  simp only at h
  split at h
  · next hall => exact .inl (hgroup (List.all_eq_true.mp hall part hpart) hc)
  split at h
  · next hall =>
    rw [Bool.and_eq_true, Bool.and_eq_true, List.all_eq_true] at hall
    -- only the last part may be more than a group
    rw [← List.dropLast_concat_getLast (pieces_ne_nil ':' s), List.mem_append,
      List.mem_singleton] at hpart
    rcases hpart with hpart | rfl
    · exact .inl (hgroup (hall.1.2 part hpart) hc)
    · rw [List.getLastD_eq_getLast?, List.getLast?_eq_some_getLast (pieces_ne_nil ':' s),
        Option.getD_some] at hall
      exact (isDigit_of_isIpv4 hall.2 hc).imp isHex_of_isDigit .inr
  · cases h

/-- A gap is two colons between what stands on either side of it. -/
private theorem eq_of_atGap? {left right : Text} (h : atGap? s = some (left, right)) :
    s = left ++ ':' :: ':' :: right := by
  fun_induction atGap? s generalizing left with
  | case1 r =>
    rw [Option.some.injEq, Prod.mk.injEq] at h
    rw [← h.1, ← h.2, List.nil_append]
  | case2 c r _ ih =>
    obtain ⟨⟨front, rest⟩, hcut, heq⟩ := Option.map_eq_some_iff.mp h
    rw [Prod.mk.injEq] at heq
    rw [← heq.1, List.cons_append, ← ih (heq.2 ▸ hcut)]
  | case3 => cases h

/-- An address of eight groups is written with hexadecimal digits, colons and dots: a zone is no
part of it. -/
private theorem isHex_of_isIpv6Address (h : isIpv6Address s) (hc : c ∈ s) :
    isHex c ∨ c = ':' ∨ c = '.' := by
  unfold isIpv6Address at h
  split at h
  · exact isHex_of_groups? (beq_iff_eq.mp h) hc
  · next left right hgap =>
    rw [eq_of_atGap? hgap] at hc
    simp only [List.mem_append, List.mem_cons] at hc
    split at h
    · next hleft hright =>
      rcases hc with hc | hc | hc | hc
      · exact isHex_of_groups? hleft hc
      · exact .inr (.inl hc)
      · exact .inr (.inl hc)
      · exact isHex_of_groups? hright hc
    · cases h

/-- An IPv6 address does not start like an address of a future form. -/
theorem head?_ne_of_isIpv6 (h : isIpv6 host) : host.head? ≠ some 'v' := by
  intro hv
  obtain ⟨r, rfl⟩ : ∃ r, host = 'v' :: r := List.head?_eq_some_iff.mp hv
  rw [isIpv6, Bool.and_eq_true, before_cons_of_ne (by decide)] at h
  exact absurd (isHex_of_isIpv6Address h.1 List.mem_cons_self) (by decide)

/-- An IPv4 address has too few groups for an IPv6 address. -/
theorem not_isIpv6_of_isIpv4 (h : isIpv4 host) : isIpv6 host = false := by
  have hother : ∀ c, ¬(c.isDigit ∨ c = '.') → c ∉ host := fun c hc hm => hc (isDigit_of_isIpv4 h hm)
  have hgap : atGap? host = none := by
    rcases hcut : atGap? host with _ | ⟨left, right⟩
    · rfl
    · refine absurd ?_ (hother ':' (by decide))
      rw [eq_of_atGap? hcut]
      exact List.mem_append_right _ List.mem_cons_self
  have hgroup : isGroup host = false := by
    rw [← Bool.not_eq_true]
    intro hall
    simp only [isGroup, Bool.and_eq_true, List.all_eq_true] at hall
    exact absurd (hall.2 '.' (dot_mem_of_isIpv4 h)) (by decide)
  have hempty : host.isEmpty = false := by
    cases host with
    | nil => exact absurd h (by decide)
    | cons c r => rfl
  have hgroups : groups? true host ≠ some 8 := by
    simp [groups?, pieces_eq_self (hother ':' (by decide)), hempty, hgroup, h]
  rw [isIpv6, before_eq_self (hother '%' (by decide)), isIpv6Address, hgap]
  simp [hgroups]

private theorem head?_of_isFuture (h : isFuture host) : host.head? = some 'v' := by
  unfold isFuture at h
  split at h
  · rfl
  · cases h

/-- The order in which the kinds of addresses are looked for does not matter. -/
theorem bracketedFault?_eq_none_iff : bracketedFault? host = none ↔ IsAddress host := by
  unfold bracketedFault?
  split
  · next hv =>
    rw [IsAddress, or_iff_left fun h => head?_ne_of_isIpv6 h hv]
    split
    · next h => exact iff_of_true rfl h
    · next h => exact iff_of_false nofun h
  · next hv =>
    rw [IsAddress, or_iff_right fun h => hv (head?_of_isFuture h)]
    split
    · next h => exact iff_of_false nofun (by simp [not_isIpv6_of_isIpv4 h])
    · split
      · next h => exact iff_of_true rfl h
      · next h => exact iff_of_false nofun h

/-! ### Brackets -/

/-- How an address stands in what follows the at sign of an authority that has brackets of both
kinds. -/
inductive Encloses : Text → Prop
  /-- In brackets, and if anything follows them, it starts with a colon. -/
  | closed {host number : Text} (hbracket : ']' ∉ host) (haddress : IsAddress host)
      (hnumber : number = [] ∨ number.head? = some ':') : Encloses ('[' :: (host ++ ']' :: number))
  /-- Behind an opening bracket; the closing one is before the at sign. -/
  | unclosed {host : Text} (hbracket : ']' ∉ host) (haddress : IsAddress host) :
      Encloses ('[' :: host)
  /-- Without an opening bracket, which is before the at sign. -/
  | bare {hostAndNumber : Text} (hbracket : '[' ∉ hostAndNumber)
      (haddress : IsAddress (before ':' hostAndNumber)) : Encloses hostAndNumber

namespace Encloses

/-- Without an opening bracket, what stands before the first colon has to be an address. -/
private theorem bare_iff (h : '[' ∉ s) : Encloses s ↔ IsAddress (before ':' s) := by
  constructor
  · intro hs
    cases hs with
    | closed => exact absurd List.mem_cons_self h
    | unclosed => exact absurd List.mem_cons_self h
    | bare _ haddress => exact haddress
  · exact .bare h

private theorem unclosed_iff (h : ']' ∉ host) : Encloses ('[' :: host) ↔ IsAddress host := by
  constructor
  · intro hs
    generalize heq : '[' :: host = s at hs
    cases hs with
    | closed =>
      rw [(List.cons.inj heq).2] at h
      exact absurd (List.mem_append_right _ List.mem_cons_self) h
    | unclosed _ haddress => rwa [(List.cons.inj heq).2]
    | bare hbracket => exact absurd (heq ▸ List.mem_cons_self) hbracket
  · exact .unclosed h

/-- Behind a closing bracket there is nothing, or a colon with whatever follows it. -/
private theorem closed_iff {number : Text} (h : ']' ∉ host) :
    Encloses ('[' :: (host ++ ']' :: number)) ↔
      IsAddress host ∧ (number = [] ∨ number.head? = some ':') := by
  constructor
  · intro hs
    generalize heq : '[' :: (host ++ ']' :: number) = s at hs
    cases hs with
    | @closed other rest hbracket haddress hnumber =>
      have hcut : host ++ ']' :: number = other ++ ']' :: rest := (List.cons.inj heq).2
      obtain rfl : host = other := eq_of_append_cons_eq h hbracket hcut
      rw [List.append_cancel_left_eq, List.cons.injEq] at hcut
      exact ⟨haddress, hcut.2 ▸ hnumber⟩
    | unclosed hbracket =>
      rw [← (List.cons.inj heq).2] at hbracket
      exact absurd (List.mem_append_right _ List.mem_cons_self) hbracket
    | bare hbracket => exact absurd (heq ▸ List.mem_cons_self) hbracket
  · exact fun hs => .closed h hs.1 hs.2

/-- An opening bracket has to come first. -/
theorem eq_nil_of_append (h : Encloses (s ++ '[' :: host)) (hs : '[' ∉ s) : s = [] := by
  generalize heq : s ++ '[' :: host = t at h
  have hmem : '[' ∈ t := heq ▸ List.mem_append_right s List.mem_cons_self
  cases s with
  | nil => rfl
  | cons c r =>
    have hne : c ≠ '[' := fun hc => hs (hc ▸ List.mem_cons_self)
    cases h with
    | closed => exact absurd (List.cons.inj heq).1 hne
    | unclosed => exact absurd (List.cons.inj heq).1 hne
    | bare hbracket => exact absurd hmem hbracket

end Encloses

private theorem hostFault?_eq_none_iff : hostFault? s = none ↔ Encloses s := by
  by_cases hopen : '[' ∈ s
  · obtain ⟨front, inside, rfl, hfront⟩ := List.eq_append_cons_of_mem hopen
    simp only [hostFault?, after?_append_cons hfront, before_append_cons hfront]
    cases front with
    | cons c r =>
      refine iff_of_false (by simp) fun h => ?_
      exact List.cons_ne_nil c r (h.eq_nil_of_append hfront)
    | nil =>
      rw [List.nil_append]
      by_cases hclose : ']' ∈ inside
      · obtain ⟨host, number, rfl, hhost⟩ := List.eq_append_cons_of_mem hclose
        rw [after?_append_cons hhost, before_append_cons hhost, Option.getD_some,
          Encloses.closed_iff hhost, ← bracketedFault?_eq_none_iff]
        by_cases hnumber : number = [] ∨ number.head? = some ':'
        · rw [if_neg (by rcases hnumber with h | h <;> simp [h]), and_iff_left hnumber]
        · rw [not_or] at hnumber
          rw [if_pos (.inr ⟨by simpa using hnumber.1, hnumber.2⟩)]
          exact iff_of_false nofun fun h => h.2.elim hnumber.1 hnumber.2
      · rw [after?_eq_none hclose, before_eq_self hclose, Encloses.unclosed_iff hclose,
          ← bracketedFault?_eq_none_iff]
        simp
  · rw [hostFault?, after?_eq_none hopen, Encloses.bare_iff hopen]
    exact bracketedFault?_eq_none_iff

/-! ### Authorities -/

/-- Nothing is wrong with the authority. -/
structure WellFormed (authority : Text) : Prop where
  /-- There are no brackets, or brackets of both kinds and an address. -/
  brackets : ('[' ∉ authority ∧ ']' ∉ authority) ∨
    ('[' ∈ authority ∧ ']' ∈ authority ∧ Encloses (afterLast '@' authority))
  /-- No character could be taken for one that ends a host. -/
  incompatible : ∀ c ∈ authority, c ∉ compatibles

/-- An authority has no bracket at all, or both kinds and an address between them, behind its last
at sign. -/
private theorem bracketFault?_eq_none_iff : bracketFault? authority = none ↔
    ('[' ∉ authority ∧ ']' ∉ authority) ∨
      ('[' ∈ authority ∧ ']' ∈ authority ∧ Encloses (afterLast '@' authority)) := by
  rw [← hostFault?_eq_none_iff]
  by_cases hopen : '[' ∈ authority <;> by_cases hclose : ']' ∈ authority
  all_goals simp [bracketFault?, hopen, hclose]

/-- What it takes for an authority to be without faults. -/
theorem fault?_eq_none_iff : fault? authority = none ↔ WellFormed authority := by
  have hincompatible : (if authority.any compatibles.contains then
      some (Fault.compatible authority) else none) = none ↔ ∀ c ∈ authority, c ∉ compatibles := by
    simp
  rw [fault?, Option.orElse_eq_orElse, Option.orElse_eq_or, Option.or_eq_none_iff, hincompatible,
    bracketFault?_eq_none_iff]
  exact ⟨fun h => ⟨h.1, h.2⟩, fun h => ⟨h.brackets, h.incompatible⟩⟩

end EntryRef.Authority
