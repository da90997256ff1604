import EntryRef.Proofs.Identifier

/-!
# The grammar of identifiers

`Identifier.fault?` searches an identifier for faults one after another. Here its rules are told
without the search: which characters are `Barred`, that two hexadecimal digits follow every percent
sign (`Escapes`), and what a `SchemeName` is.

A text may break these rules in more ways than one (`Breaks`), and what is wrong around its first
colon may be told in two ways. `IllFormed` asks for the name of a scheme before the colon and for
something behind it. The search for a fault is content with less (`Incomplete`): the text before the
colon must not be empty, but where it is no name, the identifier passes for one without a scheme.

Main statements:

* `clean_iff`, `isScheme_iff`: the rules for characters and for schemes,
* `fault?_ne_none_iff`: a fault is found if and only if a rule is broken,
* `breaks_illFormed_iff`: the stricter rules refuse more, and what they refuse besides.
-/

namespace EntryRef.Identifier

open Text

variable {c : Char} {s : Text}

/-! ### Characters -/

/-- White space, control characters and nine marks are barred from identifiers. -/
def Barred (c : Char) : Prop :=
  isBlank c ∨ c.toNat ≤ 0x1f ∨ c.toNat = 0x7f ∨
    c ∈ ['"', '<', '>', '\\', '^', '`', '{', '|', '}']

private theorem isIllegal_iff : isIllegal c ↔ Barred c := by
  simp only [isIllegal, Barred, Bool.or_eq_true, decide_eq_true_eq, beq_iff_eq, List.mem_cons,
    List.not_mem_nil, or_false, or_assoc, Nat.lt_succ_iff]

private theorem isIllegal_eq_false_iff : isIllegal c = false ↔ ¬Barred c := by
  rw [← isIllegal_iff, Bool.not_eq_true]

/-- Two hexadecimal digits follow every percent sign. -/
def Escapes (s : Text) : Prop :=
  ∀ p r, s = p ++ '%' :: r → ∃ a b t, r = a :: b :: t ∧ isHex a ∧ isHex b

private theorem startsWithEscape_iff :
    startsWithEscape s ↔ ∃ a b t, s = a :: b :: t ∧ isHex a ∧ isHex b := by
  constructor
  · intro h
    match s with
    | [] | [_] => simp [startsWithEscape] at h
    | a :: b :: t => exact ⟨a, b, t, rfl, Bool.and_eq_true_iff.mp h⟩
  · rintro ⟨a, b, t, rfl, ha, hb⟩
    exact Bool.and_eq_true_iff.mpr ⟨ha, hb⟩

/-- Clean texts are those that keep the two rules for characters. -/
theorem clean_iff : Clean s ↔ (∀ c ∈ s, ¬Barred c) ∧ Escapes s := by
  have hescaped : Escaped s ↔ Escapes s := by
    simp only [escaped_iff, startsWithEscape_iff, Escapes]
  rw [← hescaped]
  constructor
  · exact fun h => ⟨fun c hc => isIllegal_eq_false_iff.mp (h.legal c hc), h.escaped⟩
  · exact fun h => ⟨fun c hc => isIllegal_eq_false_iff.mpr (h.1 c hc), h.2⟩

private theorem not_clean_iff : ¬Clean s ↔ (∃ c ∈ s, Barred c) ∨ ¬Escapes s := by
  rw [clean_iff, not_and_or]
  simp only [not_forall, not_not, exists_prop]

/-! ### Schemes -/

/-- The name of a scheme is a letter and then letters, digits and the marks `+`, `.` and `-`. -/
def SchemeName : Text → Prop
  | [] => False
  | c :: r => c.isAlpha ∧ ∀ x ∈ r, x.isAlphanum ∨ x ∈ ['+', '.', '-']

/-- A loose name is the name of a scheme with one line break behind it. -/
def LooseName (s : Text) : Prop := ∃ name, SchemeName name ∧ s = name ++ ['\n']

private theorem isSchemeChar_iff : isSchemeChar c ↔ c.isAlphanum ∨ c ∈ ['+', '.', '-'] := by
  simp only [isSchemeChar, Bool.or_eq_true, beq_iff_eq, List.mem_cons, List.not_mem_nil, or_false,
    or_assoc]

instance : DecidablePred SchemeName
  | [] => inferInstanceAs (Decidable False)
  | c :: r => decidable_of_iff (c.isAlpha ∧ r.all isSchemeChar) (by
      simp only [List.all_eq_true, isSchemeChar_iff, SchemeName])

/-- A scheme is a name or a loose one. -/
theorem isScheme_iff : isScheme s ↔ SchemeName s ∨ LooseName s := by
  cases s with
  | nil =>
    refine iff_of_false Bool.false_ne_true ?_
    rintro (h | ⟨name, -, h⟩)
    · exact h
    · exact List.cons_ne_nil _ _ (List.append_eq_nil_iff.mp h.symm).2
  | cons c r =>
    have hall : r.dropWhile isSchemeChar = [] ↔ ∀ x ∈ r, x.isAlphanum ∨ x ∈ ['+', '.', '-'] := by
      simp only [List.dropWhile_eq_nil_iff, isSchemeChar_iff]
    have hbreak : r.dropWhile isSchemeChar = ['\n'] ↔
        ∃ t, r = t ++ ['\n'] ∧ ∀ x ∈ t, x.isAlphanum ∨ x ∈ ['+', '.', '-'] := by
      simp only [← isSchemeChar_iff]
      constructor
      · intro h
        refine ⟨r.takeWhile isSchemeChar, ?_, fun x hx => List.mem_takeWhile_imp hx⟩
        rw [← h, List.takeWhile_append_dropWhile]
      · rintro ⟨t, rfl, ht⟩
        rw [List.dropWhile_append_of_pos ht]
        rfl
    rw [isScheme, Bool.and_eq_true, Bool.or_eq_true, beq_iff_eq, beq_iff_eq, hall, hbreak,
      and_or_left]
    refine or_congr_right ⟨?_, ?_⟩
    · rintro ⟨hc, t, rfl, ht⟩
      exact ⟨c :: t, ⟨hc, ht⟩, rfl⟩
    · rintro ⟨name, hname, heq⟩
      cases name with
      | nil => exact hname.elim
      | cons d t =>
        obtain ⟨rfl, rfl⟩ := List.cons.inj heq
        exact ⟨hname.1, t, rfl, hname.2⟩

/-- In front of a colon, a text without line breaks is a scheme if and only if it is a name. -/
theorem isScheme_iff_of_not_mem (h : '\n' ∉ s) : isScheme s ↔ SchemeName s := by
  rw [isScheme_iff, or_iff_left]
  rintro ⟨name, -, rfl⟩
  exact h (List.mem_append_right name List.mem_cons_self)

/-! ### Faults -/

/-- An identifier breaks the rules if it is empty, if a character is barred or a percent sign starts
no escape, or if the text before its first colon and the one behind it are found `bad`. -/
def Breaks (bad : Text → Text → Prop) (s : Text) : Prop :=
  s = [] ∨ (∃ name rest, s = name ++ ':' :: rest ∧ ':' ∉ name ∧ bad name rest) ∨
    (∃ c ∈ s, Barred c) ∨ ¬Escapes s

/-- Nothing stands before the colon, or the name of a scheme does and nothing stands behind it but
perhaps a fragment. -/
def Incomplete (name rest : Text) : Prop := name = [] ∨ SchemeName name ∧ before '#' rest = []

/-- What stands before the colon is not the name of a scheme, or nothing stands behind it but
perhaps a fragment. -/
def IllFormed (name rest : Text) : Prop := ¬SchemeName name ∨ before '#' rest = []

private theorem not_breaks_iff {bad : Text → Text → Prop} : ¬Breaks bad s ↔
    s ≠ [] ∧ (∀ name rest, s = name ++ ':' :: rest → ':' ∉ name → ¬bad name rest) ∧ Clean s := by
  rw [Breaks, ← not_clean_iff, not_or, not_or, not_not]
  simp only [not_exists, not_and, Ne]

/-- A fault is found in an identifier if and only if it breaks the rules. -/
theorem fault?_ne_none_iff : fault? s ≠ none ↔ Breaks Incomplete s := by
  rw [← not_iff_not, not_breaks_iff, Ne, not_not, fault?_eq_none_iff]
  refine and_congr_right fun _ => and_comm.trans (and_congr_left fun hclean => ?_)
  -- a line break is barred, so that none is at the end of a scheme
  have hscheme : ∀ name rest, s = name ++ ':' :: rest → (isScheme name ↔ SchemeName name) := by
    rintro name rest rfl
    refine isScheme_iff_of_not_mem fun h => ?_
    have hlegal : isIllegal '\n' = false := hclean.legal '\n' (List.mem_append_left _ h)
    exact absurd hlegal (by decide)
  constructor
  · rintro h name rest rfl hname
    obtain ⟨hne, hrest⟩ := h rest (after?_append_cons hname rest)
    rw [before_append_cons hname, hscheme name rest rfl] at hrest
    rw [before_append_cons hname] at hne
    exact fun hbad => hbad.elim hne fun hempty => hrest hempty.1 hempty.2
  · intro h rest hrest
    have hs := before_append_after hrest
    have hgood := h _ rest hs.symm (not_mem_before ':' s)
    rw [hscheme _ rest hs.symm]
    exact ⟨fun hne => hgood (.inl hne), fun hname hempty => hgood (.inr ⟨hname, hempty⟩)⟩

/-- The identifier keeps the rules for characters, but a text that is not the name of a scheme
stands before its first colon. -/
structure IllNamed (s : Text) : Prop where
  exists_name : ∃ name rest, s = name ++ ':' :: rest ∧ ':' ∉ name ∧ name ≠ [] ∧ ¬SchemeName name
  clean : Clean s

/-- No fault is found in an ill-named identifier. -/
theorem IllNamed.not_breaks (h : IllNamed s) : ¬Breaks Incomplete s := by
  obtain ⟨name, rest, rfl, hname, hne, hbad⟩ := h.exists_name
  refine not_breaks_iff.mpr ⟨by simp, fun other tail heq hother => ?_, h.clean⟩
  rw [← eq_of_append_cons_eq hname hother heq]
  exact fun hincomplete => hincomplete.elim hne fun hempty => hbad hempty.1

/-- The stricter rules are broken by ill-named identifiers besides. -/
theorem breaks_illFormed_iff : Breaks IllFormed s ↔ Breaks Incomplete s ∨ IllNamed s := by
  constructor
  · rintro (hnil | ⟨name, rest, hs, hname, hbad⟩ | hrules)
    · exact .inl (.inl hnil)
    · by_cases hclean : Clean s
      · by_cases hincomplete : Incomplete name rest
        · exact .inl (.inr (.inl ⟨name, rest, hs, hname, hincomplete⟩))
        · rw [Incomplete, not_or, not_and] at hincomplete
          refine .inr ⟨⟨name, rest, hs, hname, hincomplete.1, fun hscheme => ?_⟩, hclean⟩
          exact hbad.elim (fun h => h hscheme) (hincomplete.2 hscheme)
      · exact .inl (.inr (.inr (not_clean_iff.mp hclean)))
    · exact .inl (.inr (.inr hrules))
  · rintro ((hnil | ⟨name, rest, hs, hname, hbad⟩ | hrules) | hill)
    · exact .inl hnil
    · refine .inr (.inl ⟨name, rest, hs, hname, ?_⟩)
      rcases hbad with rfl | ⟨-, hempty⟩
      · exact .inl id
      · exact .inr hempty
    · exact .inr (.inr hrules)
    · obtain ⟨name, rest, hs, hname, -, hbad⟩ := hill.exists_name
      exact .inr (.inl ⟨name, rest, hs, hname, .inl hbad⟩)

end EntryRef.Identifier
