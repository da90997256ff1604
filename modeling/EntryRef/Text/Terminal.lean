import EntryRef.Text.Word

/-!
# What a terminal shows

A terminal takes some sequences of characters as commands and shows nothing for them. Here these are
control sequences, such as a change of colour, and hyperlinks, of which only the label shows.

* `visible` is what is left to see of a text,
* `hasSequence` tells whether a text holds such a sequence.

The main statements are `visible_eq_self` and `hasSequence_eq_false`: a text without the escape
character shows as it is.
-/

namespace EntryRef.Text

/-- The character that sequences start with. -/
def escape : Char := '\x1b'

/-- Does the character code lie in the closed range? -/
def lies (lo hi : Nat) (c : Char) : Bool := lo ≤ c.toNat && c.toNat ≤ hi

/-! ### Control sequences -/

/-- What follows a control sequence, given what follows its bracket: parameters, intermediate
characters and a final character make up the sequence. -/
def afterControl? (s : Text) : Option Text :=
  match (s.dropWhile (lies 0x30 0x3f)).dropWhile (lies 0x20 0x2f) with
  | c :: r => if lies 0x40 0x7e c then some r else none
  | [] => none

/-! ### Hyperlinks -/

/-- What stands between the equals signs of two parameters: the value of one and the name of the
next, with or without a colon between them. -/
def isValueAndName (s : Text) : Bool :=
  match pieces ':' s with
  | [p] => isWord p && 2 ≤ p.length
  | [p, q] => isWord p && isWord q
  | _ => false

/-- The value of the last parameter, with or without a colon behind it. -/
def isLastValue (s : Text) : Bool :=
  match pieces ':' s with
  | [p] => isWord p
  | [p, q] => isWord p && q.isEmpty
  | _ => false

/-- The texts behind the first equals sign of parameters, cut at the others. -/
def areValues : List Text → Bool
  | [] => false
  | [last] => isLastValue last
  | p :: ps => isValueAndName p && areValues ps

/-- Is the text a list of parameters `name=value`? The colon behind a value may be left out. -/
def isParameters (s : Text) : Bool :=
  match pieces '=' s with
  | [] => true
  | [p] => p.isEmpty
  | name :: rest => isWord name && areValues rest

/-- The characters up to the escape character, if there are any, and what follows that character. -/
def untilEscape? (s : Text) : Option (Text × Text) :=
  match before escape s, after? escape s with
  | c :: r, some rest => some (c :: r, rest)
  | _, _ => none

/-- What closes a hyperlink, behind an escape character. -/
def linkEnd : Text := [']', '8', ';', ';', escape, '\\']

/-- The label of a hyperlink and what follows it, given what follows its bracket: the number 8, the
parameters and the target in front of the label. -/
def link? (s : Text) : Option (Text × Text) :=
  match s with
  | '8' :: ';' :: r =>
    match after? ';' r with
    | none => none
    | some r' =>
      if !isParameters (before ';' r) then none
      else match untilEscape? r' with
        | some (_, '\\' :: body) =>
          match untilEscape? body with
          | some (label, rest) =>
            if linkEnd.isPrefixOf rest then some (label, rest.drop linkEnd.length) else none
          | none => none
        | _ => none
  | _ => none

/-! ### Texts -/

/-- What a sequence at the start of a text shows and what follows it, given the text's first
character and the others. -/
def sequence? (c : Char) (r : Text) : Option (Text × Text) :=
  if c = escape then
    match r with
    | '[' :: s => (afterControl? s).map fun rest => ([], rest)
    | ']' :: s => link? s
    | _ => none
  else none

private theorem length_le_of_afterControl? {s r : Text} (h : afterControl? s = some r) :
    r.length ≤ s.length := by
  have hd : ∀ (p q : Char → Bool) (t : Text), ((t.dropWhile p).dropWhile q).length ≤ t.length :=
    fun p q t => (((List.dropWhile_sublist q).trans (List.dropWhile_sublist p)).length_le)
  unfold afterControl? at h
  split at h
  · next c t ht =>
    split at h
    · have := hd (lies 0x30 0x3f) (lies 0x20 0x2f) s
      rw [ht, Option.some.inj h, List.length_cons] at this
      omega
    · simp at h
  · simp at h

private theorem length_le_of_untilEscape? {s t r : Text} (h : untilEscape? s = some (t, r)) :
    r.length ≤ s.length := by
  unfold untilEscape? at h
  split at h
  · next c p rest _ hr =>
    have := length_le_of_after? hr
    grind
  · simp at h

private theorem length_le_of_link? {s t r : Text} (h : link? s = some (t, r)) :
    r.length ≤ s.length := by
  unfold link? at h
  split at h
  · next u =>
    split at h
    · simp at h
    · next u' hu =>
      have h₁ := length_le_of_after? hu
      split at h
      · simp at h
      · split at h
        · next x body hx =>
          have h₂ := length_le_of_untilEscape? hx
          split at h
          · next label rest hl =>
            have h₃ := length_le_of_untilEscape? hl
            split at h
            · simp only [Option.some.injEq, Prod.mk.injEq] at h
              have h₄ : r.length ≤ rest.length := by rw [← h.2]; simp
              simp only [List.length_cons] at h₂ ⊢
              omega
            · simp at h
          · simp at h
        · simp at h
  · simp at h

/-- What follows a sequence is no longer than what follows its first character. -/
theorem length_le_of_sequence? {c : Char} {r t rest : Text} (h : sequence? c r = some (t, rest)) :
    rest.length ≤ r.length := by
  unfold sequence? at h
  split at h
  · split at h
    · next s =>
      obtain ⟨u, hu, he⟩ := Option.map_eq_some_iff.1 h
      have := length_le_of_afterControl? hu
      simp only [Prod.mk.injEq] at he
      rw [← he.2, List.length_cons]
      omega
    · have := length_le_of_link? h
      rw [List.length_cons]
      omega
    · simp at h
  · simp at h

/-- Only the escape character starts a sequence. -/
theorem sequence?_eq_none {c : Char} (h : c ≠ escape) (r : Text) : sequence? c r = none :=
  if_neg h

/-- What shows of a text. -/
def visible (s : Text) : Text :=
  (chop (fun c r => (sequence? c r).getD ([c], r)) s).flatten

/-- Does the text hold a sequence that shows otherwise than it is written? -/
def hasSequence (s : Text) : Bool :=
  (chop (fun c r => ((sequence? c r).isSome, ((sequence? c r).map (·.2)).getD r)) s).any id

/-- A text without the escape character shows as it is. -/
theorem visible_eq_self {s : Text} (h : escape ∉ s) : visible s = s := by
  have hstep : ∀ (c : Char) (r : Text), ((sequence? c r).getD ([c], r)).2.length ≤ r.length := by
    intro c r
    cases hs : sequence? c r with
    | none => simp
    | some p => exact length_le_of_sequence? hs
  induction s with
  | nil => simp [visible]
  | cons c r ih =>
    rw [List.mem_cons, not_or] at h
    have hr : visible r = r := ih h.2
    rw [visible] at hr ⊢
    rw [chop_cons hstep, sequence?_eq_none (Ne.symm h.1)]
    simp [hr]

/-- A text without the escape character holds no sequence. -/
theorem hasSequence_eq_false {s : Text} (h : escape ∉ s) : hasSequence s = false := by
  have hstep : ∀ (c : Char) (r : Text),
      ((sequence? c r).isSome, ((sequence? c r).map (·.2)).getD r).2.length ≤ r.length := by
    intro c r
    cases hs : sequence? c r with
    | none => simp
    | some p => exact length_le_of_sequence? hs
  induction s with
  | nil => simp [hasSequence]
  | cons c r ih =>
    rw [List.mem_cons, not_or] at h
    have hr : hasSequence r = false := ih h.2
    rw [hasSequence] at hr ⊢
    rw [chop_cons hstep, sequence?_eq_none (Ne.symm h.1), List.any_cons]
    simpa using hr

end EntryRef.Text
