/-!
# Texts and byte strings

Everything that this library reads or prints is a list: a `Text` is a list of characters, `Bytes` a
list of octets. Here are the few ways in which a text is cut:

* `before` and `after?` cut at the first occurrence of a character,
* `pieces` cuts at every occurrence,
* `throughLast` and `afterLast` cut behind the last occurrence, `aroundLast` does so for a separator
  of any length,
* `chop` reads a list in steps that each take at least one element.

The first two cut lists of anything, as the names of files may have more than characters.

The main statements are `throughLast_append_afterLast` (nothing is lost at a cut), `chop_cons` (the
step equation, after which nobody unfolds `chop`) and `chop_induction`.
-/

namespace EntryRef

/-- A text is the list of its characters. -/
abbrev Text := List Char

/-- A byte string is the list of its octets. -/
abbrev Bytes := List UInt8

/-- A literal may stand where a text is expected. -/
instance : Coe String Text := ⟨String.toList⟩

namespace Text

/-! ### Cutting at the first occurrence -/

section Cuts

variable {α : Type} [DecidableEq α]

/-- The characters before the first `c`, or all of them if there is none. -/
def before (c : α) (s : List α) : List α := s.takeWhile (· != c)

/-- The characters after the first `c`, if there is one. -/
def after? (c : α) (s : List α) : Option (List α) :=
  match s.dropWhile (· != c) with
  | [] => none
  | _ :: r => some r

theorem before_subset (c : α) (s : List α) : before c s ⊆ s :=
  (List.takeWhile_sublist _).subset

/-- What stands before the first separator has none. -/
theorem not_mem_before (c : α) (s : List α) : c ∉ before c s := by
  intro h
  induction s with
  | nil => simp [before] at h
  | cons x r ih =>
    by_cases hx : x = c
    · subst hx
      simp [before] at h
    · rw [before, List.takeWhile_cons_of_pos (by simpa using hx), List.mem_cons] at h
      rcases h with rfl | h
      · exact hx rfl
      · exact ih h

theorem after?_subset {c : α} {s r : List α} (h : after? c s = some r) : r ⊆ s := by
  have hd : s.dropWhile (· != c) ⊆ s := (List.dropWhile_sublist _).subset
  unfold after? at h
  split at h
  · simp at h
  · next x t ht =>
    rw [← Option.some.inj h]
    exact fun y hy => hd (by rw [ht]; exact List.mem_cons_of_mem x hy)

/-- What stands behind a separator is no longer than the whole. -/
theorem length_le_of_after? {c : α} {s r : List α} (h : after? c s = some r) :
    r.length ≤ s.length := by
  have hd : (s.dropWhile (· != c)).length ≤ s.length := (List.dropWhile_sublist _).length_le
  unfold after? at h
  split at h
  · simp at h
  · next x t ht =>
    rw [ht, List.length_cons, Option.some.inj h] at hd
    omega

/-! ### Cutting at every occurrence -/

/-- The texts between the occurrences of `c`; a text without `c` is one piece. -/
def pieces (c : α) (s : List α) : List (List α) :=
  s.foldr (fun x ps => if x = c then [] :: ps else
    match ps with
    | [] => [[x]]
    | p :: rest => (x :: p) :: rest) [[]]

/-- Texts with a separator between each two. -/
def joined {α : Type} (sep : List α) : List (List α) → List α
  | [] => []
  | p :: ps => p ++ ps.flatMap (sep ++ ·)

end Cuts

/-! ### Cutting behind the last occurrence -/

/-- The characters up to the last `c`, with it; none if there is no `c`. -/
def throughLast (c : Char) (s : Text) : Text := (s.reverse.dropWhile (· != c)).reverse

/-- The characters after the last `c`, or all of them if there is none. -/
def afterLast (c : Char) (s : Text) : Text := (s.reverse.takeWhile (· != c)).reverse

/-- The two parts of a cut at the last separator make the whole. -/
theorem throughLast_append_afterLast (c : Char) (s : Text) :
    throughLast c s ++ afterLast c s = s := by
  rw [throughLast, afterLast, ← List.reverse_append, List.takeWhile_append_dropWhile,
    List.reverse_reverse]

/-- The index of the last place where `sep` stands in `s`, or `best` if it stands nowhere;
`i` is the index of the text's first character. -/
def lastIndex (sep : Text) : Text → Nat → Option Nat → Option Nat
  | [], i, best => if sep.isEmpty then some i else best
  | x :: r, i, best => lastIndex sep r (i + 1) (if sep.isPrefixOf (x :: r) then some i else best)

/-- Cuts `s` behind the last place where `sep` stands. Where it stands nowhere, the cut is one
character short of the separator's length from the start, which for a separator of one character
leaves the left side empty. -/
def aroundLast (sep s : Text) : Text × Text :=
  match lastIndex sep s 0 none with
  | some i => s.splitAt (i + sep.length)
  | none => s.splitAt (sep.length - 1)

/-! ### Stripping -/

/-- Drops the leading characters that satisfy `p`. -/
def dropLeading (p : Char → Bool) (s : Text) : Text := s.dropWhile p

/-- Drops the trailing characters that satisfy `p`. -/
def dropTrailing (p : Char → Bool) (s : Text) : Text := (s.reverse.dropWhile p).reverse

/-- Drops the characters at both ends that satisfy `p`. -/
def strip (p : Char → Bool) (s : Text) : Text := dropTrailing p (dropLeading p s)

/-! ### Order -/

/-- Is the first text the second one, or does it stand before it? Characters are in the order of
their code points. -/
def inOrder : Text → Text → Bool
  | [], _ => true
  | _ :: _, [] => false
  | c :: r, d :: s => c.toNat < d.toNat || (c == d && inOrder r s)

/-! ### Digits -/

/-- The value of a hexadecimal digit, in either case. -/
def hexValue? (c : Char) : Option Nat :=
  if '0' ≤ c ∧ c ≤ '9' then some (c.toNat - '0'.toNat)
  else if 'a' ≤ c ∧ c ≤ 'f' then some (c.toNat - 'a'.toNat + 10)
  else if 'A' ≤ c ∧ c ≤ 'F' then some (c.toNat - 'A'.toNat + 10)
  else none

/-- Is `c` a hexadecimal digit? -/
def isHex (c : Char) : Bool := (hexValue? c).isSome

/-- The decimal digits of a number. -/
def ofNat (n : Nat) : Text := Nat.toDigits 10 n

/-- The decimal digits of an integer, after a minus sign if it is negative. -/
def ofInt : Int → Text
  | .ofNat n => ofNat n
  | .negSucc n => '-' :: ofNat (n + 1)

/-- The last `width` lower-case hexadecimal digits of a number, with zeros in front. -/
def hex (width n : Nat) : Text :=
  (List.range width).reverse.map fun i => (n >>> (4 * i) % 16).digitChar

end Text

/-! ### Reading a list in steps -/

section Chop

variable {α β : Type}

/-- Takes at most `fuel` steps through a list and collects what they read behind `acc`. -/
def chopOnto (step : α → List α → β × List α) : Nat → List α → Array β → Array β
  | 0, _, acc => acc
  | _ + 1, [], acc => acc
  | fuel + 1, x :: r, acc => chopOnto step fuel (step x r).2 (acc.push (step x r).1)

/-- Reads a list in steps. A step is given the first element and those after it, and answers with
what it read and with what is left; a step that leaves no more than it was given beyond the first
element ends the reading after at most as many steps as there are elements. -/
def chop (step : α → List α → β × List α) (s : List α) : List β :=
  (chopOnto step s.length s #[]).toList

private theorem toList_chopOnto (step : α → List α → β × List α) (fuel : Nat) (s : List α)
    (acc : Array β) :
    (chopOnto step fuel s acc).toList = acc.toList ++ (chopOnto step fuel s #[]).toList := by
  induction fuel generalizing s acc with
  | zero => simp [chopOnto]
  | succ fuel ih =>
    cases s with
    | nil => simp [chopOnto]
    | cons x r =>
      rw [chopOnto, ih, chopOnto, ih (step x r).2 (#[].push _)]
      simp

/-- More fuel than characters makes no difference. -/
private theorem chopOnto_of_le {step : α → List α → β × List α}
    (hstep : ∀ x r, (step x r).2.length ≤ r.length) {fuel : Nat} {s : List α}
    (h : s.length ≤ fuel) (acc : Array β) :
    chopOnto step fuel s acc = chopOnto step s.length s acc := by
  induction fuel using Nat.strongRecOn generalizing s acc with
  | ind fuel ih =>
    cases s with
    | nil => cases fuel <;> simp [chopOnto]
    | cons x r =>
      cases fuel with
      | zero => simp at h
      | succ fuel =>
        have hle : (step x r).2.length ≤ fuel :=
          Nat.le_trans (hstep x r) (by simpa using h)
        simp only [List.length_cons, chopOnto]
        rw [ih fuel (by omega) hle]
        by_cases hr : r.length < fuel + 1
        · rw [ih r.length hr (hstep x r)]
        · simp only [List.length_cons] at h
          omega

@[simp]
theorem chop_nil (step : α → List α → β × List α) : chop step [] = [] := by
  simp [chop, chopOnto]

/-- The step equation: the first step reads the head, and the rest is read from what it leaves. -/
theorem chop_cons {step : α → List α → β × List α}
    (hstep : ∀ x r, (step x r).2.length ≤ r.length) (x : α) (r : List α) :
    chop step (x :: r) = (step x r).1 :: chop step (step x r).2 := by
  rw [chop, List.length_cons, chopOnto, toList_chopOnto, chopOnto_of_le hstep (hstep x r), chop]
  simp

/-- Induction along a reading: what holds of the list that a step leaves holds of the one that it
was given. -/
theorem chop_induction (step : α → List α → β × List α)
    (hstep : ∀ x r, (step x r).2.length ≤ r.length) {motive : List α → Prop} (nil : motive [])
    (cons : ∀ x r, motive (step x r).2 → motive (x :: r)) (s : List α) : motive s := by
  -- on the length, since a step may take several elements
  induction hn : s.length using Nat.strongRecOn generalizing s with
  | ind n ih =>
    cases s with
    | nil => exact nil
    | cons x r =>
      have hlt : (step x r).2.length < n := by
        rw [← hn, List.length_cons]
        exact Nat.lt_succ_of_le (hstep x r)
      exact cons x r (ih _ hlt _ rfl)

end Chop

end EntryRef
