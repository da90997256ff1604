import EntryRef.Path.Posix
import EntryRef.Proofs.Text.Cutting
import Mathlib.Data.List.TakeWhile

/-!
# Slash-separated paths are read back

The segments of a path that was read are not empty, are not `.`, and have no slash (`IsSegment`).
Such paths are read back from their shortest form (`Posix.ofText_toText`).

A segment behind a path and a slash makes a path below that one: its parent is the path, as long as
the path does not consist of slashes alone, in front of which further slashes mean something else
(`Posix.ofText_append_cons`).
-/

namespace EntryRef.Path

open Text

/-! ### Segments -/

/-- The text is a segment of a path that counts. -/
structure IsSegment (sep : Char) (s : Text) : Prop where
  ne_nil : s ≠ []
  ne_dot : s ≠ ['.']
  not_mem : sep ∉ s

variable {sep : Char} {s : Text}

/-- The named segments of a text are segments. -/
theorem isSegment_of_mem {t : Text} (h : s ∈ namedSegments sep t) : IsSegment sep s := by
  obtain ⟨hpiece, hnamed⟩ := List.mem_filter.mp h
  simp only [Bool.and_eq_true, Bool.not_eq_true', List.isEmpty_eq_false_iff, bne_iff_ne] at hnamed
  exact ⟨hnamed.1, hnamed.2, not_mem_of_mem_pieces hpiece⟩

theorem IsSegment.named (h : IsSegment sep s) : (!s.isEmpty && s != ['.']) = true := by
  simp only [Bool.and_eq_true, Bool.not_eq_true', List.isEmpty_eq_false_iff, bne_iff_ne]
  exact ⟨h.ne_nil, h.ne_dot⟩

/-- A segment is its own only one. -/
theorem IsSegment.namedSegments_eq (h : IsSegment sep s) : namedSegments sep s = [s] := by
  rw [namedSegments, namesBetween, pieces_eq_self h.not_mem]
  exact List.filter_cons_of_pos h.named

@[simp]
theorem namedSegments_nil (sep : Char) : namedSegments sep [] = [] := rfl

/-- The named segments before a separator and those behind it are all there are. -/
theorem namedSegments_append_sep (s t : Text) :
    namedSegments sep (s ++ sep :: t) = namedSegments sep s ++ namedSegments sep t := by
  rw [namedSegments, namesBetween, pieces_append_sep, List.filter_append]
  rfl

/-- Segments that are joined are found again. -/
private theorem namedSegments_joined {ps : List Text} (h : ∀ p ∈ ps, IsSegment sep p) :
    namedSegments sep (joined [sep] ps) = ps := by
  cases ps with
  | nil => rfl
  | cons p ps =>
    rw [namedSegments, namesBetween,
      pieces_joined (List.cons_ne_nil p ps) fun q hq => (h q hq).not_mem, List.filter_eq_self]
    exact fun q hq => (h q hq).named

namespace Posix

/-! ### Anchors -/

/-- One slash in front is the root. -/
private theorem anchorOf_cons_slash (s : Text) (h : s.takeWhile (· == '/') = []) :
    anchorOf ('/' :: s) = .root := by
  rw [anchorOf, anchorBehind, List.takeWhile_cons_of_pos rfl, h]
  rfl

/-- Two slashes in front, and no more, are a root of their own. -/
private theorem anchorOf_cons_cons_slash (s : Text) (h : s.takeWhile (· == '/') = []) :
    anchorOf ('/' :: '/' :: s) = .doubleRoot := by
  rw [anchorOf, anchorBehind, List.takeWhile_cons_of_pos rfl, List.takeWhile_cons_of_pos rfl, h]
  rfl

/-- What follows a text does not matter for its anchor, unless the text has slashes alone. -/
theorem anchorOf_append {root : Text} (h : ∃ c ∈ root, c ≠ '/') (s : Text) :
    anchorOf (root ++ s) = anchorOf root := by
  obtain ⟨c, hc, hne⟩ := h
  -- the slashes in front end within the text
  have hlt : (root.takeWhile (· == '/')).length ≠ root.length := by
    intro heq
    have hall := List.takeWhile_eq_self_iff.mp ((List.takeWhile_prefix _).eq_of_length heq)
    exact hne (beq_iff_eq.mp (hall c hc))
  rw [anchorOf, anchorBehind, List.takeWhile_append, if_neg hlt]
  rfl

/-- Absolute paths are written with a slash in front. -/
theorem isAbsolute_ofText (s : Text) : (ofText s).isAbsolute = (s.head? == some '/') := by
  cases s with
  | nil => rfl
  | cons c r =>
    by_cases hc : c = '/'
    · subst hc
      rw [Slashed.isAbsolute, ofText, anchorOf, anchorBehind, List.takeWhile_cons_of_pos rfl,
        List.length_cons]
      -- two slashes in front have an anchor of their own
      by_cases hone : (r.takeWhile (· == '/')).length = 1
      · rw [hone]
        rfl
      · split
        · omega
        · omega
        · rfl
    · rw [Slashed.isAbsolute, ofText, anchorOf, anchorBehind,
        List.takeWhile_cons_of_neg (by simpa using hc)]
      simp [hc]

private theorem takeWhile_joined {ps : List Text} (h : ∀ p ∈ ps, IsSegment '/' p) :
    (joined "/" ps).takeWhile (· == '/') = [] := by
  cases ps with
  | nil => rfl
  | cons p ps =>
    have hp : IsSegment '/' p := h p List.mem_cons_self
    obtain ⟨c, r, rfl⟩ := List.exists_cons_of_ne_nil hp.ne_nil
    have hc : c ≠ '/' := fun heq => hp.not_mem (heq ▸ List.mem_cons_self)
    exact List.takeWhile_cons_of_neg (by simpa using hc)

/-! ### Paths -/

/-- **Round trip.** A path with proper segments is read back from its shortest form. -/
theorem ofText_toText {p : Posix} (h : ∀ s ∈ p.segments, IsSegment '/' s) :
    ofText p.toText = p := by
  obtain ⟨anchor, segments⟩ := p
  have hanchor : (joined "/" segments).takeWhile (· == '/') = [] := takeWhile_joined h
  have hsegments : namedSegments '/' (joined "/" segments) = segments := namedSegments_joined h
  have hslash : ∀ s, namedSegments '/' ('/' :: s) = namedSegments '/' s :=
    fun s => namedSegments_append_sep [] s
  cases anchor with
  | relative =>
    by_cases hempty : joined "/" segments = []
    · rw [hempty, namedSegments_nil] at hsegments
      subst hsegments
      rfl
    · have htext : toText ⟨.relative, segments⟩ = joined "/" segments :=
        if_neg (by rwa [List.isEmpty_iff])
      rw [htext, ofText, hsegments, anchorOf, anchorBehind, hanchor]
      rfl
  | root =>
    change ofText ('/' :: joined "/" segments) = _
    rw [ofText, anchorOf_cons_slash _ hanchor, hslash, hsegments]
  | doubleRoot =>
    change ofText ('/' :: '/' :: joined "/" segments) = _
    rw [ofText, anchorOf_cons_cons_slash _ hanchor, hslash, hslash, hsegments]

/-- What is read of a path has segments alone. -/
theorem isSegment_of_mem_ofText {s t : Text} (h : t ∈ (ofText s).segments) : IsSegment '/' t :=
  isSegment_of_mem h

/-- The shortest form of a path leaves characters out, if there is a segment. -/
theorem toText_ofText_sublist {s : Text} (h : (ofText s).segments ≠ []) :
    (ofText s).toText.Sublist s := by
  have hjoined : ∀ t, (joined ['/'] (namedSegments '/' t)).Sublist t := by
    intro t
    have hpieces := joined_sublist ['/'] (List.filter_sublist
      (l := pieces '/' t) (p := fun p => !p.isEmpty && p != ['.']))
    rwa [joined_pieces] at hpieces
  have hslash : ∀ t, namedSegments '/' ('/' :: t) = namedSegments '/' t :=
    fun t => namedSegments_append_sep [] t
  -- the slashes of the anchor are there in front
  have hslashes : s = List.replicate (s.takeWhile (· == '/')).length '/' ++
      s.dropWhile (· == '/') := by
    have hall : ∀ c ∈ s.takeWhile (· == '/'), c = '/' := fun c hc =>
      beq_iff_eq.mp (List.mem_takeWhile_imp (p := (· == '/')) hc)
    rw [← List.eq_replicate_of_mem hall, List.takeWhile_append_dropWhile]
  rw [toText, Slashed.written, ofText, anchorOf, anchorBehind]
  split
  · next hanchor =>
    dsimp only
    split
    · next hempty =>
      obtain ⟨t, ht⟩ := List.exists_mem_of_ne_nil _ h
      obtain ⟨c, hc⟩ := List.exists_mem_of_ne_nil _ (isSegment_of_mem ht).ne_nil
      exact absurd (List.isEmpty_iff.mp hempty) (List.ne_nil_of_mem (mem_joined_of_mem ht hc))
    · exact hjoined s
  · next hanchor =>
    obtain ⟨r, hr⟩ : ∃ r, s = '/' :: r := by
      cases hcount : (s.takeWhile (· == '/')).length with
      | zero =>
        rw [hcount] at hanchor
        cases hanchor
      | succ n =>
        rw [hcount, List.replicate_succ] at hslashes
        exact ⟨_, hslashes⟩
    rw [hr, hslash]
    exact (hjoined r).cons_cons '/'
  · next hanchor =>
    obtain ⟨r, hr⟩ : ∃ r, s = '/' :: '/' :: r := by
      split at hanchor
      · cases hanchor
      · next hcount =>
        rw [hcount] at hslashes
        exact ⟨_, hslashes⟩
      · cases hanchor
    rw [hr, hslash, hslash]
    exact ((hjoined r).cons_cons '/').cons_cons '/'

/-- A segment behind a path, unless that has slashes alone, makes a path below it. -/
theorem ofText_append_cons {root name : Text} (hroot : ∃ c ∈ root, c ≠ '/')
    (hname : IsSegment '/' name) :
    ofText (root ++ '/' :: name) = ⟨anchorOf root, namedSegments '/' root ++ [name]⟩ := by
  rw [ofText, anchorOf_append hroot, namedSegments_append_sep, hname.namedSegments_eq]

end Posix

end EntryRef.Path
