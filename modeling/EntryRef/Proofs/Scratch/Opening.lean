import EntryRef.Proofs.Path.FileUri
import EntryRef.Scratch.Opening

/-!
# Scratch directories that have been opened

A scratch directory that was opened is open, is empty, and has a path that does not consist of
slashes alone (`openDirectory_spec`). The last point is what keeps its files below it. It holds
since the last segment of the path is the directory's own name, which starts with `tmp` and so is
not swallowed where the path is made plain.

Whether it is opened or lost, a directory that is made is right in one that exists
(`openDirectory_cases`): the plain form of its path leads through the same segments that the system
walks along.
-/

namespace EntryRef.Scratch

open Text EntryRef.Path

/-! ### Plain paths -/

/-- A segment that does not go up stays at the end of the plain form. -/
theorem segments_plain_of_ne {p : Posix} {ss : List Text} {s : Text}
    (hp : p.segments = ss ++ [s]) (hs : s ≠ ['.', '.']) :
    (plain p).segments = (ss.foldl (climb p.isAbsolute) []).reverse ++ [s] := by
  have hclimb : ∀ up, climb p.isAbsolute up s = s :: up := fun up => if_neg hs
  simp only [plain, hp, List.foldl_append, List.foldl_cons, List.foldl_nil, hclimb,
    List.reverse_cons]

/-- The characters of a segment are in the text of a path. -/
theorem mem_toText {p : Posix} {s : Text} (hs : s ∈ p.segments) {c : Char} (hc : c ∈ s) :
    c ∈ p.toText := by
  have hmem : c ∈ joined "/" p.segments := mem_joined_of_mem hs hc
  rw [Posix.toText, Slashed.written]
  split
  · rw [if_neg]
    · exact hmem
    · rw [List.isEmpty_iff]
      exact List.ne_nil_of_mem hmem
  · exact List.mem_cons_of_mem _ hmem
  · exact List.mem_cons_of_mem _ (List.mem_cons_of_mem _ hmem)

/-- A segment that is passed stays or is taken back. -/
private theorem mem_of_mem_climb {rooted : Bool} {up : List Text} {s t : Text}
    (h : t ∈ climb rooted up s) : t ∈ up ∨ t = s := by
  unfold climb at h
  split at h
  · split at h
    · split at h
      · exact .inl h
      · exact .inr (List.mem_singleton.mp h)
    · split at h
      · exact (List.mem_cons.mp h).symm
      · exact .inl (List.mem_cons_of_mem _ h)
  · exact (List.mem_cons.mp h).symm

private theorem mem_of_mem_foldl_climb {rooted : Bool} {ss up : List Text} {t : Text}
    (h : t ∈ ss.foldl (climb rooted) up) : t ∈ up ∨ t ∈ ss := by
  induction ss generalizing up with
  | nil => exact .inl h
  | cons s ss ih =>
    rcases ih h with h | h
    · exact (mem_of_mem_climb h).imp_right fun hts => List.mem_cons.mpr (.inl hts)
    · exact .inr (List.mem_cons_of_mem s h)

/-- Segments that do not go up are passed one after another. -/
theorem foldl_climb_of_straight {rooted : Bool} {ss : List Text} (h : ['.', '.'] ∉ ss)
    (up : List Text) : ss.foldl (climb rooted) up = ss.reverse ++ up := by
  induction ss generalizing up with
  | nil => rfl
  | cons s ss ih =>
    rw [List.mem_cons, not_or] at h
    have hclimb : climb rooted up s = s :: up := if_neg (Ne.symm h.1)
    rw [List.foldl_cons, hclimb, ih h.2, List.reverse_cons, List.append_assoc]
    rfl

/-- The plain text of a path is read as the path in its plain form. -/
theorem ofText_plainText {cwd : Posix} (hcwd : ∀ t ∈ cwd.segments, IsSegment '/' t)
    (path : Text) : Posix.ofText (plainText cwd path) =
      plain ((Posix.ofText path).absolute cwd) := by
  refine Posix.ofText_toText fun t ht => ?_
  have hmem : t ∈ ((Posix.ofText path).absolute cwd).segments :=
    (mem_of_mem_foldl_climb (List.mem_reverse.mp ht)).resolve_left List.not_mem_nil
  rw [Posix.absolute, Slashed.absolute] at hmem
  split at hmem
  · exact Posix.isSegment_of_mem_ofText hmem
  · rcases List.mem_append.mp hmem with hmem | hmem
    · exact hcwd t hmem
    · exact Posix.isSegment_of_mem_ofText hmem

/-! ### Names of directories -/

/-- Slashes behind a text add no segments. -/
private theorem namedSegments_append_slashes (s : Text) {t : Text} (ht : ∀ c ∈ t, c = '/') :
    namedSegments '/' (s ++ t) = namedSegments '/' s := by
  induction t generalizing s with
  | nil => rw [List.append_nil]
  | cons c t ih =>
    obtain rfl : c = '/' := ht c List.mem_cons_self
    have hslashes := ih [] fun c hc => ht c (List.mem_cons_of_mem _ hc)
    rw [List.nil_append, namedSegments_nil] at hslashes
    rw [namedSegments_append_sep, hslashes, List.append_nil]

/-- A name without slashes, but for some behind it, is one segment. -/
private theorem namedSegments_name {full : Text} (hhead : full.head? = some 't')
    (hdeep : '/' ∉ dropTrailing (· == '/') full) :
    ∃ last, 't' ∈ last ∧ namedSegments '/' full = [last] := by
  obtain ⟨slashes, hcut, hslashes⟩ := exists_dropTrailing_append '/' full
  have hmem : 't' ∈ dropTrailing (· == '/') full := by
    have ht : 't' ∈ full := List.mem_of_head? hhead
    rw [hcut, List.mem_append] at ht
    exact ht.resolve_right fun ht => absurd (hslashes _ ht) (by decide)
  have hsegment : IsSegment '/' (dropTrailing (· == '/') full) := by
    refine ⟨List.ne_nil_of_mem hmem, fun h => ?_, hdeep⟩
    rw [h] at hmem
    exact absurd hmem (by decide)
  have hnamed := namedSegments_append_slashes (dropTrailing (· == '/') full) hslashes
  rw [← hcut, hsegment.namedSegments_eq] at hnamed
  exact ⟨_, hmem, hnamed⟩

/-- The segments of a name are the last ones of its path in a directory. -/
private theorem namedSegments_within (parent name : Text) :
    namedSegments '/' (within parent name) =
      namedSegments '/' parent ++ namedSegments '/' name := by
  rw [within]
  split
  · next h =>
    rw [Bool.or_eq_true, List.isEmpty_iff, decide_eq_true_eq] at h
    rcases h with rfl | h
    · rfl
    · -- the slash at the end of the directory's path is the one that separates
      obtain ⟨ys, rfl⟩ := List.getLast?_eq_some_iff.mp h
      rw [List.append_assoc, List.singleton_append, namedSegments_append_sep,
        namedSegments_append_slashes ys fun c hc => List.mem_singleton.mp hc]
  · exact namedSegments_append_sep parent name

/-- A path in a directory is absolute if that of the directory is. -/
private theorem isAbsolute_within (parent : Text) {full : Text} (hhead : full.head? = some 't') :
    (Posix.ofText (within parent full)).isAbsolute = (Posix.ofText parent).isAbsolute := by
  rw [Posix.isAbsolute_ofText, Posix.isAbsolute_ofText]
  cases parent with
  | nil =>
    change (full.head? == some '/') = _
    rw [hhead]
    rfl
  | cons c r =>
    rw [within]
    split
    · rfl
    · rfl

/-- The name of a directory is the last segment of its path, as seen from anywhere. -/
private theorem segments_absolute_within (cwd : Posix) (parent : Text) {full : Text}
    (hhead : full.head? = some 't') (hdeep : '/' ∉ dropTrailing (· == '/') full) :
    ∃ last, 't' ∈ last ∧ ((Posix.ofText (within parent full)).absolute cwd).segments =
      ((Posix.ofText parent).absolute cwd).segments ++ [last] := by
  obtain ⟨last, hmem, hlast⟩ := namedSegments_name hhead hdeep
  have hsegments := namedSegments_within parent full
  rw [hlast] at hsegments
  refine ⟨last, hmem, ?_⟩
  rw [Posix.absolute, Posix.absolute, Slashed.absolute, Slashed.absolute,
    isAbsolute_within parent hhead]
  split
  · exact hsegments
  · exact (congrArg (cwd.segments ++ ·) hsegments).trans (List.append_assoc _ _ _).symm

/-- A directory that the system makes is in one that exists, and has a name that is a single
segment. -/
private theorem refusal?_of_make {s : Surroundings} {parent name : Text}
    (h : make s parent name = .ok ()) :
    refusal? s (origin s.cwd parent) (Posix.ofText parent).segments = none ∧
      '/' ∉ dropTrailing (· == '/') name := by
  simp only [make] at h
  -- every answer but the last is a trouble
  split at h
  · cases h
  split at h
  · cases h
  split at h
  · cases h
  next hrefusal =>
  split at h
  · cases h
  split at h
  · cases h
  next hdeep =>
  exact ⟨hrefusal, by simpa using hdeep⟩

/-! ### Opened directories -/

/-- The path of an opened directory does not have slashes alone. -/
private theorem exists_mem_plainText {cwd : Posix} {parent full : Text}
    (hhead : full.head? = some 't') (hdeep : '/' ∉ dropTrailing (· == '/') full) :
    't' ∈ plainText cwd (within parent full) := by
  obtain ⟨last, hmem, hlast⟩ := segments_absolute_within cwd parent hhead hdeep
  have hup : last ≠ ['.', '.'] := by
    rintro rfl
    exact absurd hmem (by decide)
  have hplain : last ∈ (plain ((Posix.ofText (within parent full)).absolute cwd)).segments := by
    rw [segments_plain_of_ne hlast hup]
    exact List.mem_append_right _ List.mem_cons_self
  exact mem_toText hplain hmem

/-- A directory that was opened is open and empty, and its path does not have slashes alone. -/
theorem openDirectory_spec {s : Surroundings} {default : Option Text} {r : Request} {d : Directory}
    (h : openDirectory s default r = .ok d) :
    d.closed = false ∧ d.files = some [] ∧ ∃ c ∈ d.path, c ≠ '/' := by
  rw [openDirectory] at h
  split at h
  · cases h
  next name _ =>
  simp only at h
  split at h
  · cases h
  next hmake =>
  split at h
  · rw [← Except.ok.inj h]
    refine ⟨rfl, rfl, 't', ?_, by decide⟩
    exact exists_mem_plainText rfl (refusal?_of_make hmake).2
  · cases h

/-- A directory that was opened is removed as it is asked for. -/
theorem autoClean_of_openDirectory {s : Surroundings} {default : Option Text} {r : Request}
    {d : Directory} (h : openDirectory s default r = .ok d) : d.autoClean = r.autoClean := by
  rw [openDirectory] at h
  split at h
  · cases h
  simp only at h
  split at h
  · cases h
  split at h
  · rw [← Except.ok.inj h]
  · cases h

/-- Where there is a default, there is a name. -/
theorem openDirectory_ne_noName {s : Surroundings} {r : Request} {c : Char} {rest : Text}
    {why : NoName} : openDirectory s (some (c :: rest)) r ≠ .error (.noName why) := by
  have hname : ∃ name, nameFor (some (c :: rest)) r.name = .ok name := by
    unfold nameFor
    split
    · exact ⟨_, rfl⟩
    · exact ⟨_, rfl⟩
    · next h => exact absurd rfl (h c rest)
  obtain ⟨name, hname⟩ := hname
  rw [openDirectory, hname]
  intro h
  simp only at h
  split at h
  · cases h
  split at h
  · cases h
  · rw [lostAt] at h
    split at h
    · cases h
    · cases h

/-! ### Places -/

namespace Surroundings

variable {s : Surroundings}

/-- The working directory is an absolute path that does not go up. -/
structure Settled (s : Surroundings) : Prop where
  absolute : s.cwd.isAbsolute
  isSegment : ∀ t ∈ s.cwd.segments, IsSegment '/' t
  straight : ['.', '.'] ∉ s.cwd.segments

/-- The segments lead to something right in a directory that exists. -/
def HasParent (s : Surroundings) (segments : List Text) : Prop :=
  ∃ up name, segments = up ++ [name] ∧ s.hasDirectory up

/-- What a directory is in is a directory, too. -/
theorem hasDirectory_of_isPrefix {p q : List Text} (h : p <+: q) (hq : s.hasDirectory q) :
    s.hasDirectory p := by
  obtain ⟨parent, hparent, hprefix⟩ := List.any_eq_true.mp hq
  exact List.any_eq_true.mpr ⟨parent, hparent,
    List.isPrefixOf_iff_prefix.mpr (h.trans (List.isPrefixOf_iff_prefix.mp hprefix))⟩

/-- Segments that are not refused lead to a directory. -/
theorem hasDirectory_of_refusal? {up ss : List Text} (h : refusal? s up ss = none) :
    s.hasDirectory (ss.foldl (climb true) up).reverse := by
  induction ss generalizing up with
  | nil =>
    rw [refusal?] at h
    split at h
    · assumption
    · cases h
  | cons segment rest ih =>
    simp only [refusal?] at h
    split at h
    · cases h
    split at h
    · exact ih h
    · cases h

end Surroundings

/-- The segments of a path, as it is seen from the working directory, lead where they lead from the
directory that the path starts from. -/
private theorem foldl_climb_absolute {s : Surroundings} (hs : s.Settled) (path : Text) :
    ((Posix.ofText path).absolute s.cwd).segments.foldl (climb true) [] =
      (Posix.ofText path).segments.foldl (climb true) (origin s.cwd path) := by
  rw [Posix.absolute, Slashed.absolute, origin]
  split
  · rfl
  · rw [List.foldl_append, foldl_climb_of_straight hs.straight, List.append_nil]

/-- A directory is made right in one that exists. -/
private theorem hasParent_of_make {s : Surroundings} (hs : s.Settled) {parent full : Text}
    (hhead : full.head? = some 't') (hmake : make s parent full = .ok ()) :
    s.HasParent (Posix.ofText (plainText s.cwd (within parent full))).segments := by
  obtain ⟨hrefusal, hdeep⟩ := refusal?_of_make hmake
  obtain ⟨last, hmem, hlast⟩ := segments_absolute_within s.cwd parent hhead hdeep
  have hup : last ≠ ['.', '.'] := by
    rintro rfl
    exact absurd hmem (by decide)
  have habsolute : ((Posix.ofText (within parent full)).absolute s.cwd).isAbsolute = true :=
    Posix.isAbsolute_absolute hs.absolute _
  refine ⟨_, last, ?_, Surroundings.hasDirectory_of_refusal? hrefusal⟩
  rw [ofText_plainText hs.isSegment, segments_plain_of_ne hlast hup, habsolute,
    foldl_climb_absolute hs]

private theorem made?_lostAt (parent : Option Text) (root : Text) (d : Directory) :
    (lostAt parent root d).made? = some d := by
  rw [lostAt]
  split
  · rfl
  · rfl

/-- Opening makes no directory and fails, or makes an empty one in a directory that exists. It may
fail even then. -/
theorem openDirectory_cases {s : Surroundings} (hs : s.Settled) (default : Option Text)
    (r : Request) :
    (∃ e, openDirectory s default r = .error e ∧ e.made? = none) ∨
    ∃ d : Directory, d.closed = false ∧ d.autoClean = r.autoClean ∧
      s.HasParent (Posix.ofText d.path).segments ∧
      ((openDirectory s default r = .ok d ∧ d.files = some []) ∨
        ∃ e, openDirectory s default r = .error e ∧ e.made? = some d) := by
  rw [openDirectory]
  cases nameFor default r.name with
  | error why => exact .inl ⟨_, rfl, rfl⟩
  | ok name =>
    simp only
    split
    · exact .inl ⟨_, rfl, rfl⟩
    · next hmake =>
      refine .inr ⟨⟨_, r.autoClean, false, some []⟩, rfl, rfl,
        hasParent_of_make hs rfl hmake, ?_⟩
      split
      · exact .inl ⟨rfl, rfl⟩
      · exact .inr ⟨_, rfl, made?_lostAt _ _ _⟩

/-! ### An example -/

/-- Surroundings with a directory for temporary files and no variables. -/
def plainSurroundings : Surroundings :=
  ⟨["/tmp".toList], "/tmp".toList, none, [], ⟨.root, []⟩, "0".toList⟩

/-- The scratch directory that is opened there. -/
def plainDirectory (autoClean : Bool) : Directory :=
  ⟨"/tmp/tmp0klsurl".toList, autoClean, false, some []⟩

theorem openDirectory_plain (autoClean : Bool) :
    openDirectory plainSurroundings (some firstName) ⟨none, none, autoClean⟩ =
      .ok (plainDirectory autoClean) := rfl

end EntryRef.Scratch
