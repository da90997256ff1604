import EntryRef.Proofs.Scratch.Directory
import EntryRef.Proofs.Scratch.Opening
import Mathlib.Data.List.Nodup
import Mathlib.Data.List.Perm.Basic

/-!
# What making a file promises

Making a file in a scratch directory either fails and changes nothing, or gives the path of a new
and empty file, right in the directory, whose name has the start and the end that were asked for
(`Directory.Delivers`). A path that is taken is tried again with the next token. That this comes to
an end relies on two things: the tokens differ, and a taken path with a token in it is the name of a
file, of which there are only so many.

A name with a slash is a path, which is resolved before it is looked for, but not in the path that
is given back. With such a name the file that is made is never the one that was asked for, and the
path may be the directory itself, which is taken whatever the token is
(`Directory.create_never_ends`). So making a file keeps its promise if and only if there is no slash
or it fails (`Directory.create_delivers_iff`).
-/

namespace EntryRef.Scratch

open Text
open EntryRef.Path (IsSegment Posix namedSegments isSegment_of_mem namedSegments_append_sep)

variable {root start stop : Text} {files : List File} {tokens : List Text}

/-! ### Paths that are resolved -/

private theorem foldl_enter_none (ss : List Text) : ss.foldl enter none = none := by
  induction ss with
  | nil => rfl
  | cons s ss ih => exact ih

/-- Segments that are left were there before or have been entered. -/
theorem mem_of_foldl_enter {ss up out : List Text} (h : ss.foldl enter (some up) = some out)
    {s : Text} (hs : s ∈ out) : s ∈ up ∨ s ∈ ss := by
  induction ss generalizing up with
  | nil =>
    obtain rfl : up = out := Option.some.inj h
    exact .inl hs
  | cons t ss ih =>
    rw [List.foldl_cons] at h
    by_cases ht : t = ['.', '.']
    · cases up with
      | nil =>
        rw [show enter (some []) t = none from if_pos ht, foldl_enter_none] at h
        cases h
      | cons last up =>
        rw [show enter (some (last :: up)) t = some up from if_pos ht] at h
        exact (ih h).imp (List.mem_cons_of_mem _) (List.mem_cons_of_mem _)
    · rw [show enter (some up) t = some (t :: up) from if_neg ht] at h
      rcases ih h with h | h
      · rcases List.mem_cons.mp h with rfl | h
        · exact .inr List.mem_cons_self
        · exact .inl h
      · exact .inr (List.mem_cons_of_mem _ h)

private theorem isSegment_of_resolve? {path : Text} {ss : List Text} (h : resolve? path = some ss)
    {s : Text} (hs : s ∈ ss) : IsSegment '/' s := by
  obtain ⟨out, hout, rfl⟩ := Option.map_eq_some_iff.mp h
  rcases mem_of_foldl_enter hout (List.mem_reverse.mp hs) with h | h
  · exact absurd h List.not_mem_nil
  · exact isSegment_of_mem h

/-- The name of a file that can be made has no slash, whatever the path to it is. -/
theorem not_mem_of_look_free {path name : Text} (h : look root files path = .ok (.free name)) :
    '/' ∉ name := by
  obtain ⟨-, hfound⟩ | ⟨first, hresolve, -, hfound⟩ := look_eq_ok h
  · cases hfound
  · split at hfound
    · cases hfound
    · rw [Found.free.inj hfound]
      exact (isSegment_of_resolve? hresolve List.mem_cons_self).not_mem

private theorem mem_of_look_taken {path : Text} (hpath : IsSegment '/' path)
    (hup : path ≠ ['.', '.'])
    (h : look root files path = .ok .taken) : path ∈ files.map File.name := by
  rcases look_eq_ok h with ⟨hresolve, -⟩ | ⟨name, hresolve, -, hfound⟩
  · rw [resolve?_of_isSegment hpath hup] at hresolve
    cases hresolve
  · rw [resolve?_of_isSegment hpath hup] at hresolve
    obtain rfl : path = name := (List.cons.inj (Option.some.inj hresolve)).1
    split at hfound
    · assumption
    · cases hfound

/-- A path that goes up again from its only other segment leads to the directory itself. -/
theorem look_of_up (files : List File) {name : Text} (hname : IsSegment '/' name)
    (hup : name ≠ ['.', '.']) (hnull : '\x00' ∉ name)
    (hlong : root.length + name.length + 4 ≤ maxPath) :
    look root files (name ++ ['/', '.', '.']) = .ok .taken := by
  have hsegments : namedSegments '/' (name ++ ['/', '.', '.']) = [name, ['.', '.']] := by
    rw [namedSegments_append_sep, hname.namedSegments_eq]
    rfl
  have hresolve : resolve? (name ++ ['/', '.', '.']) = some [] := by
    rw [resolve?, hsegments, List.foldl_cons, enter, if_neg hup]
    rfl
  have hshort : (systemPath root (name ++ ['/', '.', '.'])).length ≤ maxPath := by
    have hdrop := (List.dropWhile_sublist (· == '/') (l := name ++ ['/', '.', '.'])).length_le
    simp only [List.length_append, List.length_cons, List.length_nil] at hdrop
    rw [systemPath, List.length_append, List.length_cons]
    omega
  rw [look, locate_of_resolve? (by simpa using hnull) hshort hresolve]

/-- Tokens with which the path is taken are passed over. -/
theorem choose_append {α : Type} {seek : Text → Except Fault (Found α)} {before : List Text}
    (h : ∀ t ∈ before, seek (start ++ t ++ stop) = .ok .taken) (rest : List Text) :
    choose seek start stop (before ++ rest) = choose seek start stop rest := by
  induction before with
  | nil => rfl
  | cons t before ih =>
    obtain ⟨ht, hbefore⟩ := List.forall_mem_cons.mp h
    rw [List.cons_append, choose, ht]
    exact ih hbefore

namespace Directory

variable {d : Directory}

/-! ### The promise -/

/-- What comes of making a file in a directory with the given files is as promised. -/
inductive Delivers (d : Directory) (files : List File) (start stop : Text) :
    Except Fault Created × Directory × List Text → Prop
  /-- It is refused, and not for want of a token, and the directory is as before. -/
  | refused {fault : Fault} {rest : List Text} (hfault : fault ≠ .noToken) :
    Delivers d files start stop (.error fault, d.withFiles files, rest)
  /-- There is one more file, right in the directory, which is new and empty, is found under its
  path, and has a name with the given start and end. -/
  | made {made : Created} {rest : List Text} (hnew : made.name ∉ files.map File.name)
    (hstart : start <+: made.name) (hstop : stop <:+ made.name)
    (hparent : made.path.parent = .ofText d.path) (hname : made.path.name = made.name)
    (hsize : (d.withFiles (files ++ [⟨made.name, []⟩])).size made.path = .ok 0) :
    Delivers d files start stop (.ok made, d.withFiles (files ++ [⟨made.name, []⟩]), rest)

/-- The path with some token is refused, and those with the tokens before it are taken. -/
def Refuses (root : Text) (files : List File) (start stop : Text) (tokens : List Text) : Prop :=
  ∃ before token after, tokens = before ++ token :: after ∧
    (∀ t ∈ before, look root files (start ++ t ++ stop) = .ok .taken) ∧
    ∃ fault, look root files (start ++ token ++ stop) = .error fault

private theorem Refuses.delivers (h : Refuses d.path files start stop tokens)
    (hopen : d.closed = false) :
    Delivers d files start stop ((d.withFiles files).create start stop tokens) := by
  obtain ⟨before, token, after, rfl, htaken, fault, hfault⟩ := h
  rw [create_withFiles files hopen, choose_append htaken, choose, hfault]
  exact .refused (fault_ne_noToken hfault)

/-- Where all paths are taken, there are as many files as tokens, if there is no slash. -/
theorem length_le_of_taken (hstart : '/' ∉ start) (hstop : '/' ∉ stop)
    (htokens : ∀ t ∈ tokens, IsToken t) (hnodup : tokens.Nodup)
    (h : ∀ t ∈ tokens, look root files (start ++ t ++ stop) = .ok .taken) :
    tokens.length ≤ files.length := by
  have hnames : (tokens.map fun t => start ++ t ++ stop).Nodup :=
    List.Nodup.map (fun _ _ h => List.append_cancel_left (List.append_cancel_right h)) hnodup
  have hsubset : (tokens.map fun t => start ++ t ++ stop) ⊆ files.map File.name := by
    intro name hname
    obtain ⟨t, ht, rfl⟩ := List.mem_map.mp hname
    obtain ⟨hsegment, hup⟩ := isSegment_of_isToken hstart (htokens t ht) hstop
    exact mem_of_look_taken hsegment hup (h t ht)
  simpa using (List.subperm_of_subset hnames hsubset).length_le

/-- Without a slash the promise is kept, within one more token than there are files. -/
theorem delivers_of_not_mem (hopen : d.closed = false) (hroot : ∃ c ∈ d.path, c ≠ '/')
    (hstart : '/' ∉ start) (hstop : '/' ∉ stop) (htokens : ∀ t ∈ tokens, IsToken t)
    (hnodup : tokens.Nodup) (hmany : files.length < tokens.length) :
    Delivers d files start stop ((d.withFiles files).create start stop tokens) := by
  obtain ⟨rest, -, ⟨fault, hfault, hcreate⟩ | ⟨token, htoken, hnew, hlong, hcreate⟩⟩ :=
    create_outcome files hopen hstart hstop htokens
  · rw [hcreate]
    refine .refused fun h => ?_
    have hle := length_le_of_taken hstart hstop htokens hnodup (hfault h)
    omega
  · obtain ⟨hsegment, -⟩ := isSegment_of_isToken hstart (htokens token htoken) hstop
    have hpath := Posix.ofText_append_cons hroot hsegment
    rw [hcreate]
    refine .made hnew ?_ (List.suffix_append (start ++ token) stop) ?_ ?_
      (size_new hroot hsegment hnew hlong)
    · rw [List.append_assoc]
      exact List.prefix_append start _
    · rw [hpath, Posix.parent, List.dropLast_concat]
      rfl
    · rw [hpath, Path.Slashed.name, List.getLastD_concat]

/-- What is made has no slash in its name, so that it does not have the start and the end that are
asked for if these have one. -/
theorem Delivers.refuses (hslash : '/' ∈ start ∨ '/' ∈ stop)
    (h : Delivers d files start stop ((d.withFiles files).create start stop tokens))
    (hopen : d.closed = false) : Refuses d.path files start stop tokens := by
  rw [create_withFiles files hopen] at h
  obtain ⟨-, hchoose⟩ | ⟨before, token, after, rfl, htaken,
      ⟨fault, hfault, -⟩ | ⟨name, hlook, hchoose⟩⟩ :=
    choose_cases (look d.path files) start stop tokens
  · rw [hchoose] at h
    cases h with
    | refused hfault => exact absurd rfl hfault
  · exact ⟨before, token, after, rfl, htaken, fault, hfault⟩
  · rw [hchoose] at h
    have hname : start <+: name ∧ stop <:+ name := by
      cases h with
      | made _ hstart hstop => exact ⟨hstart, hstop⟩
    exact absurd (hslash.elim (hname.1.subset ·) (hname.2.subset ·)) (not_mem_of_look_free hlook)

/-- With an end that goes up, the path is the directory itself with every token, and making a file
never ends. -/
theorem create_never_ends (files : List File) (hopen : d.closed = false) (hstart : '/' ∉ start)
    (hnull : '\x00' ∉ start) (htokens : ∀ t ∈ tokens, IsToken t)
    (hlong : ∀ t ∈ tokens, d.path.length + (start ++ t).length + 4 ≤ maxPath) :
    (d.withFiles files).create start ['/', '.', '.'] tokens =
      (.error .noToken, d.withFiles files, []) := by
  have htaken : ∀ t ∈ tokens, look d.path files (start ++ t ++ ['/', '.', '.']) = .ok .taken := by
    intro t ht
    obtain ⟨hsegment, hup⟩ := isSegment_of_isToken hstart (htokens t ht) List.not_mem_nil
    rw [List.append_nil] at hsegment hup
    refine look_of_up files hsegment hup (fun h => ?_) (hlong t ht)
    rcases List.mem_append.mp h with h | h
    · exact hnull h
    · exact absurd ((htokens t ht).digits _ h) (by decide)
  have hchoose := choose_append htaken []
  rw [List.append_nil] at hchoose
  rw [create_withFiles files hopen, hchoose]
  rfl

/-- **The promise.** A directory that was opened, with whatever files in it, keeps the promise for
tokens that differ and are more than the files, if and only if neither the start nor the end has a
slash, or the path is refused before one is free. -/
theorem create_delivers_iff {s : Surroundings} {default : Option Text} {r : Request}
    (hd : openDirectory s default r = .ok d) (files : List File) (start stop : Text)
    {tokens : List Text} (htokens : ∀ t ∈ tokens, IsToken t) (hnodup : tokens.Nodup)
    (hmany : files.length < tokens.length) :
    Delivers d files start stop ((d.withFiles files).create start stop tokens) ↔
      ('/' ∉ start ∧ '/' ∉ stop) ∨ Refuses d.path files start stop tokens := by
  obtain ⟨hopen, -, hroot⟩ := openDirectory_spec hd
  constructor
  · intro h
    by_cases hslash : '/' ∈ start ∨ '/' ∈ stop
    · exact .inr (h.refuses hslash hopen)
    · exact .inl (not_or.mp hslash)
  · rintro (⟨hstart, hstop⟩ | h)
    · exact delivers_of_not_mem hopen hroot hstart hstop htokens hnodup hmany
    · exact h.delivers hopen

/-- The first token makes the name of a file that is there, and the second one a new name. -/
theorem create_delivers_iff_taken : ∃ d : Directory,
    openDirectory ⟨["/tmp".toList], "/tmp".toList, none, [], ⟨.root, []⟩, "0".toList⟩
      (some firstName) ⟨none, none, true⟩ = .ok d ∧
    (d.withFiles [⟨"Foo0.kt".toList, [7]⟩]).create "Foo".toList ".kt".toList [['0'], ['1']] =
      (.ok ⟨"Foo1.kt".toList, ⟨.root, ["tmp".toList, "tmp0klsurl".toList, "Foo1.kt".toList]⟩⟩,
        d.withFiles [⟨"Foo0.kt".toList, [7]⟩, ⟨"Foo1.kt".toList, []⟩], []) ∧
    Delivers d [⟨"Foo0.kt".toList, [7]⟩] "Foo".toList ".kt".toList
      ((d.withFiles [⟨"Foo0.kt".toList, [7]⟩]).create "Foo".toList ".kt".toList
        [['0'], ['1']]) := by
  have hd : openDirectory ⟨["/tmp".toList], "/tmp".toList, none, [], ⟨.root, []⟩, "0".toList⟩
      (some firstName) ⟨none, none, true⟩ = .ok ⟨"/tmp/tmp0klsurl".toList, true, false, some []⟩ :=
    rfl
  refine ⟨_, hd, by decide +kernel, ?_⟩
  exact (create_delivers_iff hd [⟨"Foo0.kt".toList, [7]⟩] "Foo".toList ".kt".toList (by decide)
    (by decide) (by decide)).mpr (.inl ⟨by decide, by decide⟩)

/-- The file that is made does not have the start that was asked for, or is not at the path that is
given back, or no file is ever made. -/
theorem create_not_delivers : ∃ d : Directory,
    openDirectory ⟨["/tmp".toList], "/tmp".toList, none, [], ⟨.root, []⟩, "0".toList⟩
      (some firstName) ⟨none, none, true⟩ = .ok d ∧
    ((d.withFiles []).create "./Foo".toList ".kt".toList [['0']] =
        (.ok ⟨"Foo0.kt".toList, ⟨.root, ["tmp".toList, "tmp0klsurl".toList, "Foo0.kt".toList]⟩⟩,
          d.withFiles [⟨"Foo0.kt".toList, []⟩], []) ∧
      ¬Delivers d [] "./Foo".toList ".kt".toList
        ((d.withFiles []).create "./Foo".toList ".kt".toList [['0']])) ∧
    (∃ made, (d.withFiles []).create "a/../".toList ".kt".toList [['0']] =
        (.ok made, d.withFiles [⟨"0.kt".toList, []⟩], []) ∧
      (d.withFiles [⟨"0.kt".toList, []⟩]).size made.path =
        .error (.system 2 (some "/tmp/tmp0klsurl/a/../0.kt".toList))) ∧
    ∀ tokens, (∀ t ∈ tokens, IsToken t ∧ t.length = 16) →
      (d.withFiles []).create "Foo".toList ['/', '.', '.'] tokens =
        (.error .noToken, d.withFiles [], []) := by
  refine ⟨⟨"/tmp/tmp0klsurl".toList, true, false, some []⟩, rfl, ?_, ?_, fun tokens htokens => ?_⟩
  · have hcreate : (withFiles ⟨"/tmp/tmp0klsurl".toList, true, false, some []⟩ []).create
        "./Foo".toList ".kt".toList [['0']] =
          (.ok ⟨"Foo0.kt".toList, ⟨.root, ["tmp".toList, "tmp0klsurl".toList, "Foo0.kt".toList]⟩⟩,
            withFiles ⟨"/tmp/tmp0klsurl".toList, true, false, some []⟩ [⟨"Foo0.kt".toList, []⟩],
            []) := by
      decide +kernel
    refine ⟨hcreate, fun h => ?_⟩
    rw [hcreate] at h
    cases h with
    | made _ hstart => exact absurd hstart (by decide)
  · exact ⟨⟨"0.kt".toList, .ofText "/tmp/tmp0klsurl/a/../0.kt".toList⟩, by decide +kernel,
      by decide +kernel⟩
  · refine create_never_ends [] rfl (by decide) (by decide) (fun t ht => (htokens t ht).1)
      fun t ht => ?_
    rw [List.length_append, (htokens t ht).2]
    decide

end Directory

end EntryRef.Scratch
