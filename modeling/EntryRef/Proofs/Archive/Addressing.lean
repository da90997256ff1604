import EntryRef.Proofs.Archive.Extraction
import EntryRef.Proofs.Archive.Listing

/-!
# What a reference addresses

There are many ways to write a reference to an entry of an archive: characters may be escaped or
not, there are three forms of `file` identifiers, slashes before the name of the entry and a second
boundary behind it do not count, and flags may be set. What matters is where the archive is and what
the entry is called (`Reference.SameTarget`). Operations on references that agree in these two agree
in what comes of them (`operations_agree`), whatever the opener: they succeed with the same, or fail
for problems that differ at most in the words that spell the reference.
-/

namespace EntryRef

open Text
open Scratch (Directory plainDirectory)

variable {table : FlagTable} {α β : Type} {opener : Opener table} {u v : Reference table}

/-- The references are for the same archive, and name the same entry in it. -/
structure Reference.SameTarget (u v : Reference table) : Prop where
  archivePath_eq : u.archivePath = v.archivePath
  entryName?_eq : u.entryName? = v.entryName?

/-! ### What agrees -/

/-- The errors are of one kind, come from the same and are about one archive. -/
structure ArchiveError.Alike (e f : ArchiveError table) : Prop where
  kind_eq : e.problem.kind = f.problem.kind
  cause_eq : e.problem.cause? = f.problem.cause?
  path_eq : e.path = f.path

/-- The failures are the same, or errors of archives that are alike. -/
inductive Failure.Alike : Failure table → Failure table → Prop
  | refl (e : Failure table) : Alike e e
  | archive {e f : ArchiveError table} (h : e.Alike f) : Alike (.archive e) (.archive f)

/-- Both succeed, and with the same, or fail alike. -/
inductive Agree : Except (Failure table) α → Except (Failure table) α → Prop
  | ok (a : α) : Agree (.ok a) (.ok a)
  | error {e f : Failure table} (h : e.Alike f) : Agree (.error e) (.error f)

theorem Agree.refl (x : Except (Failure table) α) : Agree x x := by
  cases x with
  | ok a => exact .ok a
  | error e => exact .error (.refl e)

private theorem Agree.eq_ok {a : α} {y : Except (Failure table) α} (h : Agree (.ok a) y) :
    y = .ok a := by
  cases h
  rfl

theorem Agree.bind {x y : Except (Failure table) α} {f g : α → Except (Failure table) β}
    (h : Agree x y) (hfg : ∀ a, Agree (f a) (g a)) : Agree (x.bind f) (y.bind g) := by
  cases h with
  | ok a => exact hfg a
  | error h => exact .error h

/-- The same is left in the directory and of the tokens, and the same path is returned, or both fail
alike. -/
structure Extraction.Agrees (x y : Extraction table) : Prop where
  result : Agree x.result y.result
  directory_eq : x.directory = y.directory
  tokens_eq : x.tokens = y.tokens

/-! ### One step after another -/

/-- The reference of an error is not compared. -/
theorem alike_openFailure (u v : Reference table) (path : Text) (e : Failure table) :
    (openFailure u path e).Alike (openFailure v path e) := by
  cases e with
  | archive e => exact .archive ⟨rfl, rfl, rfl⟩
  | trouble why =>
    simp only [openFailure]
    split
    · exact .archive ⟨rfl, rfl, rfl⟩
    · exact .refl _
  | authority why => exact .refl _
  | scratch why => exact .refl _

private theorem alike_readFailure (u v : Reference table) (path : Text)
    (problem : Trouble → ArchiveProblem) (e : Failure table) :
    (readFailure u path problem e).Alike (readFailure v path problem e) := by
  cases e with
  | trouble why =>
    simp only [readFailure]
    split
    · exact .archive ⟨rfl, rfl, rfl⟩
    · exact .refl _
  | archive e =>
    simp only [readFailure]
    split
    · exact .archive ⟨rfl, rfl, rfl⟩
    · exact .refl _
  | authority why => exact .refl _
  | scratch why => exact .refl _

/-- Operations on one archive are related by what relates their failures and what is done with the
handle. -/
theorem withArchive_related {R : β → β → Prop} {fail : Failure table → β}
    {body body' : Text → Handle table → Traced β} (hpath : u.archivePath = v.archivePath)
    (hfail : ∀ {e f : Failure table}, e.Alike f → R (fail e) (fail f))
    (hbody : ∀ path h, R (body path h).value (body' path h).value) :
    R (withArchive opener u fail body).value (withArchive opener v fail body').value := by
  refine withArchive_cases (motive := fun x => R x (withArchive opener v fail body').value) ?_ ?_ ?_
  · intro why hu
    rw [value_withArchive_of_no_path (hpath.symm.trans hu)]
    exact hfail (.refl _)
  · intro path e hu hopen
    rw [value_withArchive_of_no_archive (hpath.symm.trans hu) hopen]
    exact hfail (alike_openFailure u v path e)
  · intro path h hu hopen
    rw [value_withArchive (hpath.symm.trans hu) hopen]
    exact hbody path h

private theorem findEntry_agree (hname : u.entryName? = v.entryName?) (path : Text)
    (h : Handle table) :
    Agree (findEntry u path h).value (findEntry v path h).value := by
  simp only [findEntry, ← hname]
  cases u.entryName? with
  | none => exact .error (.archive ⟨rfl, rfl, rfl⟩)
  | some name =>
    simp only [Traced.value_bind, Handle.lookup]
    cases h.entry? name with
    | none => exact .error (.archive ⟨rfl, rfl, rfl⟩)
    | some entry => exact .ok entry

/-- What is done with the answer of a lookup is related by what relates it for like failures and for
one entry. -/
theorem bind_findEntry_related {R : β → β → Prop} (hname : u.entryName? = v.entryName?)
    (path : Text) (handle : Handle table) {f g : Except (Failure table) (Entry table) → Traced β}
    (herror : ∀ {d e : Failure table}, d.Alike e → R (f (.error d)).value (g (.error e)).value)
    (hok : ∀ entry, R (f (.ok entry)).value (g (.ok entry)).value) :
    R (findEntry u path handle >>= f).value (findEntry v path handle >>= g).value := by
  rw [Traced.value_bind, Traced.value_bind]
  have hfind := findEntry_agree hname path handle
  generalize (findEntry u path handle).value = x at hfind ⊢
  generalize (findEntry v path handle).value = y at hfind ⊢
  cases hfind with
  | error hlookup => exact herror hlookup
  | ok entry => exact hok entry

private theorem readData_agree (h : u.SameTarget v) (opener : Opener table) :
    Agree (readData opener u).value (readData opener v).value := by
  refine withArchive_related h.archivePath_eq .error fun path handle => ?_
  refine bind_findEntry_related h.entryName?_eq path handle .error fun entry => ?_
  simp only
  cases entry.readAll with
  | error why => exact .error (alike_readFailure u v path _ why)
  | ok data => exact .ok (path, data)

/-- The inner path, as it is spelled, is told only in words. -/
theorem textOf_agree (codecs : Codecs) (u v : Reference table) (path encoding : Text)
    (data : Bytes) :
    Agree (textOf codecs u path encoding data) (textOf codecs v path encoding data) := by
  simp only [textOf]
  split
  · exact .refl _
  split
  · exact .refl _
  cases codecs.find encoding with
  | error why => exact .refl _
  | ok codec =>
    simp only
    cases codec data with
    | ok t => exact .ok t
    | error fault =>
      cases fault with
      | notText why => exact .error (.archive ⟨rfl, rfl, rfl⟩)
      | trouble why => exact .refl _

private theorem fillFile_agrees (u v : Reference table) (path : Text) (entry : Entry table)
    (answer : Except Scratch.Fault Directory.Created × Directory × List Text) :
    (fillFile u path entry answer).Agrees (fillFile v path entry answer) := by
  obtain ⟨created, d, rest⟩ := answer
  cases created with
  | error why => exact ⟨.refl _, rfl, rfl⟩
  | ok made =>
    simp only [fillFile]
    cases entry.stream with
    | error why => exact ⟨.error (alike_readFailure u v path _ why), rfl, rfl⟩
    | ok copied =>
      cases (d.size made.path).mapError Failure.trouble with
      | error why => exact ⟨.error (alike_readFailure u v path _ why), rfl, rfl⟩
      | ok size =>
        simp only
        cases (copied copySize).fault with
        | none => exact ⟨.ok _, rfl, rfl⟩
        | some why => exact ⟨.error (alike_readFailure u v path _ why), rfl, rfl⟩

private theorem extractEntry_agrees (u v : Reference table) (path : Text) (entry : Entry table)
    (d : Directory) (tokens : List Text) : Extraction.Agrees
      (extractEntry u path entry d tokens).value (extractEntry v path entry d tokens).value := by
  by_cases hdot : '.' ∈ afterLast '/' entry.name
  · rw [value_extractEntry u path hdot, value_extractEntry v path hdot]
    exact fillFile_agrees u v path entry _
  · rw [value_extractEntry_of_no_dot u path hdot, value_extractEntry_of_no_dot v path hdot]
    exact ⟨.error (.archive ⟨rfl, rfl, rfl⟩), rfl, rfl⟩

private theorem extract_agrees (h : u.SameTarget v) (opener : Opener table) (d : Directory)
    (tokens : List Text) :
    (extract opener u d tokens).value.Agrees (extract opener v d tokens).value := by
  refine withArchive_related h.archivePath_eq (fun hfail => ⟨.error hfail, rfl, rfl⟩)
    fun path handle => ?_
  exact bind_findEntry_related h.entryName?_eq path handle
    (fun hlookup => ⟨.error hlookup, rfl, rfl⟩)
    fun entry => extractEntry_agrees u v path entry d tokens

/-! ### Whole operations -/

/-- **Only the target matters.** References with the same target are read as the same text, in any
encoding, and extracted to the same file, or both fail alike. -/
theorem operations_agree (h : u.SameTarget v) (opener : Opener table) :
    (∀ codecs encoding,
      Agree (readText codecs opener u encoding).value (readText codecs opener v encoding).value) ∧
    ∀ d tokens, (extract opener u d tokens).value.Agrees (extract opener v d tokens).value := by
  refine ⟨fun codecs encoding => ?_, extract_agrees h opener⟩
  rw [value_readText, value_readText]
  exact (readData_agree h opener).bind fun read => textOf_agree codecs u v read.1 _ read.2

/-- The calls have one opener, and references with the same target. -/
structure Call.SameTarget (c c' : Call table) : Prop where
  opener_eq : c.opener = c'.opener
  reference : c.reference.SameTarget c'.reference

/-- In runs that start with one directory, calls with the same targets leave the same, one after
another. -/
theorem extractions_agree {calls calls' : List (Call table)}
    (h : List.Forall₂ Call.SameTarget calls calls') (d : Directory) (tokens : List Text) :
    List.Forall₂ (fun s s' => s.after.Agrees s'.after) (extractions d tokens calls)
      (extractions d tokens calls') := by
  induction h generalizing d tokens with
  | nil => exact .nil
  | @cons call call' _ _ hcall _ ih =>
    have hagrees := extract_agrees hcall.reference call.opener d tokens
    rw [extractions, extractions, ← hcall.opener_eq]
    refine .cons hagrees ?_
    rw [← hagrees.directory_eq, ← hagrees.tokens_eq]
    exact ih _ _

/-- An archive in memory. -/
def Memory.spaced : Opener .standard :=
  Memory.opener [("/l.jar".toList, .ok [⟨"a b.txt".toList, [0x68, 0x69], none, none, 0⟩])]

/-- The second reference has another form of `file` identifier, more slashes, other escapes, a
second boundary and a flag. -/
theorem operations_agree_spelled : ∃ u v : Reference .standard,
    Reference.parse .standard "kls:file:///l.jar!/a%20b.txt".toList = .ok u ∧
      Reference.parse .standard "kls:file:/l%2ejar!//%61%20b.txt!/c?source=true".toList = .ok v ∧
      u.SameTarget v ∧
      (readText Codecs.builtIn Memory.spaced v none).value = .ok "hi" ∧
      (extract Memory.spaced v ((plainDirectory true).withFiles []) ["0".toList]).value.result =
        .ok "/tmp/tmp0klsurl/a b0.txt" ∧
      (extract Memory.spaced v ((plainDirectory true).withFiles []) ["0".toList]).value.directory =
        (plainDirectory true).withFiles [⟨"a b0.txt".toList, [0x68, 0x69]⟩] := by
  let u : Reference .standard := .ofSpecific _ "file:///l.jar!/a%20b.txt".toList
  let v : Reference .standard :=
    .ofSpecific _ "file:/l%2ejar!//%61%20b.txt!/c?source=true".toList
  let x := (extract Memory.spaced u ((plainDirectory true).withFiles []) ["0".toList]).value
  have htarget : u.SameTarget v := ⟨by decide +kernel, by decide +kernel⟩
  have hread : (readText Codecs.builtIn Memory.spaced u none).value = .ok "hi" := by
    decide +kernel
  have hresult : x.result = .ok "/tmp/tmp0klsurl/a b0.txt" := by decide +kernel
  have hdirectory : x.directory =
      (plainDirectory true).withFiles [⟨"a b0.txt".toList, [0x68, 0x69]⟩] := by decide +kernel
  obtain ⟨hreads, hextracts⟩ := operations_agree htarget Memory.spaced
  have htext := hreads Codecs.builtIn none
  have hagrees := hextracts ((plainDirectory true).withFiles []) ["0".toList]
  have hfile := hagrees.result
  rw [hread] at htext
  rw [hresult] at hfile
  exact ⟨u, v, rfl, rfl, htarget, htext.eq_ok, hfile.eq_ok,
    hagrees.directory_eq.symm.trans hdirectory⟩

end EntryRef
