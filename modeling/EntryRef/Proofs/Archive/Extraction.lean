import EntryRef.Archive.Contents
import EntryRef.Archive.Memory
import EntryRef.Proofs.Archive.Handle
import EntryRef.Proofs.Scratch.Directory
import EntryRef.Proofs.Scratch.Opening

/-!
# Extraction is contained

An extraction asks the directory for one file, and what it does with the answer is `fillFile`
(`value_extractEntry`); a name without an extension is refused before that.

`extract` makes at most one file, right in the scratch directory and of a name that no file there
has, and leaves the other files as they are, whether it succeeds or fails (`Extracts`,
`extracts_extract`). This holds of any opener, of any names of entries, and of any tokens.

Over a run of calls on one directory, `extractions`, it follows that each path that is returned lies
in the directory and has a name made of the entry's name and a token, that no file is changed by a
later call, and that the paths differ (`extractions_contained`).
-/

namespace EntryRef

open Text
open EntryRef.Path (Posix)
open Scratch (Directory File IsToken)

variable {table : FlagTable} {opener : Opener table} {u : Reference table} {d : Directory}
  {files : List File} {tokens : List Text}

/-! ### What an extraction asks for -/

/-- What an extraction does with the directory's answer to its request for a file. -/
def fillFile (u : Reference table) (path : Text) (entry : Entry table) :
    Except Scratch.Fault Directory.Created × Directory × List Text → Extraction table
  | (.error why, d, tokens) => ⟨.error (.scratch why), d, tokens⟩
  | (.ok made, d, tokens) =>
    let failure := readFailure u path (.notExtracted entry.name path made.path.toText)
    match entry.stream, (d.size made.path).mapError .trouble with
    | .error why, _ | .ok _, .error why => ⟨.error (failure why), d, tokens⟩
    | .ok copied, .ok _ =>
      ⟨match (copied copySize).fault with
        | some why => .error (failure why)
        | none => .ok made.path.toText,
        d.write made.name (copied copySize).writes.flatten, tokens⟩

/-- A name without a dot in its last segment is refused, and nothing is asked for. -/
theorem value_extractEntry_of_no_dot (u : Reference table) (path : Text) {entry : Entry table}
    (hdot : '.' ∉ afterLast '/' entry.name) (d : Directory) (tokens : List Text) :
    (extractEntry u path entry d tokens).value =
      ⟨.error (.archive ⟨.noExtension entry.name path, some path, some u⟩), d, tokens⟩ := by
  simp only [extractEntry, List.contains_eq_mem, hdot, decide_false, Bool.not_false, if_true,
    Traced.value_pure]

/-- The one request is for a file that starts with what stands before the first dot of the segment,
and ends with what stands behind the last one. -/
theorem value_extractEntry (u : Reference table) (path : Text) {entry : Entry table}
    (hdot : '.' ∈ afterLast '/' entry.name) (d : Directory) (tokens : List Text) :
    (extractEntry u path entry d tokens).value =
      fillFile u path entry (d.create (before '.' (afterLast '/' entry.name))
        ('.' :: afterLast '.' (afterLast '/' entry.name)) tokens) := by
  simp only [extractEntry, List.contains_eq_mem, hdot, decide_true, Bool.not_true,
    Bool.false_eq_true, if_false]
  obtain ⟨created, d', rest⟩ := d.create _ _ tokens
  cases created with
  | error why => rfl
  | ok made =>
    simp only [fillFile]
    cases entry.stream with
    | error why => rfl
    | ok copied =>
      cases (d'.size made.path).mapError Failure.trouble with
      | error why => rfl
      | ok size =>
        simp only
        cases (copied copySize).fault with
        | none => rfl
        | some why => rfl

/-! ### One call -/

/-- The name of the file that an entry is copied to: the last segment of the entry's name up to its
first dot, a token, a dot, and the rest of the segment behind its last dot. -/
def targetName (entry token : Text) : Text :=
  before '.' (afterLast '/' entry) ++ token ++ '.' :: afterLast '.' (afterLast '/' entry)

theorem slash_not_mem_ends (entry : Text) : '/' ∉ before '.' (afterLast '/' entry) ∧
    '/' ∉ afterLast '.' (afterLast '/' entry) := by
  have hsegment : '/' ∉ afterLast '/' entry := not_mem_afterLast '/' entry
  exact ⟨fun h => hsegment (before_subset '.' _ h), fun h => hsegment (afterLast_subset '.' _ h)⟩

theorem isSegment_targetName (entry : Text) {token : Text} (htoken : IsToken token) :
    Path.IsSegment '/' (targetName entry token) :=
  (Scratch.isSegment_nameOf (slash_not_mem_ends entry).1 htoken (slash_not_mem_ends entry).2).1

/-- The entry is the one that the reference names in its archive. -/
def Finds (opener : Opener table) (u : Reference table) (entry : Entry table) : Prop :=
  ∃ path h, u.archivePath = .ok path ∧ opener path = .ok h ∧
    (findEntry u path h).value = .ok entry

/-- What `extract` can do with a directory that has the given files. -/
inductive Extracts (opener : Opener table) (u : Reference table) (d : Directory)
    (files : List File) (tokens : List Text) : Extraction table → Prop
  /-- It fails and leaves the directory as it is. -/
  | refused {e : Failure table} {rest : List Text} (hrest : rest <:+ tokens) :
    Extracts opener u d files tokens ⟨.error e, d.withFiles files, rest⟩
  /-- It makes a file of a new name, and returns its path unless it fails later. -/
  | made {entry : Entry table} {token : Text} {data : Bytes}
    {result : Except (Failure table) Text} {rest : List Text}
    (hentry : Finds opener u entry) (hdot : '.' ∈ afterLast '/' entry.name)
    (htoken : token ∈ tokens) (hrest : rest <:+ tokens)
    (hnew : targetName entry.name token ∉ files.map File.name)
    (hresult : ∀ target, result = .ok target →
      target = (Posix.ofText (d.path ++ '/' :: targetName entry.name token)).toText) :
    Extracts opener u d files tokens
      ⟨result, d.withFiles (files ++ [⟨targetName entry.name token, data⟩]), rest⟩

private theorem extracts_extractEntry (hopen : d.closed = false) (htokens : ∀ t ∈ tokens, IsToken t)
    {path : Text} {entry : Entry table} (hentry : Finds opener u entry) :
    Extracts opener u d files tokens
      (extractEntry u path entry (d.withFiles files) tokens).value := by
  obtain ⟨hstart, hstop⟩ := slash_not_mem_ends entry.name
  by_cases hdot : '.' ∉ afterLast '/' entry.name
  · rw [value_extractEntry_of_no_dot u path hdot]
    exact .refused (List.suffix_refl tokens)
  have hdot' : '.' ∈ afterLast '/' entry.name := not_not.mp hdot
  rw [value_extractEntry u path hdot']
  obtain ⟨rest, hrest, ⟨fault, hcreate⟩ | ⟨token, htoken, hnew, hcreate⟩⟩ :=
    Directory.create_cases files hopen hstart hstop htokens
  · rw [hcreate]
    exact .refused hrest
  · rw [hcreate]
    simp only [fillFile]
    split
    · exact .made hentry hdot' htoken hrest hnew fun _ h => nomatch h
    · exact .made hentry hdot' htoken hrest hnew fun _ h => nomatch h
    · -- what the copy has written is in the file, even if it fails later
      next copied _ _ _ =>
      rw [Directory.write_append hnew]
      split
      · exact .made hentry hdot' htoken hrest hnew fun _ h => nomatch h
      · exact .made hentry hdot' htoken hrest hnew fun _ h => (Except.ok.inj h).symm

/-- **One call.** Whatever the opener and the names, a call makes at most one file, and that of a
new name. -/
theorem extracts_extract (hopen : d.closed = false) (htokens : ∀ t ∈ tokens, IsToken t) :
    Extracts opener u d files tokens (extract opener u (d.withFiles files) tokens).value := by
  refine withArchive_induction (fun e => .refused (List.suffix_refl tokens)) ?_
  intro path h hpath hhandle
  rw [Traced.value_bind]
  cases hfind : (findEntry u path h).value with
  | error e => exact .refused (List.suffix_refl tokens)
  | ok entry => exact extracts_extractEntry hopen htokens ⟨path, h, hpath, hhandle, hfind⟩

/-- A call adds files of new names, if any, and uses tokens up. -/
theorem Extracts.grows {x : Extraction table} (h : Extracts opener u d files tokens x) :
    ∃ more, x.directory = d.withFiles (files ++ more) ∧
      (∀ f ∈ more, f.name ∉ files.map File.name) ∧ x.tokens <:+ tokens := by
  cases h with
  | refused hrest =>
    refine ⟨[], ?_, fun f hf => absurd hf List.not_mem_nil, hrest⟩
    rw [List.append_nil]
  | made hentry hdot htoken hrest hnew hresult =>
    refine ⟨_, rfl, fun f hf => ?_, hrest⟩
    rwa [List.mem_singleton.mp hf]

/-! ### Runs -/

/-- A call of `extract`. -/
structure Call (table : FlagTable) where
  /-- What opens archives. -/
  opener : Opener table
  /-- What is asked for. -/
  reference : Reference table

/-- A call in a run, with the directory before it and what it leaves. -/
structure Step (table : FlagTable) where
  call : Call table
  before : Directory
  after : Extraction table

/-- Calls one after another, each with the directory and the tokens that the last one leaves. -/
def extractions (d : Directory) (tokens : List Text) : List (Call table) → List (Step table)
  | [] => []
  | call :: calls =>
    let x := (extract call.opener call.reference d tokens).value
    ⟨call, d, x⟩ :: extractions x.directory x.tokens calls

namespace Step

/-- The path that a call returns, if it does not fail. -/
def returned? (s : Step table) : Option Text := s.after.result.toOption

/-- The files that were there before the call are there after it, with the same contents, and new
ones have new names. -/
def Keeps (s : Step table) : Prop :=
  ∃ files more, s.before.files = some files ∧ s.after.directory.files = some (files ++ more) ∧
    ∀ f ∈ more, f.name ∉ files.map File.name

/-- The call returns a path right in the directory `root`, of the name that the entry and the token
make, and there is a file of this name. -/
structure Lands (root : Text) (s : Step table) (entry : Entry table) (token target : Text) :
    Prop where
  found : Finds s.call.opener s.call.reference entry
  parent : (Posix.ofText target).parent = Posix.ofText root
  name : (Posix.ofText target).name = targetName entry.name token
  file : ∃ files data, s.after.directory.files = some files ∧
    ⟨targetName entry.name token, data⟩ ∈ files

end Step

/-- Each step of a run is a call on a directory that has grown, with some of the tokens. -/
theorem extracts_of_mem (hopen : d.closed = false) (htokens : ∀ t ∈ tokens, IsToken t)
    {calls : List (Call table)} {s : Step table}
    (hs : s ∈ extractions (d.withFiles files) tokens calls) :
    ∃ more rest, rest <:+ tokens ∧ s.before = d.withFiles (files ++ more) ∧
      Extracts s.call.opener s.call.reference d (files ++ more) rest s.after := by
  induction calls generalizing files tokens with
  | nil => cases hs
  | cons call calls ih =>
    have hcall : Extracts call.opener call.reference d files tokens
        (extract call.opener call.reference (d.withFiles files) tokens).value :=
      extracts_extract hopen htokens
    rw [extractions] at hs
    rcases List.mem_cons.mp hs with rfl | hs
    · refine ⟨[], tokens, List.suffix_refl tokens, ?_⟩
      rw [List.append_nil]
      exact ⟨rfl, hcall⟩
    · -- later calls are a run on the directory that the first one leaves
      obtain ⟨more, hdirectory, -, hrest⟩ := hcall.grows
      rw [hdirectory] at hs
      obtain ⟨more', rest, hrest', hbefore, hstep⟩ :=
        ih (fun t ht => htokens t (hrest.subset ht)) hs
      rw [List.append_assoc] at hbefore hstep
      exact ⟨more ++ more', rest, hrest'.trans hrest, hbefore, hstep⟩

/-- What is returned is a path below the directory, if the directory's path does not have slashes
alone. -/
theorem ofText_target (hroot : ∃ c ∈ d.path, c ≠ '/') {entry token target : Text}
    (htoken : IsToken token)
    (htarget : target = (Posix.ofText (d.path ++ '/' :: targetName entry token)).toText) :
    (Posix.ofText target).parent = Posix.ofText d.path ∧
      (Posix.ofText target).name = targetName entry token := by
  have hsegment := isSegment_targetName entry htoken
  -- the path is returned in its shortest form, which reads as the same path
  have hread : Posix.ofText target = Posix.ofText (d.path ++ '/' :: targetName entry token) := by
    rw [htarget, Posix.ofText_toText fun s hs => Posix.isSegment_of_mem_ofText hs]
  rw [hread, Posix.ofText_append_cons hroot hsegment]
  constructor
  · rw [Posix.parent, List.dropLast_concat]
    rfl
  · rw [Path.Slashed.name, List.getLastD_concat]

private theorem keeps_of_mem (hopen : d.closed = false) (htokens : ∀ t ∈ tokens, IsToken t)
    {calls : List (Call table)} {s : Step table}
    (hs : s ∈ extractions (d.withFiles files) tokens calls) : s.Keeps := by
  obtain ⟨more, rest, -, hbefore, hstep⟩ := extracts_of_mem hopen htokens hs
  obtain ⟨more', hafter, hnew, -⟩ := hstep.grows
  exact ⟨files ++ more, more', congrArg Directory.files hbefore, congrArg Directory.files hafter,
    hnew⟩

private theorem lands_of_mem (hopen : d.closed = false) (hroot : ∃ c ∈ d.path, c ≠ '/')
    (htokens : ∀ t ∈ tokens, IsToken t) {calls : List (Call table)} {s : Step table}
    (hs : s ∈ extractions (d.withFiles files) tokens calls) {target : Text}
    (htarget : s.returned? = some target) :
    ∃ entry, ∃ token ∈ tokens, s.Lands d.path entry token target ∧
      targetName entry.name token ∉ files.map File.name := by
  obtain ⟨more, rest, hrest, hbefore, hstep⟩ := extracts_of_mem hopen htokens hs
  obtain ⟨call, before, after⟩ := s
  simp only at hstep
  cases hstep with
  | refused => cases htarget
  | @made entry token data result _ hentry hdot htoken _ hnew hresult =>
    have hok : result = .ok target := by
      cases result with
      | error e => cases htarget
      | ok t => exact congrArg Except.ok (Option.some.inj htarget)
    have hmem : token ∈ tokens := hrest.subset htoken
    obtain ⟨hparent, hname⟩ := ofText_target hroot (htokens token hmem) (hresult target hok)
    refine ⟨entry, token, hmem, ⟨hentry, hparent, hname, _, data, rfl, ?_⟩, fun h => hnew ?_⟩
    · exact List.mem_append_right _ List.mem_cons_self
    · rw [List.map_append]
      exact List.mem_append_left _ h

/-- The paths that a run returns differ. -/
theorem nodup_returned (hopen : d.closed = false) (hroot : ∃ c ∈ d.path, c ≠ '/')
    (htokens : ∀ t ∈ tokens, IsToken t) (calls : List (Call table)) :
    (((extractions (d.withFiles files) tokens calls).filterMap Step.returned?).map
      Posix.ofText).Nodup := by
  induction calls generalizing files tokens with
  | nil => exact List.nodup_nil
  | cons call calls ih =>
    have hcall : Extracts call.opener call.reference d files tokens
        (extract call.opener call.reference (d.withFiles files) tokens).value :=
      extracts_extract hopen htokens
    obtain ⟨x, hx⟩ : ∃ x,
        (extract call.opener call.reference (d.withFiles files) tokens).value = x := ⟨_, rfl⟩
    have hsteps : extractions (d.withFiles files) tokens (call :: calls) =
        ⟨call, d.withFiles files, x⟩ :: extractions x.directory x.tokens calls := by
      rw [← hx]
      rfl
    rw [hx] at hcall
    rw [hsteps]
    cases hcall with
    | refused hrest => exact ih fun t ht => htokens t (hrest.subset ht)
    | @made entry token data result rest hentry hdot htoken hrest hnew hresult =>
      have htokens' : ∀ t ∈ rest, IsToken t := fun t ht => htokens t (hrest.subset ht)
      cases result with
      | error e => exact ih htokens'
      | ok target =>
        -- the new name is among the files of all later calls, which make others
        obtain ⟨-, hname⟩ := ofText_target hroot (htokens token htoken) (hresult target rfl)
        refine List.nodup_cons.mpr ⟨fun hm => ?_, ih htokens'⟩
        obtain ⟨t, ht, heq⟩ := List.mem_map.mp hm
        obtain ⟨s, hs, hreturned⟩ := List.mem_filterMap.mp ht
        obtain ⟨entry', token', -, hlands, hnew'⟩ := lands_of_mem hopen hroot htokens' hs hreturned
        refine hnew' ?_
        rw [← hlands.name, heq, hname, List.map_append]
        exact List.mem_append_right _ List.mem_cons_self

/-- **Extraction is contained.** In a run of calls on an opened directory, with any tokens and
whatever files there are already, every call keeps the files that are there before it, every path
that is returned lies right in the directory and has a name made of the entry's name and a token,
and the paths differ. -/
theorem extractions_contained {s : Scratch.Surroundings} {default : Option Text}
    {r : Scratch.Request} (hd : Scratch.openDirectory s default r = .ok d) (files : List File)
    (htokens : ∀ t ∈ tokens, IsToken t) (calls : List (Call table)) :
    (∀ step ∈ extractions (d.withFiles files) tokens calls,
      step.Keeps ∧ ∀ target, step.returned? = some target →
        ∃ entry, ∃ token ∈ tokens, step.Lands d.path entry token target) ∧
    (((extractions (d.withFiles files) tokens calls).filterMap Step.returned?).map
      Posix.ofText).Nodup := by
  obtain ⟨hopen, -, hroot⟩ := Scratch.openDirectory_spec hd
  refine ⟨fun step hstep => ⟨keeps_of_mem hopen htokens hstep, fun target htarget => ?_⟩,
    nodup_returned hopen hroot htokens calls⟩
  obtain ⟨entry, token, htoken, hlands, -⟩ := lands_of_mem hopen hroot htokens hstep htarget
  exact ⟨entry, token, htoken, hlands⟩

/-- A call that asks for an entry of an archive in memory, which has one entry. -/
def memoryCall (base : Text) : Call .standard where
  opener := Memory.opener [("l.jar".toList, .ok [⟨"../x.y.txt".toList, [1, 2], none, none, 0⟩])]
  reference := .ofSpecific _ base

/-- A token that comes twice makes two files, and one that makes the name of a file is passed
over. -/
theorem extractions_contained_memory : ∃ d : Directory,
    let calls := ["l.jar!/../x.y.txt", "l.jar!/x.txt", "l.jar!/../x.y.txt"].map fun base =>
      memoryCall base.toList
    let steps := extractions (d.withFiles [⟨"xa.txt".toList, [0]⟩])
      ["a".toList, "b".toList, "b".toList, "c".toList] calls
    steps.filterMap Step.returned? =
        ["/tmp/tmp0klsurl/xb.txt".toList, "/tmp/tmp0klsurl/xc.txt".toList] ∧
      ∀ step ∈ steps, step.Keeps := by
  have hd : Scratch.openDirectory ⟨["/tmp".toList], "/tmp".toList, none, [], ⟨.root, []⟩,
      "0".toList⟩ (some Scratch.firstName) ⟨none, none, true⟩ =
      .ok ⟨"/tmp/tmp0klsurl".toList, true, false, some []⟩ := rfl
  have hdigits : ∀ t ∈ ["a".toList, "b".toList, "b".toList, "c".toList],
      t ≠ [] ∧ t.all isHex := by
    decide
  have htokens : ∀ t ∈ ["a".toList, "b".toList, "b".toList, "c".toList], IsToken t :=
    fun t ht => ⟨(hdigits t ht).1, List.all_eq_true.mp (hdigits t ht).2⟩
  refine ⟨⟨"/tmp/tmp0klsurl".toList, true, false, some []⟩, ?_, fun step hstep => ?_⟩
  · decide +kernel
  · exact ((extractions_contained hd _ htokens _).1 step hstep).1

end EntryRef
