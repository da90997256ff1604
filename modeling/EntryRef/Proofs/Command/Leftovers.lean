import EntryRef.Proofs.Archive.Remains
import EntryRef.Proofs.Command.Judgement

/-!
# What failed runs leave

A run that ends with an error leaves nothing, unless it is to extract an entry
(`leftByFailure_run`). Then it keeps the scratch directory that it has opened. There is no file in
it unless reading the entry has failed, and then there is one.
-/

namespace EntryRef.Command

open Text
open Scratch (Directory File IsToken Surroundings openDirectory firstName)

variable {tools : Zip.Tools} {zips : Zip.Files} {surroundings : Surroundings}
  {tokens : List Text} {ws : List Text}
  {i : Invocation} {u : Reference .standard} {d : Directory} {files : List File}

/-- The scratch directory once a run has ended, with the given files. -/
def kept (d : Directory) (files : List File) : Directory := ⟨d.path, false, true, some files⟩

/-- What may be left by a run that ends with an error. -/
inductive LeftByFailure (tools : Zip.Tools) (zips : Zip.Files) (surroundings : Surroundings)
    (tokens : List Text) (ws : List Text) : List Directory → Prop
  /-- Nothing is left if no entry is to be extracted. -/
  | nothing (hmode : ∀ i u, reference? ws = some (i, u) → i.mode ≠ .extract) :
    LeftByFailure tools zips surroundings tokens ws []
  /-- The scratch directory is left, without files. -/
  | directory {i : Invocation} {u : Reference .standard} {d : Directory}
    {e : ArchiveError .standard} (hu : reference? ws = some (i, u)) (hmode : i.mode = .extract)
    (hd : openDirectory surroundings (some firstName) ⟨none, i.directory, false⟩ = .ok d)
    (he : (extract (Zip.opener tools zips) u d tokens).value.result = .error (.archive e))
    (hkind : e.problem.kind ≠ .reading) :
    LeftByFailure tools zips surroundings tokens ws [kept d []]
  /-- The scratch directory is left with one file, which has the first of the entry's data. -/
  | file {i : Invocation} {u : Reference .standard} {d : Directory} {e : ArchiveError .standard}
    {path token : Text} {a : Zip.Archive} {m : Zip.Member} {first : Bytes}
    (hu : reference? ws = some (i, u)) (hmode : i.mode = .extract)
    (hd : openDirectory surroundings (some firstName) ⟨none, i.directory, false⟩ = .ok d)
    (he : (extract (Zip.opener tools zips) u d tokens).value.result = .error (.archive e))
    (hkind : e.problem.kind = .reading) (hleads : LeadsTo tools zips u path a m)
    (htoken : token ∈ tokens) (hfirst : first <+: a.content m) :
    LeftByFailure tools zips surroundings tokens ws [kept d [⟨targetName m.name token, first⟩]]

/-! ### Extracting -/

/-- A directory that is not cleaned up keeps its files when it is closed. -/
theorem close_withFiles (hd : d.autoClean = false) (files : List File) :
    (d.withFiles files).close = kept d files := by
  simp [Directory.close, Directory.withFiles, kept, hd]

/-- Without a directory, there is an error that is not reported. -/
theorem extractTo_of_error {s : Setting} {parent : Option Text} {why : Scratch.OpenFault}
    (hd : openDirectory s.scratch (some firstName) ⟨none, parent, false⟩ = .error why) :
    (extractTo s parent u).output = .error (.noScratch why) ∧
      (Problem.noScratch why).isReported = false := by
  refine ⟨by simp only [extractTo, hd], ?_⟩
  cases why with
  | noName why => exact absurd hd Scratch.openDirectory_ne_noName
  | _ => rfl

/-- Extracting opens a directory, keeps what comes of the extraction, and tells what that tells. -/
theorem extractTo_of_ok (tools : Zip.Tools) (zips : Zip.Files) (u : Reference .standard)
    (htokens : ∀ t ∈ tokens, IsToken t) {parent : Option Text}
    (hd : openDirectory surroundings (some firstName) ⟨none, parent, false⟩ = .ok d) :
    ∃ x, (extract (Zip.opener tools zips) u d tokens).value = x ∧
      Remains tools zips u d [] tokens x ∧
      (extractTo ⟨Zip.opener tools zips, surroundings, tokens⟩ parent u).output =
        (x.result.mapError .failure).map (· ++ ['\n']) ∧
      (extractTo ⟨Zip.opener tools zips, surroundings, tokens⟩ parent u).left =
        [x.directory.close] := by
  obtain ⟨hopen, hfiles, -⟩ := Scratch.openDirectory_spec hd
  have hempty : d.withFiles [] = d := by
    rw [Directory.withFiles, ← hfiles]
  have hremains := remains_extract tools zips u [] hopen htokens
  rw [hempty] at hremains
  refine ⟨_, rfl, hremains, ?_, ?_⟩
  · simp only [extractTo, hd]
  · simp only [extractTo, hd]

/-! ### Runs -/

private theorem Outcome.ending_ofProblem {errors : Text} {left : List Directory} {why : Problem}
    (h : (Outcome.ofProblem errors left why).ending = .finished 1) : why.isReported = true := by
  rw [ofProblem] at h
  split at h
  · assumption
  · cases h

private theorem Outcome.left_ofProblem (errors : Text) (left : List Directory) (why : Problem) :
    (Outcome.ofProblem errors left why).left = left := by
  rw [ofProblem]
  split
  · rfl
  · rfl

/-- Whatever a run tells, it leaves what its result leaves. -/
theorem Outcome.left_ofResult (errors : List Note → Text) (r : Result) :
    (Outcome.ofResult errors r).left = r.left := by
  rw [ofResult]
  split
  · rfl
  · exact Outcome.left_ofProblem _ _ _

/-- A run with an error has a problem that is reported. -/
theorem Outcome.output_of_finished {errors : List Note → Text} {r : Result}
    (h : (Outcome.ofResult errors r).ending = .finished 1) :
    ∃ why, r.output = .error why ∧ why.isReported = true := by
  rw [ofResult] at h
  split at h
  · cases h
  · next why hwhy => exact ⟨why, hwhy, Outcome.ending_ofProblem h⟩

private theorem reference?_eq (hws : Invocation.ofWords ws = .ok i)
    (hu : Reference.normalizeText .standard (identifierText i.mode i.identifier) = .ok (some u)) :
    reference? ws = some (i, u) := by
  rw [reference?, hws]
  simp only [hu]

/-- Nothing is left where there is no reference. -/
theorem leftByFailure_of_no_reference (hws : Invocation.ofWords ws = .ok i)
    (h : ∀ u,
      Reference.normalizeText .standard (identifierText i.mode i.identifier) ≠ .ok (some u)) :
    LeftByFailure tools zips surroundings tokens ws [] := by
  refine .nothing fun i' u hu => ?_
  rw [reference?, hws] at hu
  simp only at hu
  cases hu

private theorem left_perform_of_ne_extract (s : Setting) (parent : Option Text) {m : Mode}
    (h : m ≠ .extract) : (perform s parent u m).left = [] := by
  cases m with
  | extract => exact absurd rfl h
  | _ => rfl

/-- A failure of an operation that is reported is an error of the archive. -/
private theorem archive_of_isReported {e : Failure .standard}
    (h : (Problem.failure e).isReported = true) :
    ∃ problem, e = .archive problem := by
  cases e with
  | archive problem => exact ⟨problem, rfl⟩
  | _ => cases h

private theorem leftByFailure_extractTo (htokens : ∀ t ∈ tokens, IsToken t)
    (hu : reference? ws = some (i, u)) (hmode : i.mode = .extract) {why : Problem}
    (hwhy : (extractTo ⟨Zip.opener tools zips, surroundings, tokens⟩ i.directory u).output =
      .error why)
    (hreported : why.isReported = true) :
    LeftByFailure tools zips surroundings tokens ws
      (extractTo ⟨Zip.opener tools zips, surroundings, tokens⟩ i.directory u).left := by
  cases hd : openDirectory surroundings (some firstName) ⟨none, i.directory, false⟩ with
  | error e =>
    obtain ⟨houtput, hno⟩ := extractTo_of_error (u := u)
      (s := ⟨Zip.opener tools zips, surroundings, tokens⟩) hd
    obtain rfl := Except.error.inj (houtput.symm.trans hwhy)
    exact absurd (hno.symm.trans hreported) (by decide)
  | ok d =>
    obtain ⟨x, hx, hremains, houtput, hleft⟩ := extractTo_of_ok tools zips u htokens hd
    have hclean := Scratch.autoClean_of_openDirectory hd
    rw [hleft]
    rw [houtput] at hwhy
    cases hremains with
    | nothing hkind =>
      cases hwhy
      obtain ⟨problem, rfl⟩ := archive_of_isReported hreported
      rw [close_withFiles hclean]
      exact .directory hu hmode hd (congrArg Extraction.result hx) (hkind problem rfl)
    | whole hleads htoken hnew hcopies => cases hwhy
    | part hleads htoken hnew hfirst hkind =>
      cases hwhy
      obtain ⟨problem, rfl⟩ := archive_of_isReported hreported
      rw [close_withFiles hclean]
      exact .file hu hmode hd (congrArg Extraction.result hx) (hkind problem rfl) hleads htoken
        hfirst

/-- **What failed runs leave.** -/
theorem leftByFailure_run (htokens : ∀ t ∈ tokens, IsToken t)
    (h : (run ⟨Zip.opener tools zips, surroundings, tokens⟩ ws).ending = .finished 1) :
    LeftByFailure tools zips surroundings tokens ws
      (run ⟨Zip.opener tools zips, surroundings, tokens⟩ ws).left := by
  cases hws : Invocation.ofWords ws with
  | error halt =>
    rw [run, hws] at h
    cases halt with
    | help => cases h
    | fault why => cases h
  | ok i =>
    rw [run_eq hws] at h ⊢
    cases hu : Reference.normalizeText .standard (identifierText i.mode i.identifier) with
    | error why =>
      simp only [carryOut, hu, Outcome.left_ofProblem]
      refine leftByFailure_of_no_reference hws fun u h => ?_
      cases hu.symm.trans h
    | ok u? =>
      cases u? with
      | none =>
        simp only [carryOut, hu]
        refine leftByFailure_of_no_reference hws fun u h => ?_
        cases hu.symm.trans h
      | some u =>
        simp only [carryOut, hu] at h ⊢
        rw [Outcome.left_ofResult]
        have href := reference?_eq hws hu
        by_cases hmode : i.mode = .extract
        · obtain ⟨why, hwhy, hreported⟩ := Outcome.output_of_finished h
          rw [hmode] at hwhy ⊢
          exact leftByFailure_extractTo htokens href hmode hwhy hreported
        · rw [left_perform_of_ne_extract _ _ hmode]
          refine .nothing fun i' u' hu' => ?_
          cases href.symm.trans hu'
          exact hmode

/-- The archive is missing, and the directory stays without a file. -/
theorem leftByFailure_run_missing :
    (run (plainSetting []) ["-x".toList, "kls:file:///l.jar!/a.txt".toList]).ending = .finished 1 ∧
      LeftByFailure .none [] Scratch.plainSurroundings ["00".toList]
        ["-x".toList, "kls:file:///l.jar!/a.txt".toList]
        [kept (Scratch.plainDirectory false) []] := by
  have hending : (run (plainSetting [])
    ["-x".toList, "kls:file:///l.jar!/a.txt".toList]).ending = .finished 1 := rfl
  have htokens : ∀ t ∈ ["00".toList], IsToken t := by decide
  exact ⟨hending, leftByFailure_run htokens hending⟩

/-- **Something may be left**: a run fails and adds a directory. -/
theorem left_of_missing :
    let o := run (plainSetting []) ["--extract".toList, "kls:file:///missing.jar!/a.txt".toList]
    o.ending = .finished 1 ∧ o.left = [kept (Scratch.plainDirectory false) []] :=
  ⟨rfl, rfl⟩

end EntryRef.Command
