import EntryRef.Proofs.Archive.Reading
import EntryRef.Proofs.Command.Leftovers
import EntryRef.Proofs.Reference.Agreement
import EntryRef.Proofs.Table

/-!
# Runs show what operations give

A run with the identifier of a reference does what the operation of its mode does (`Refines`). What
the operation gives is written as it is, an error of the archive in a line, and nothing else; listed
references can be read back from the lines of the table, and the extracted file stays
(`refines_run`).
-/

namespace EntryRef

open Text

/-! ### Listed references -/

/-- The text of an identifier is shown in a table as it is. -/
theorem Table.plain_of_clean {s : Text} (h : Identifier.Clean s) : Table.Plain s := by
  have hlegal : ∀ {c}, Identifier.isIllegal c = true → c ∉ s := fun hc hm =>
    absurd ((h.legal _ hm).symm.trans hc) (by decide)
  refine ⟨fun c hc => ?_, hlegal (by decide), ?_⟩
  · by_contra hblank
    rw [Bool.not_eq_false] at hblank
    exact hlegal (by simp [Identifier.isIllegal, hblank]) hc
  · rintro rfl
    exact hlegal (c := '\x01') (by decide) (List.mem_singleton_self _)

/-- An identifier that is applicable does not start with a dash. -/
theorem Reference.head?_of_normalizeText {table : FlagTable} {s : Text} {u : Reference table}
    (h : normalizeText table s = .ok (some u)) : s.head? ≠ some '-' := by
  have hfault := fault?_eq_none_of_normalizeText h
  rcases normalizeText_cases table hfault with ⟨rest, hs, -⟩ | ⟨rest, hs, -⟩ | hn
  · rw [← Identifier.append_of_splitScheme hs]
    exact nofun
  · rw [← Identifier.append_of_splitScheme hs]
    exact nofun
  · cases hn.symm.trans h

/-- The reference of an identifier is sound. -/
theorem Reference.sound_of_normalizeText {table : FlagTable} (ht : table.Lawful) {s : Text}
    {u : Reference table} (h : normalizeText table s = .ok (some u)) : u.Sound := by
  rcases parse_of_normalizeText (fault?_eq_none_of_normalizeText h) h with ⟨-, hu⟩ | ⟨-, hu⟩
  · exact sound_of_parse ht hu
  · exact sound_of_parse ht hu

namespace Command

open Scratch (Directory File IsToken Surroundings openDirectory firstName)

variable {tools : Zip.Tools} {zips : Zip.Files} {surroundings : Surroundings}
  {tokens : List Text} {ws : List Text}
  {i : Invocation} {u : Reference .standard} {d : Directory} {o : Outcome} {s output : Text}

/-! ### Outcomes -/

namespace Outcome

/-- The run shows a text and is content. -/
structure Shows (o : Outcome) (output : Text) : Prop where
  ending_eq : o.ending = .finished 0
  output_eq : o.output = output
  errors_eq : o.errors = []

/-- The run tells an error. -/
structure Tells (o : Outcome) (words : Text) : Prop where
  ending_eq : o.ending = .finished 1
  output_eq : o.output = []
  errors_eq : o.errors = "ERROR: " ++ words ++ ['\n']

private theorem shows_ofResult {r : Result} (h : r.output = .ok output) :
    (ofResult (logged false) r).Shows output := by
  simp only [ofResult, h]
  exact ⟨rfl, rfl, rfl⟩

private theorem tells_ofResult {r : Result} {e : ArchiveError .standard}
    (h : r.output = .error (.failure (.archive e))) :
    (ofResult (logged false) r).Tells e.problem.message := by
  simp only [ofResult, h]
  exact ⟨rfl, rfl, rfl⟩

end Outcome

/-- The outcome of a run with the reference `u`, as the operations tell it. -/
structure Refines (tools : Zip.Tools) (zips : Zip.Files) (surroundings : Surroundings)
    (tokens : List Text) (i : Invocation) (u : Reference .standard) (o : Outcome) : Prop where
  of_info : i.mode = .info → ∀ output, info u = .ok output → o.Shows output
  /-- What this fails for is no error that is told. -/
  info_fails : i.mode = .info → ∀ why, info u = .error why → why.isReported = false
  of_cat : i.mode = .cat → ∀ codecs t,
    (readText codecs (Zip.opener tools zips) u none).value = .ok t → o.Shows t
  cat_fails : i.mode = .cat → ∀ codecs e,
    (readText codecs (Zip.opener tools zips) u none).value = .error (.archive e) →
      o.Tells e.problem.message
  /-- The lines below the head and the dashes are the listed references, and are read as them. -/
  of_list : i.mode = .list → ∀ es, (listEntries (Zip.opener tools zips) u).value = .ok es →
    o.Shows o.output ∧
      (∃ n, lines o.output = "Url".toList :: List.replicate n '-' :: es.map Reference.toText) ∧
      ∀ e ∈ es, Reference.parse .standard e.toText = .ok e
  list_fails : i.mode = .list → ∀ e,
    (listEntries (Zip.opener tools zips) u).value = .error (.archive e) → o.Tells e.problem.message
  /-- The file stays as the operation leaves it, in the directory that has been opened for it, with
  what copying the entry gives. These are all of its data, and those that reading gives, unless
  something is held back. -/
  of_extract : i.mode = .extract → ∀ d,
    openDirectory surroundings (some firstName) ⟨none, i.directory, false⟩ = .ok d →
    ∀ target, (extract (Zip.opener tools zips) u d tokens).value.result = .ok target →
      o.Shows (target ++ ['\n']) ∧ ∃ name data, target = pathIn d name ∧
        (extract (Zip.opener tools zips) u d tokens).value.directory = d.withFiles [⟨name, data⟩] ∧
        o.left = [kept d [⟨name, data⟩]] ∧
        ∃ path a m, LeadsTo tools zips u path a m ∧
          (a.entry m : Entry .standard).CopiesTo data ∧ data <+: a.content m ∧
          (a.Even m → data = a.content m ∧
            ∀ read, (readData (Zip.opener tools zips) u).value = .ok read → read.2 = data)
  extract_fails : i.mode = .extract → ∀ d,
    openDirectory surroundings (some firstName) ⟨none, i.directory, false⟩ = .ok d →
    ∀ e, (extract (Zip.opener tools zips) u d tokens).value.result = .error (.archive e) →
      o.Tells e.problem.message

/-! ### Modes -/

private theorem output_list (setting : Setting) (parent : Option Text)
    {es : List (Reference .standard)} (hes : (listEntries setting.opener u).value = .ok es) :
    (perform setting parent u .list).output =
      .ok ((Table.single "Url" (es.map Reference.toText)).toText ++ ['\n']) := by
  simp only [perform, Result.ofTraced, Traced.value_bind, hes]
  rw [Table.single, List.map_map]
  rfl

private theorem lines_list {es : List (Reference .standard)}
    (hes : ∀ e ∈ es, Reference.parse .standard e.toText = .ok e) :
    ∃ n, lines ((Table.single "Url" (es.map Reference.toText)).toText ++ ['\n']) =
      "Url".toList :: List.replicate n '-' :: es.map Reference.toText := by
  have hhead : Table.Plain "Url" := by decide
  refine ⟨_, Table.lines_toText_single hhead fun s hs => ?_⟩
  obtain ⟨e, he, rfl⟩ := List.mem_map.mp hs
  obtain ⟨-, -, hclean, -⟩ := Reference.parse_eq_ok_iff.mp (hes e he)
  exact Table.plain_of_clean hclean

/-- Listed references are read from their texts. -/
theorem round_trip_of_listEntries (hu : u.Sound) {es : List (Reference .standard)}
    (hes : (listEntries (Zip.opener tools zips) u).value = .ok es) :
    ∀ e ∈ es, Reference.parse .standard e.toText = .ok e := by
  obtain ⟨path, a, -, -, -, rfl⟩ := listEntries_files.mp hes
  intro e he
  obtain ⟨m, -, rfl⟩ := List.mem_map.mp he
  exact (lists_withEntry (FlagTable.lawful_of_known (.inl rfl)) hu m).round_trip

private theorem content_of_readData {path : Text} {a : Zip.Archive} {m : Zip.Member}
    (hleads : LeadsTo tools zips u path a m) {read : Text × Bytes}
    (heven : a.Even m) (h : (readData (Zip.opener tools zips) u).value = .ok read) :
    read.2 = a.content m := by
  rw [value_readData hleads.path_eq hleads.opener_eq hleads.findEntry_eq] at h
  simp only [Zip.Archive.entry] at h
  cases hmember : a.readMember m with
  | error e =>
    rw [hmember] at h
    cases h
  | ok data =>
    rw [hmember] at h
    cases h
    exact (Zip.Archive.content_of_readMember hmember).2 heven

/-- What is carried out for a reference is what the mode does with it. -/
theorem carryOut_eq {setting : Setting} (hquiet : i.debug = false) (hid : i.identifier = some s)
    (hu : Reference.normalizeText .standard s = .ok (some u)) :
    carryOut setting i = .ofResult (logged false) (perform setting i.directory u i.mode) := by
  have hne : s ≠ [] := by
    rintro rfl
    cases hu
  simp only [carryOut, hid, identifierText_eq_self (.inl hne), hu, hquiet]

private theorem refines_carryOut (htokens : ∀ t ∈ tokens, IsToken t) (hu : u.Sound) :
    Refines tools zips surroundings tokens i u (.ofResult (logged false)
      (perform ⟨Zip.opener tools zips, surroundings, tokens⟩ i.directory u i.mode)) where
  of_info hmode output houtput := by
    rw [hmode]
    exact Outcome.shows_ofResult houtput
  info_fails _ why hwhy := by
    rw [info] at hwhy
    split at hwhy
    · cases hwhy
      rfl
    · cases hwhy
  of_cat hmode codecs t ht := by
    rw [hmode]
    rw [value_readText_default codecs _ u rfl] at ht
    refine Outcome.shows_ofResult ?_
    simp only [perform, Result.ofTraced, ht]
    rfl
  cat_fails hmode codecs e he := by
    rw [hmode]
    rw [value_readText_default codecs _ u rfl] at he
    refine Outcome.tells_ofResult ?_
    simp only [perform, Result.ofTraced, he]
    rfl
  of_list hmode es hes := by
    rw [hmode]
    have hround := round_trip_of_listEntries hu hes
    have hshows := Outcome.shows_ofResult (output_list
      ⟨Zip.opener tools zips, surroundings, tokens⟩ i.directory hes)
    refine ⟨⟨hshows.ending_eq, rfl, hshows.errors_eq⟩, ?_, hround⟩
    rw [hshows.output_eq]
    exact lines_list hround
  list_fails hmode e he := by
    rw [hmode]
    refine Outcome.tells_ofResult ?_
    simp only [perform, Result.ofTraced, Traced.value_bind, he]
    rfl
  of_extract hmode d hd target htarget := by
    rw [hmode]
    obtain ⟨x, rfl, hremains, houtput, hleft⟩ := extractTo_of_ok tools zips u htokens hd
    obtain ⟨name, path, a, m, data, hleads, hcopies, htarget', hdirectory⟩ :=
      hremains.of_ok htarget
    obtain ⟨hfirst, hall⟩ := hcopies.content
    rw [htarget] at houtput
    rw [hdirectory, close_withFiles (Scratch.autoClean_of_openDirectory hd)] at hleft
    refine ⟨Outcome.shows_ofResult houtput, name, data, htarget', hdirectory, ?_, path, a, m,
      hleads, hcopies, hfirst, fun heven => ⟨hall heven, fun read hread => ?_⟩⟩
    · rw [Outcome.left_ofResult]
      exact hleft
    · rw [content_of_readData hleads heven hread, hall heven]
  extract_fails hmode d hd e he := by
    rw [hmode]
    obtain ⟨x, rfl, -, houtput, -⟩ := extractTo_of_ok tools zips u htokens hd
    rw [he] at houtput
    exact Outcome.tells_ofResult houtput

end Command

end EntryRef
