import EntryRef.Command.Run
import EntryRef.Proofs.Command.Words
import EntryRef.Proofs.Scratch.Opening
import EntryRef.Zip.Archive

/-!
# Which identifier is judged

A run tells what is wrong with the identifier that it is given, or that it stands for nothing
(`Judges`). It does so for all identifiers but the empty one, which is as good as none unless an
entry is to be extracted (`judges_iff`).
-/

namespace EntryRef.Command

open Text

variable {setting : Setting} {i : Invocation} {m : Mode} {s : Text} {ws : List Text}

/-- The words for an identifier that stands for no reference. -/
def notApplicableLine (s : Text) : Text :=
  "'" ++ s ++ "' does not reference a file or an archive entry\n"

/-- The outcome tells in a line what is wrong with the identifier, or that it stands for nothing. -/
structure Judges (s : Text) (o : Outcome) : Prop where
  malformed : ∀ why, Reference.normalizeText .standard s = .error why →
    o = ⟨.finished 1, [], "ERROR: " ++ why.message ++ ['\n'], []⟩
  not_applicable : Reference.normalizeText .standard s = .ok none →
    o = ⟨.finished 1, [], notApplicableLine s, []⟩

/-! ### The identifier of a run -/

theorem identifierText_eq_self (h : s ≠ [] ∨ m = .extract) : identifierText m (some s) = s := by
  cases s with
  | nil =>
    obtain rfl := h.resolve_left fun hne => hne rfl
    rfl
  | cons c r => cases m <;> rfl

/-- Outside of extracting, an empty identifier is taken for none. -/
private theorem identifierText_nil (h : m ≠ .extract) : identifierText m (some []) = "None" := by
  cases m with
  | extract => exact absurd rfl h
  | _ => rfl

/-- A run whose words can be read is carried out. -/
theorem run_eq (hws : Invocation.ofWords ws = .ok i) : run setting ws = carryOut setting i := by
  rw [run, hws]

/-- What is carried out judges the text that the identifier has become. -/
theorem judges_identifierText (setting : Setting) (hquiet : i.debug = false) :
    Judges (identifierText i.mode i.identifier) (carryOut setting i) := by
  constructor
  · intro why hwhy
    simp only [carryOut, hwhy]
    rfl
  · intro hnone
    simp only [carryOut, hnone, logged, hquiet]
    rfl

/-- Nothing is said about an empty identifier that has become another text. -/
theorem not_judges_nil (hws : Invocation.ofWords ws = .ok i) (hquiet : i.debug = false)
    (hid : i.identifier = some []) (hmode : i.mode ≠ .extract) :
    ¬Judges [] (run setting ws) := by
  intro h
  have hempty : Reference.normalizeText .standard [] = .error (.fault [] .empty) := rfl
  have hother : Reference.normalizeText .standard "None".toList = .ok none := rfl
  have hjudges := judges_identifierText setting hquiet
  rw [hid, identifierText_nil hmode] at hjudges
  have herrors := congrArg Outcome.errors
    ((hjudges.not_applicable hother).symm.trans ((run_eq hws).symm.trans (h.malformed _ hempty)))
  -- one of the lines starts with a quotation mark
  exact absurd (congrArg List.head? herrors) (by decide)

private theorem judges_iff_of_ofWords (hws : Invocation.ofWords ws = .ok i)
    (hquiet : i.debug = false)
    (hid : i.identifier = some s) :
    Judges s (run setting ws) ↔ s ≠ [] ∨ i.mode = .extract := by
  constructor
  · intro h
    by_contra hempty
    rw [not_or, not_not] at hempty
    obtain ⟨rfl, hmode⟩ := hempty
    exact not_judges_nil hws hquiet hid hmode h
  · intro h
    have hjudges := judges_identifierText setting hquiet
    rw [hid, identifierText_eq_self h] at hjudges
    rw [run_eq hws]
    exact hjudges

/-- **Which identifier is judged**: however a mode is given an identifier that does not start with a
dash, the run judges it if and only if it is not empty or an entry is to be extracted. -/
theorem judges_iff (setting : Setting) (hws : Gives (.mode m) s ws) (hs : s.head? ≠ some '-') :
    Judges s (run setting ws) ↔ s ≠ [] ∨ m = .extract :=
  judges_iff_of_ofWords (ofWords_mode hws hs) rfl rfl

/-- What runs depend on where these are the files. -/
def plainSetting (zips : Zip.Files) : Setting :=
  ⟨Zip.opener .none zips, Scratch.plainSurroundings, ["00".toList]⟩

theorem judges_iff_space : run (plainSetting []) ["--list".toList, "a b".toList] =
    ⟨.finished 1, [],
      "ERROR: Malformed identifier 'a b': illegal character ' ' at index 1\n", []⟩ :=
  ((judges_iff (m := .list) (plainSetting []) .long (by decide)).mpr (.inl (by decide))).malformed
    (.fault "a b" (.illegal ' ' 1)) rfl

/-- The run speaks of another identifier than the empty one that it is given. -/
theorem not_judges_empty : ¬Judges [] (run (plainSetting []) ["--info".toList, []]) ∧
    run (plainSetting []) ["--info".toList, []] = ⟨.finished 1, [], notApplicableLine "None", []⟩ :=
  ⟨not_judges_nil (i := ⟨false, none, .info, some []⟩) rfl rfl rfl (by decide), rfl⟩

end EntryRef.Command
