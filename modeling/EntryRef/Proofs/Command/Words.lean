import EntryRef.Command.Invocation
import EntryRef.Proofs.Text.Cutting

/-!
# Switches with values

A switch that takes a value can be given one in several ways (`Gives`): in the next word, or
attached to the switch. All of them are read alike (`Gives.exists_readAs`), so that a command line
of one mode, with or without a directory, asks for just that (`ofWords_mode`,
`ofWords_directory_mode`).
-/

namespace EntryRef.Command

open Text

variable {s : Switch} {m : Mode} {v p : Text} {ws ws' : List Text} {d : Draft}

/-- The words give the switch a value, which does not start with a dash. -/
inductive Gives (s : Switch) (v : Text) : List Text → Prop
  /-- The value is the word behind the switch's name. -/
  | long : Gives s v [s.long, v]
  /-- The value is the word behind the switch's letter. -/
  | letter : Gives s v [['-', s.letter], v]
  /-- The value stands behind the switch's name and an equals sign. -/
  | attached : Gives s v [s.long ++ '=' :: v]
  /-- The value stands right behind the switch's letter. -/
  | glued (hne : v ≠ []) (hequals : v.head? ≠ some '=') : Gives s v ['-' :: s.letter :: v]

/-! ### Words -/

namespace Word

/-- A word without a dash in front is a value. -/
private theorem ofText_value (hv : v.head? ≠ some '-') : ofText v = .ok (.value v) := by
  unfold ofText
  split
  · exact absurd rfl hv
  · exact absurd rfl hv
  · rfl

/-- No switch has the name of another one. -/
private theorem ofName?_name (s : Switch) : Switch.ofName? s.name = some s := by
  cases s with
  | mode m => cases m <;> rfl
  | _ => rfl

/-- No switch has the letter of another one. -/
private theorem ofLetter?_letter (s : Switch) : Switch.ofLetter? s.letter = some s := by
  cases s with
  | mode m => cases m <;> rfl
  | _ => rfl

private theorem equals_not_mem_name (s : Switch) : '=' ∉ s.name := by
  cases s with
  | mode m => cases m <;> decide
  | _ => decide

/-- The name of a switch names it, without a value. -/
private theorem ofText_long (s : Switch) : ofText s.long = .ok (.named s none) := by
  rw [Switch.long, ofText, before_eq_self (equals_not_mem_name s), ofName?_name,
    after?_eq_none (equals_not_mem_name s)]

/-- Behind an equals sign, the name of a switch has its value, which may be empty. -/
private theorem ofText_attached (s : Switch) (v : Text) :
    ofText (s.long ++ '=' :: v) = .ok (.named s (some v)) := by
  have hcons : s.long ++ '=' :: v = '-' :: '-' :: (s.name ++ '=' :: v) := rfl
  rw [hcons, ofText, before_append_cons (equals_not_mem_name s), ofName?_name,
    after?_append_cons (equals_not_mem_name s)]

/-- The letter of a switch names it, without a value. -/
private theorem ofText_letter (s : Switch) : ofText ['-', s.letter] = .ok (.lettered s none) := by
  cases s with
  | mode m => cases m <;> rfl
  | _ => rfl

private theorem letter_ne_dash (s : Switch) : s.letter ≠ '-' := by
  cases s with
  | mode m => cases m <;> decide
  | _ => decide

/-- What stands behind the letter of a switch is its value, unless it starts with an equals sign,
which would be dropped. -/
private theorem ofText_glued (s : Switch) (hne : v ≠ []) (hequals : v.head? ≠ some '=') :
    ofText ('-' :: s.letter :: v) = .ok (.lettered s (some v)) := by
  have hdash := letter_ne_dash s
  have hattached : ∀ r, v ≠ '=' :: r := by
    rintro r rfl
    exact hequals rfl
  simp only [ofText, ofLetter?_letter]

private theorem long_ne_stop (s : Switch) : s.long ≠ ['-', '-'] := by
  cases s with
  | mode m => cases m <;> decide
  | _ => decide

end Word

/-! ### Command lines -/

namespace Draft

/-- Where no letters are left, the value is the one of the switch. -/
private theorem addAll_nil (d : Draft) (s : Switch) (v : Text) : d.addAll [] s v = d.add s v := rfl

/-- A switch that takes a value and has none waits for it. -/
private theorem read_waits (hs : s.takesValue) (hd : d.waiting = none) :
    d.read (.named s none) = .ok { d with waiting := some ([], s) } ∧
      d.read (.lettered s none) = .ok { d with waiting := some ([], s) } := by
  simp only [read, hd, addCluster, hs, if_true, and_self]

/-- The next word is the value that a switch waits for. -/
theorem read_waited (hd : d.waiting = none) (s : Switch) (v : Text) :
    Draft.read { d with waiting := some ([], s) } (.value v) = d.add s v := by
  obtain ⟨debug, directory, choice, waiting, extra⟩ := d
  subst hd
  exact addAll_nil _ s v

/-- A value that is attached to a switch does not have to wait, whichever way it is attached. -/
private theorem read_attached (hs : s.takesValue) (hd : d.waiting = none) (v : Text) :
    d.read (.named s (some v)) = d.add s v ∧ d.read (.lettered s (some v)) = d.add s v := by
  have hcluster : Cluster.ofLetters s v = .ok ⟨[], s, some v⟩ := by
    rw [Cluster.ofLetters.eq_def, hs]
  simp only [read, hd, hs, if_true, hcluster, addCluster, addAll_nil, and_self]

end Draft

/-- The words are read as these ones, whatever follows them. -/
def ReadAs (ws : List Text) (words : List Word) : Prop :=
  ∀ rest, Word.ofTexts (ws ++ rest) = (Word.ofTexts rest).map (words ++ ·)

/-- A word that is no stop is read by itself. -/
private theorem readAs_singleton {w : Text} {word : Word} (hstop : w ≠ ['-', '-'])
    (h : Word.ofText w = .ok word) : ReadAs [w] [word] := by
  intro rest
  rw [List.singleton_append, Word.ofTexts, if_neg hstop, h]
  rfl

/-- Words are read one after another. -/
theorem ReadAs.append {words words' : List Word} (h : ReadAs ws words) (h' : ReadAs ws' words') :
    ReadAs (ws ++ ws') (words ++ words') := by
  intro rest
  rw [List.append_assoc, h, h']
  cases Word.ofTexts rest with
  | error e => rfl
  | ok more => simp only [Except.map, List.append_assoc]

/-- What is read of words in any place is read of them alone. -/
private theorem ReadAs.ofTexts_eq {words : List Word} (h : ReadAs ws words) :
    Word.ofTexts ws = .ok words := by
  have hread := h []
  simpa only [List.append_nil, Word.ofTexts, Except.map] using hread

/-- **All ways to give a value are read alike.** -/
theorem Gives.exists_readAs (h : Gives s v ws) (hs : s.takesValue) (hv : v.head? ≠ some '-') :
    ∃ words, ReadAs ws words ∧
      ∀ d : Draft, d.waiting = none → words.foldlM Draft.read d = d.add s v := by
  have hstop : v ≠ ['-', '-'] := by
    rintro rfl
    exact hv rfl
  have hvalue : ReadAs [v] [.value v] := readAs_singleton hstop (Word.ofText_value hv)
  cases h with
  | long =>
    refine ⟨_, (readAs_singleton (Word.long_ne_stop s) (Word.ofText_long s)).append hvalue,
      fun d hd => ?_⟩
    rw [List.singleton_append, List.foldlM_cons, (Draft.read_waits hs hd).1]
    exact (bind_pure _).trans (Draft.read_waited hd s v)
  | letter =>
    have hdash : ['-', s.letter] ≠ ['-', '-'] := by
      rw [ne_eq, List.cons.injEq, List.cons.injEq]
      exact fun h => Word.letter_ne_dash s h.2.1
    refine ⟨_, (readAs_singleton hdash (Word.ofText_letter s)).append hvalue, fun d hd => ?_⟩
    rw [List.singleton_append, List.foldlM_cons, (Draft.read_waits hs hd).2]
    exact (bind_pure _).trans (Draft.read_waited hd s v)
  | attached =>
    have hdash : s.long ++ '=' :: v ≠ ['-', '-'] := by
      intro h
      have hmem : '=' ∈ s.long ++ '=' :: v := List.mem_append_right _ List.mem_cons_self
      rw [h] at hmem
      exact absurd hmem (by decide)
    refine ⟨_, readAs_singleton hdash (Word.ofText_attached s v), fun d hd => ?_⟩
    exact (bind_pure _).trans (Draft.read_attached hs hd v).1
  | glued hne hequals =>
    have hdash : '-' :: s.letter :: v ≠ ['-', '-'] := by
      rw [ne_eq, List.cons.injEq, List.cons.injEq]
      exact fun h => Word.letter_ne_dash s h.2.1
    refine ⟨_, readAs_singleton hdash (Word.ofText_glued s hne hequals), fun d hd => ?_⟩
    exact (bind_pure _).trans (Draft.read_attached hs hd v).2

private theorem valueOf_eq (hv : v.head? ≠ some '-') : Draft.valueOf v = some v := by
  refine if_neg ?_
  rintro rfl
  exact hv rfl

/-- The first mode that is asked for is the mode. -/
private theorem add_mode (hd : d.choice = none) (m : Mode) (hv : v.head? ≠ some '-') :
    d.add (.mode m) v = .ok { d with choice := some (m, some v) } := by
  simp only [Draft.add, hd, valueOf_eq hv]

/-- A directory that is asked for is the directory, whatever has been asked for before. -/
private theorem add_directory (d : Draft) (hp : p.head? ≠ some '-') :
    d.add .directory p = .ok { d with directory := some p } := by
  simp only [Draft.add, valueOf_eq hp]

/-- A command line of one mode. -/
theorem ofWords_mode (h : Gives (.mode m) v ws) (hv : v.head? ≠ some '-') :
    Invocation.ofWords ws = .ok ⟨false, none, m, some v⟩ := by
  obtain ⟨words, hwords, hadd⟩ := h.exists_readAs rfl hv
  rw [Invocation.ofWords, hwords.ofTexts_eq]
  dsimp only
  rw [hadd Draft.start rfl, add_mode rfl m hv]
  rfl

/-- A command line of one mode with a directory. -/
theorem ofWords_directory_mode (hp : Gives .directory p ws) (hp' : p.head? ≠ some '-')
    (h : Gives (.mode m) v ws') (hv : v.head? ≠ some '-') :
    Invocation.ofWords (ws ++ ws') = .ok ⟨false, some p, m, some v⟩ ∧
      Invocation.ofWords (ws' ++ ws) = .ok ⟨false, some p, m, some v⟩ := by
  obtain ⟨words, hwords, hadd⟩ := hp.exists_readAs rfl hp'
  obtain ⟨words', hwords', hadd'⟩ := h.exists_readAs rfl hv
  rw [Invocation.ofWords, Invocation.ofWords, (hwords.append hwords').ofTexts_eq,
    (hwords'.append hwords).ofTexts_eq]
  dsimp only
  rw [List.foldlM_append, List.foldlM_append, hadd Draft.start rfl, hadd' Draft.start rfl,
    add_directory _ hp', add_mode rfl m hv]
  constructor
  · change (words'.foldlM Draft.read _ >>= Draft.finish) = _
    rw [hadd' _ rfl, add_mode rfl m hv]
    rfl
  · change (words.foldlM Draft.read _ >>= Draft.finish) = _
    rw [hadd _ rfl, add_directory _ hp']
    rfl

end EntryRef.Command
