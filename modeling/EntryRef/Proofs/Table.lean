import EntryRef.Proofs.Text.Cutting
import EntryRef.Table

/-!
# Tables of one column

A table of one column with a head shows texts that are plain, without white space or sequences of a
terminal, as they are: its lines are the head, dashes, and one line for each cell
(`Table.toLines_single`). They can be read back from what is written (`Text.lines_joined`).
-/

namespace EntryRef

open Text

/-! ### Lines -/

namespace Text

/-- A line ends at its line feed. -/
private theorem lines_append_feed {l : Text} (hl : ∀ c ∈ l, isLineEnd c = false) (rest : Text) :
    lines (l ++ '\n' :: rest) = l :: lines rest := by
  induction l with
  | nil => rfl
  | cons c l ih =>
    rw [List.forall_mem_cons] at hl
    obtain ⟨hc, hl⟩ := hl
    have hreturn : c ≠ '\r' := by
      rintro rfl
      exact absurd hc (by decide)
    rw [List.cons_append, lines]
    · rw [if_neg (by simp [hc]), ih hl]
    · rintro r rfl
      exact absurd rfl hreturn

/-- Lines that are joined by line feeds are read back. -/
theorem lines_joined {ls : List Text} (hne : ls ≠ [])
    (hls : ∀ l ∈ ls, ∀ c ∈ l, isLineEnd c = false) :
    lines (joined "\n" ls ++ ['\n']) = ls := by
  induction ls with
  | nil => exact absurd rfl hne
  | cons l ls ih =>
    rw [List.forall_mem_cons] at hls
    cases ls with
    | nil =>
      rw [joined, List.flatMap_nil, List.append_nil]
      exact lines_append_feed hls.1 []
    | cons l' ls =>
      have hjoined : joined "\n" (l :: l' :: ls) ++ ['\n'] =
          l ++ '\n' :: (joined "\n" (l' :: ls) ++ ['\n']) := by
        rw [joined_cons_cons, List.append_assoc, List.append_assoc]
        rfl
      rw [hjoined, lines_append_feed hls.1, ih (List.cons_ne_nil _ _) hls.2]

/-- What is not white space does not end a line. -/
theorem isLineEnd_of_not_isBlank {c : Char} (h : isBlank c = false) : isLineEnd c = false := by
  simp only [isBlank, isLineEnd, Bool.or_eq_false_iff, Bool.and_eq_false_iff,
    decide_eq_false_iff_not, beq_eq_false_iff_ne] at h ⊢
  omega

end Text

namespace Table

/-! ### Plain texts -/

/-- The text is shown as it is: it has no white space and starts no sequence of a terminal, and it
does not make a row a line of dashes. -/
structure Plain (s : Text) : Prop where
  not_blank : ∀ c ∈ s, isBlank c = false
  no_escape : escape ∉ s
  ne_ruleMark : s ≠ ruleMark

instance (s : Text) : Decidable (Plain s) :=
  decidable_of_iff (s.all (isBlank · == false) ∧ escape ∉ s ∧ s ≠ ruleMark)
    ⟨fun h => ⟨fun c hc => beq_iff_eq.mp (List.all_eq_true.mp h.1 c hc), h.2.1, h.2.2⟩,
      fun h => ⟨List.all_eq_true.mpr fun c hc => beq_iff_eq.mpr (h.not_blank c hc), h.no_escape,
        h.ne_ruleMark⟩⟩

variable {s head : Text} {cells : List Text} {n m k : Nat}

/-- Plain text is a single line. -/
theorem Plain.isLineEnd (hs : Plain s) : ∀ c ∈ s, isLineEnd c = false := fun c hc =>
  isLineEnd_of_not_isBlank (hs.not_blank c hc)

private theorem Plain.not_isReturn (hs : Plain s) : ∀ c ∈ s, isReturn c = false := by
  intro c hc
  have hblank := hs.not_blank c hc
  rw [isReturn, Bool.or_eq_false_iff, beq_eq_false_iff_ne, beq_eq_false_iff_ne]
  constructor
  · rintro rfl
    exact absurd hblank (by decide)
  · rintro rfl
    exact absurd hblank (by decide)

/-- Every character of plain text takes one column. -/
private theorem Plain.width_eq (hs : Plain s) : width s = s.length := by
  rw [width, visible_eq_self hs.no_escape]

private theorem Plain.hidden_eq (hs : Plain s) : hidden s = 0 := by
  rw [hidden, hs.width_eq, Nat.sub_self]

private theorem Plain.isRule_eq (hs : Plain s) : isRule [s] = false := by
  simp [isRule, hs.ne_ruleMark]

/-- The spaces behind a text are not shown. -/
theorem Plain.line_padded (hs : Plain s) (n : Nat) : line [padded n s] = s := by
  have hjoined : joined "  " [padded n s] = padded n s := List.append_nil _
  rw [line, hjoined, padded]
  refine dropTrailing_append hs.not_blank fun c hc => ?_
  rw [List.eq_of_mem_replicate hc]
  decide

/-- A cell is padded to the width of its column. -/
private theorem width_padded (hs : Plain s) (n : Nat) : width (padded n s) = max n s.length := by
  have hescape : escape ∉ padded n s := by
    rw [padded, List.mem_append, not_or]
    exact ⟨hs.no_escape, fun h => absurd (List.eq_of_mem_replicate h) (by decide)⟩
  rw [width, visible_eq_self hescape, padded, List.length_append, List.length_replicate]
  omega

/-- Plain texts need no special style. -/
theorem style_of_plain (hcells : ∀ s ∈ cells, Plain s) : Style.ofCells cells = ⟨false, false⟩ := by
  have hreturn : (joined "\t" cells).any isReturn = false := by
    rw [List.any_eq_false]
    intro c hc
    rcases mem_joined hc with htab | ⟨s, hs, hmem⟩
    · rw [List.mem_singleton.mp htab]
      decide
    · simp [(hcells s hs).not_isReturn c hmem]
  have hescape : escape ∉ joined "\t" cells := by
    intro hc
    rcases mem_joined hc with htab | ⟨s, hs, hmem⟩
    · exact absurd (List.mem_singleton.mp htab) (by decide)
    · exact (hcells s hs).no_escape hmem
  rw [Style.ofCells]
  simp only [hreturn, hasSequence_eq_false hescape]

/-! ### The column -/

private theorem foldl_max_le_iff {ns : List Nat} :
    ns.foldl max n ≤ k ↔ n ≤ k ∧ ∀ m ∈ ns, m ≤ k := by
  induction ns generalizing n with
  | nil => simp
  | cons m ns ih => rw [List.foldl_cons, ih, Nat.max_le, List.forall_mem_cons, and_assoc]

private theorem le_foldl_max (ns : List Nat) (n : Nat) :
    n ≤ ns.foldl max n ∧ ∀ m ∈ ns, m ≤ ns.foldl max n :=
  foldl_max_le_iff.mp (Nat.le_refl _)

/-- The room that plain cells take below a head. -/
def roomFor (head : Text) (cells : List Text) : Nat :=
  (cells.map List.length).foldl max (head.length + 2)

/-- The column has room for each of its cells. -/
private theorem length_le_roomFor (hs : s ∈ cells) : s.length ≤ roomFor head cells :=
  (le_foldl_max _ _).2 _ (List.mem_map_of_mem hs)

/-- A column that is padded is as wide as the room that its cells take. -/
theorem foldl_max_width_padded (hcells : ∀ s ∈ cells, Plain s) :
    ((cells.map fun s => [padded (roomFor head cells) s]).flatten.map width).foldl max
      (head.length + 2) = roomFor head cells := by
  have hwidths : (cells.map fun s => [padded (roomFor head cells) s]).flatten.map width =
      cells.map fun s => max (roomFor head cells) s.length := by
    rw [← List.flatMap_def, ← List.map_eq_flatMap, List.map_map]
    exact List.map_congr_left fun s hs => width_padded (hcells s hs) _
  rw [hwidths]
  refine Nat.le_antisymm (foldl_max_le_iff.mpr ⟨(le_foldl_max _ _).1, fun m hm => ?_⟩)
    (foldl_max_le_iff.mpr ⟨(le_foldl_max _ _).1, fun m hm => ?_⟩)
  · obtain ⟨s, hs, rfl⟩ := List.mem_map.mp hm
    exact Nat.max_le.mpr ⟨Nat.le_refl _, length_le_roomFor hs⟩
  · obtain ⟨s, hs, rfl⟩ := List.mem_map.mp hm
    exact (Nat.le_max_right _ _).trans ((le_foldl_max _ _).2 _ (List.mem_map_of_mem hs))

/-- Plain cells are padded to the room that they take. -/
theorem column_of_plain (hhead : Plain head) (hcells : ∀ s ∈ cells, Plain s) :
    Column.ofCells ⟨false, false⟩ (headRoom head) cells =
      ⟨cells.map fun s => [padded (roomFor head cells) s], roomFor head cells⟩ := by
  have hleast : headRoom head = head.length + 2 := by rw [headRoom, hhead.width_eq]
  have hroom : (cells.map (Style.room ⟨false, false⟩)).foldl max (headRoom head) =
      roomFor head cells := by
    rw [hleast, roomFor]
    refine congrArg (List.foldl max _) (List.map_congr_left fun s hs => ?_)
    change max 0 (width s) = s.length
    rw [(hcells s hs).width_eq, Nat.zero_max]
  have hlines : cells.map (Style.cellLines ⟨false, false⟩ (roomFor head cells)) =
      cells.map fun s => [padded (roomFor head cells) s] := by
    refine List.map_congr_left fun s hs => ?_
    change [padded (roomFor head cells + hidden s) s] = _
    rw [(hcells s hs).hidden_eq, Nat.add_zero]
  simp only [Column.ofCells, hroom, hlines]
  rw [hleast, foldl_max_width_padded hcells]

/-! ### The table -/

/-- The table of one column. -/
def single (head : Text) (cells : List Text) : Table := ⟨[head], cells.map fun s => [s]⟩

private theorem cellRows_single (hcells : ∀ s ∈ cells, Plain s) :
    (single head cells).cellRows = cells.map fun s => [s] := by
  refine List.filter_eq_self.mpr fun row hrow => ?_
  obtain ⟨s, hs, rfl⟩ := List.mem_map.mp hrow
  rw [(hcells s hs).isRule_eq]
  rfl

private theorem columns_single (hhead : Plain head) (hcells : ∀ s ∈ cells, Plain s) :
    (single head cells).columns =
      [⟨cells.map fun s => [padded (roomFor head cells) s], roomFor head cells⟩] := by
  have hstyle : (single head cells).style = ⟨false, false⟩ := by
    rw [style, cellRows_single hcells, ← List.flatMap_def, ← List.map_eq_flatMap, List.map_id']
    exact style_of_plain (List.forall_mem_cons.mpr ⟨hhead, hcells⟩)
  have hcount : (single head cells).columnCount = 1 := by
    rw [columnCount, cellRows_single hcells]
    refine Nat.le_antisymm (foldl_max_le_iff.mpr ⟨Nat.le_refl _, fun m hm => ?_⟩)
      (le_foldl_max _ _).1
    simp only [List.map_map, List.mem_map] at hm
    obtain ⟨s, -, rfl⟩ := hm
    exact Nat.le_refl _
  have hcellsOf : ((single head cells).cellRows.map fun row => strip isBlank (row[0]?.getD [])) =
      cells := by
    rw [cellRows_single hcells, List.map_map]
    exact (List.map_congr_left fun s hs => strip_eq_self (hcells s hs).not_blank).trans
      (List.map_id cells)
  rw [columns, hcount, hstyle]
  change [Column.ofCells _ (headRoom head) _] = _
  rw [hcellsOf, column_of_plain hhead hcells]

/-- The line of each row shows its cell. -/
theorem bodyLines_single (c : Column) (n : Nat) (hcells : ∀ s ∈ cells, Plain s) :
    bodyLines [c] [cells.map fun s => [padded n s]] (cells.map fun s => [s]) = cells := by
  induction cells with
  | nil => rfl
  | cons s cells ih =>
    rw [List.forall_mem_cons] at hcells
    have hrow : rowLines [c] [[padded n s]] = [s] := by
      change [line [padded n s]] = [s]
      rw [hcells.1.line_padded]
    simp only [List.map_cons, bodyLines, hcells.1.isRule_eq]
    change rowLines [c] [[padded n s]] ++
      bodyLines [c] [cells.map fun s => [padded n s]] (cells.map fun s => [s]) = s :: cells
    rw [hrow, ih hcells.2, List.singleton_append]

/-- **The table of one column**: plain texts are shown as they are. -/
theorem toLines_single (hhead : Plain head) (hcells : ∀ s ∈ cells, Plain s) :
    (single head cells).toLines =
      head :: List.replicate (roomFor head cells) '-' :: cells := by
  have hrule : ∀ n c, rule [⟨c, n⟩] = List.replicate n '-' := by
    intro n c
    have hjoined : joined "  " [List.replicate n '-'] = List.replicate n '-' :=
      List.append_nil _
    have hdashes : ∀ c ∈ List.replicate n '-', isBlank c = false := by
      intro c hc
      rw [List.eq_of_mem_replicate hc]
      decide
    change dropTrailing isBlank (joined "  " [List.replicate n '-']) = _
    rw [hjoined]
    simpa using dropTrailing_append hdashes (t := []) (by simp)
  rw [toLines, columns_single hhead hcells]
  change line [padded _ head] :: rule _ :: bodyLines _ _ _ = _
  rw [hhead.line_padded, hrule]
  exact congrArg (head :: _ :: ·) (bodyLines_single _ _ hcells)

/-- The lines of what is written for a table of one column. -/
theorem lines_toText_single (hhead : Plain head) (hcells : ∀ s ∈ cells, Plain s) :
    lines ((single head cells).toText ++ ['\n']) =
      head :: List.replicate (roomFor head cells) '-' :: cells := by
  rw [toText, toLines_single hhead hcells]
  refine lines_joined (List.cons_ne_nil _ _) fun l hl => ?_
  rcases List.mem_cons.mp hl with rfl | hl
  · exact hhead.isLineEnd
  rcases List.mem_cons.mp hl with rfl | hl
  · intro c hc
    rw [List.eq_of_mem_replicate hc]
    decide
  · exact (hcells l hl).isLineEnd

end Table

end EntryRef
