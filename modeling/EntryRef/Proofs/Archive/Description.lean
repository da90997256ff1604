import EntryRef.Proofs.Archive.Extraction
import EntryRef.Proofs.Archive.Listing
import EntryRef.Proofs.Reference.Parts

/-!
# Listed references describe their entries

The references of a listing can be asked for the name of a file and its extension without the
archive. They answer in escaped form, cut from the locator, while an extraction cuts the name that
the archive stores. Both come to the same (`listed_describes`): encoding commutes with cutting at
slashes and dots and keeps texts apart, so that a listed reference is called what its entry is
called, has the extension that the entry has, and is for a class if the entry is one. What an
extraction asks the directory for is told by the reference as well (`Describes.asks`).
-/

namespace EntryRef

open Text

variable {table : FlagTable} {opener : Opener table} {u : Reference table}

/-- What the reference `e` tells about an entry of the given name. -/
structure Describes (opener : Opener table) (e : Reference table) (name : Text) : Prop where
  fileName_eq : Percent.decode e.fileName = afterLast '/' name
  extension?_eq_none_iff : e.extension? = none ↔ '.' ∉ afterLast '/' name
  extension_eq : ∀ ext, e.extension? = some ext →
    Percent.decode ext = afterLast '.' (afterLast '/' name)
  isCompiled_iff : e.isCompiled ↔
    '.' ∈ afterLast '/' name ∧ afterLast '.' (afterLast '/' name) = "class".toList
  /-- Where the reference leads to an entry of this name, extracting it asks the directory for a
  file with what the reference tells. -/
  asks : ∀ {entry : Entry table}, Finds opener e entry → entry.name = name →
    '.' ∈ afterLast '/' name → ∃ path ext, e.archivePath = .ok path ∧ e.extension? = some ext ∧
      ∀ d tokens, (extract opener e d tokens).value = fillFile e path entry
        (d.create (Percent.decode (before '.' e.fileName)) ('.' :: Percent.decode ext) tokens)

private theorem describes_withEntry (opener : Opener table) (u : Reference table) (name : Text) :
    Describes opener (u.withEntry name) name where
  fileName_eq := by
    rw [u.fileName_withEntry, Percent.decode_encode Reference.percent_not_plain]
  extension?_eq_none_iff := by
    rw [u.extension?_withEntry, Option.map_eq_none_iff, Locator.extension?_eq_none_iff]
  extension_eq ext hext := by
    rw [u.extension?_withEntry] at hext
    obtain ⟨plain, hplain, rfl⟩ := Option.map_eq_some_iff.mp hext
    rw [Percent.decode_encode Reference.percent_not_plain]
    exact (Locator.extension?_eq_some_iff.mp hplain).2.symm
  isCompiled_iff := by
    rw [u.isCompiled_withEntry, Locator.extension?_eq_some_iff]
  asks := by
    rintro entry ⟨path, h, hpath, hopen, hfind⟩ rfl hdot
    have hext := u.extension?_withEntry entry.name
    rw [Locator.extension?_eq_some_iff.mpr ⟨hdot, rfl⟩, Option.map_some] at hext
    refine ⟨path, _, hpath, hext, fun d tokens => ?_⟩
    rw [extract, value_withArchive hpath hopen, Traced.value_bind, hfind, u.fileName_withEntry,
      Reference.separator_dot.before_encode Reference.percent_not_plain,
      Percent.decode_encode Reference.percent_not_plain,
      Percent.decode_encode Reference.percent_not_plain]
    exact value_extractEntry _ path hdot d tokens

/-- **Listed references describe their entries.** A listing has a reference for each listed entry,
in order, and each tells the name of the file, its extension, if it is a class, and what an
extraction asks for. -/
theorem listed_describes {es : List (Reference table)}
    (h : (listEntries opener u).value = .ok es) :
    ∃ path handle entries, u.archivePath = .ok path ∧ opener path = .ok handle ∧
      handle.entries = .ok entries ∧
      List.Forall₂ (fun e entry => Describes opener e entry.name) es entries := by
  obtain ⟨path, handle, entries, hpath, hopen, hentries, rfl⟩ := listEntries_eq_ok_iff.mp h
  refine ⟨path, handle, entries, hpath, hopen, hentries, ?_⟩
  rw [List.forall₂_map_left_iff, List.forall₂_same]
  exact fun entry _ => describes_withEntry opener u entry.name

/-- An archive in memory whose first entry has the marks of boundaries and of escapes in its name,
and several dots. The second entry has a dot only in the name of its directory. -/
def Memory.named : Opener .standard :=
  Memory.opener [("/l.jar".toList, .ok [⟨"x/é! %41.tar.class".toList, [0xca], none, none, 0⟩,
    ⟨"x.y/read me".toList, [0x68], none, none, 0⟩])]

theorem listed_describes_memory : ∃ u e e' : Reference .standard,
    Reference.parse .standard "kls:file:///l.jar?source=true".toList = .ok u ∧
      (listEntries Memory.named u).value = .ok [e, e'] ∧
      e.toText = "kls:file:///l.jar!/x/%C3%A9%21%20%2541.tar.class?source=true".toList ∧
      Percent.decode e.fileName = "é! %41.tar.class" ∧ e.isCompiled ∧ e'.extension? = none ∧
      ∃ path entry, ∀ d tokens, (extract Memory.named e d tokens).value =
        fillFile e path entry (d.create "é! %41" ".class" tokens) := by
  let u : Reference .standard := .ofSpecific _ "file:///l.jar?source=true".toList
  have hes : (listEntries Memory.named u).value =
      .ok [u.withEntry "x/é! %41.tar.class", u.withEntry "x.y/read me"] := rfl
  obtain ⟨path, handle, entries, hpath, hopen, hentries, hall⟩ := listed_describes hes
  obtain rfl : "/l.jar".toList = path := Except.ok.inj hpath
  obtain rfl := Except.ok.inj hopen
  obtain rfl := Except.ok.inj hentries
  obtain ⟨hfirst, hrest⟩ := List.forall₂_cons.mp hall
  obtain ⟨hsecond, -⟩ := List.forall₂_cons.mp hrest
  have hsegment : afterLast '/' "x/é! %41.tar.class".toList = "é! %41.tar.class".toList := by
    decide
  have hstart : Percent.decode (before '.' (u.withEntry "x/é! %41.tar.class").fileName) =
      "é! %41".toList := by
    decide +kernel
  have hfinds : Finds Memory.named (u.withEntry "x/é! %41.tar.class") _ :=
    ⟨_, _, hpath, rfl, (findEntry_eq_ok_iff (u.entryName?_withEntry _)).mpr rfl⟩
  obtain ⟨path, ext, -, hext, hasks⟩ := hfirst.asks hfinds rfl (by decide)
  have hstop : Percent.decode ext = "class".toList :=
    (hfirst.extension_eq ext hext).trans (by decide)
  rw [hstart, hstop] at hasks
  exact ⟨u, _, _, rfl, hes, rfl, hfirst.fileName_eq.trans hsegment,
    hfirst.isCompiled_iff.mpr (by decide), hsecond.extension?_eq_none_iff.mpr (by decide), path, _,
    hasks⟩

end EntryRef
