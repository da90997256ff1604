import EntryRef.Archive.Contents
import EntryRef.Archive.Memory
import EntryRef.Proofs.Archive.Handle

/-!
# The life of a handle

Of the events of an operation, `Traced.calls` are those in which the opener or the handle takes
part; the others only tell what has been done. An operation that `Traced.Uses` a handle looks
entries up and lists them and calls nothing else. This goes through sequencing, so that it holds of
whatever is put together from `Handle.lookup` and `Handle.list`.

`Lifecycle` says in what order the calls of an operation on the archive of a reference come, by the
three ways in which it can go. Every block that uses the handle gives `withArchive` such a life
(`lifecycle_withArchive`), whether it succeeds or fails, and the operations of the library are made
of such blocks (`lifecycle_operations`).
-/

namespace EntryRef

open Text

/-- Does the opener or the handle take part in the event? -/
def Event.isCall : Event → Bool
  | .opening _ | .lookup _ | .listing | .closing => true
  | .opened _ | .extracted .. | .closed _ => false

/-- Does the event use an open handle? -/
def Event.isUse : Event → Bool
  | .lookup _ | .listing => true
  | .opening _ | .opened _ | .extracted .. | .closing | .closed _ => false

namespace Traced

variable {α β : Type}

/-- The calls on the opener and on the handle, in order. -/
def calls (x : Traced α) : List Event := x.events.filter Event.isCall

/-- Nothing is called but lookups and listings. -/
def Uses (x : Traced α) : Prop := ∀ e ∈ x.calls, e.isUse

@[simp]
theorem calls_bind (x : Traced α) (f : α → Traced β) :
    (x >>= f).calls = x.calls ++ (f x.value).calls :=
  List.filter_append ..

/-- What calls nothing uses the archive at most. -/
private theorem uses_of_calls_eq_nil {x : Traced α} (h : x.calls = []) : x.Uses := by
  rw [Uses, h]
  exact fun e he => absurd he List.not_mem_nil

private theorem uses_pure (a : α) : (pure a : Traced α).Uses := uses_of_calls_eq_nil rfl

/-- Uses one after the other are uses. -/
theorem Uses.bind {x : Traced α} {f : α → Traced β} (hx : x.Uses) (hf : (f x.value).Uses) :
    (x >>= f).Uses := by
  intro e he
  rw [calls_bind, List.mem_append] at he
  exact he.elim (hx e) (hf e)

end Traced

open Traced

variable {table : FlagTable} {β : Type} {opener : Opener table} {u : Reference table}

/-! ### Uses of a handle -/

private theorem Handle.uses_lookup (h : Handle table) (name : Text) : (h.lookup name).Uses := by
  intro e he
  obtain rfl : e = .lookup name := List.mem_singleton.mp he
  rfl

private theorem Handle.uses_list (h : Handle table) : h.list.Uses := by
  intro e he
  obtain rfl : e = .listing := List.mem_singleton.mp he
  rfl

/-- Finding an entry only uses the archive. -/
private theorem uses_findEntry (u : Reference table) (path : Text) (h : Handle table) :
    (findEntry u path h).Uses := by
  rw [findEntry]
  cases u.entryName? with
  | none => exact uses_pure _
  | some name =>
    refine (h.uses_lookup name).bind ?_
    cases (h.lookup name).value with
    | none => exact uses_pure _
    | some entry => exact uses_pure _

/-- Data become text without a call. -/
theorem calls_readText (codecs : Codecs) (opener : Opener table) (u : Reference table)
    (encoding : Option Text) :
    (readText codecs opener u encoding).calls = (readData opener u).calls := by
  simp only [readText, calls_bind]
  cases (readData opener u).value <;> exact List.append_nil _

/-- Copying an entry calls nothing on the handle, however it ends. -/
theorem calls_extractEntry (u : Reference table) (path : Text) (entry : Entry table)
    (d : Scratch.Directory) (tokens : List Text) :
    (extractEntry u path entry d tokens).calls = [] := by
  rw [extractEntry]
  split
  · rfl
  split
  · rfl
  dsimp only
  split
  · rfl
  · rfl
  split <;> rfl

/-! ### Lives -/

/-- The calls of an operation on the archive of a reference. Nothing is called where the reference
has no path; where the opener fails this is the only call; and a handle that was opened is used
before it is closed, and closed once. -/
inductive Lifecycle (opener : Opener table) (u : Reference table) : List Event → Prop
  | noPath {why : Authority.Fault} (hpath : u.archivePath = .error why) : Lifecycle opener u []
  | unopened {path : Text} {e : Failure table} (hpath : u.archivePath = .ok path)
      (hopen : opener path = .error e) : Lifecycle opener u [.opening path]
  | closed {path : Text} {h : Handle table} {uses : List Event} (hpath : u.archivePath = .ok path)
      (hopen : opener path = .ok h) (huses : ∀ e ∈ uses, e.isUse) :
      Lifecycle opener u (.opening path :: uses ++ [.closing])

/-- A block that uses its handle has the handle opened before and closed after it. -/
theorem lifecycle_withArchive {fail : Failure table → β} {block : Text → Handle table → Traced β}
    (hblock : ∀ path h, u.archivePath = .ok path → opener path = .ok h → (block path h).Uses) :
    Lifecycle opener u (withArchive opener u fail block).calls := by
  rw [withArchive]
  cases hpath : u.archivePath with
  | error why => exact .noPath hpath
  | ok path =>
    cases hopen : opener path with
    | error e =>
      simp only [hopen]
      exact .unopened hpath hopen
    | ok h =>
      simp only [hopen, calls_bind]
      exact .closed hpath hopen (hblock path h hpath hopen)

/-- **The life of a handle.** Reading, extracting and listing open the archive at the path of the
reference once, then look up and list, and close it once as the last call, with every opener and
whatever goes wrong; and so does every block that looks up and lists. What the block gives, be it a
failure, is what comes of the whole. -/
theorem lifecycle_operations (opener : Opener table) (u : Reference table) :
    (∀ codecs encoding, Lifecycle opener u (readText codecs opener u encoding).calls) ∧
    (∀ d tokens, Lifecycle opener u (extract opener u d tokens).calls) ∧
    Lifecycle opener u (listEntries opener u).calls ∧
    ∀ {β : Type} (fail : Failure table → β) (block : Text → Handle table → Traced β),
      (∀ path h, u.archivePath = .ok path → opener path = .ok h → (block path h).Uses) →
      Lifecycle opener u (withArchive opener u fail block).calls ∧
      ∀ path h, u.archivePath = .ok path → opener path = .ok h →
        (withArchive opener u fail block).value = (block path h).value := by
  refine ⟨fun codecs encoding => ?_, fun d tokens => ?_, ?_, fun fail block hblock => ?_⟩
  · -- the data become text after the archive is closed
    rw [calls_readText]
    refine lifecycle_withArchive fun path h _ _ => (uses_findEntry u path h).bind ?_
    cases (findEntry u path h).value with
    | error e => exact uses_pure _
    | ok entry =>
      dsimp only
      cases entry.readAll with
      | error why => exact uses_pure _
      | ok data => exact uses_pure _
  · refine lifecycle_withArchive fun path h _ _ => (uses_findEntry u path h).bind ?_
    cases (findEntry u path h).value with
    | error e => exact uses_pure _
    | ok entry => exact uses_of_calls_eq_nil (calls_extractEntry u path entry d tokens)
  · refine lifecycle_withArchive fun path h _ _ => h.uses_list.bind ?_
    cases h.list.value with
    | error why => exact uses_pure _
    | ok entries => exact uses_pure _
  · exact ⟨lifecycle_withArchive hblock, fun path h => value_withArchive⟩

/-- A block that lists the entries and then fails, with an error that tells no reference. -/
theorem lifecycle_operations_memory : ∃ (opener : Opener .standard) (u : Reference .standard)
    (block : Text → Handle .standard → Traced (Except (Failure .standard) Unit)),
    u.toText = "kls:file:///a.jar!/B.kt".toList ∧
      Lifecycle opener u (withArchive opener u .error block).calls ∧
      (withArchive opener u .error block).calls =
        [.opening "/a.jar".toList, .listing, .closing] ∧
      (withArchive opener u .error block).value =
        .error (.archive ⟨.told .other "late".toList, none, none⟩) := by
  let block : Text → Handle .standard → Traced (Except (Failure .standard) Unit) := fun _ h => do
    let _ ← h.list
    return .error (.archive ⟨.told .other "late".toList, none, none⟩)
  let opener : Opener .standard :=
    Memory.opener [("/a.jar".toList, .ok [⟨"B.kt".toList, [], none, none, 0⟩])]
  let u : Reference .standard := Reference.ofSpecific _ "file:///a.jar!/B.kt".toList
  have hblock : ∀ path h, u.archivePath = .ok path → opener path = .ok h → (block path h).Uses :=
    fun _ h _ _ => h.uses_list.bind (uses_pure _)
  have hlife := (lifecycle_operations opener u).2.2.2 .error block hblock
  have hpath : u.archivePath = .ok "/a.jar".toList := rfl
  have hopen : opener "/a.jar".toList =
      .ok (Memory.handle [⟨"B.kt".toList, [], none, none, 0⟩]) := rfl
  refine ⟨opener, u, block, rfl, hlife.1, ?_, hlife.2 _ _ hpath hopen⟩
  simp only [withArchive, hpath, hopen]
  rfl

end EntryRef
