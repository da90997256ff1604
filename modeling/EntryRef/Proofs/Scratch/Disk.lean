import EntryRef.Proofs.Scratch.Directory
import EntryRef.Proofs.Scratch.Opening
import EntryRef.Scratch.Disk
import Mathlib.Data.List.Nodup

/-!
# Objects that share a disk

The directory of an object may be in that of another, so that objects get into each other's way:
removing a directory takes everything below it along, and a file may be made anywhere below the
directory of the object that makes it. Nothing else happens to a directory. This rests on the
directories being new ones (`Disk.Fresh`). Each is made right in a directory that stands, so that
what is above a directory has been there from the start or has been made before it
(`Disk.Orderly.rooted`), and nothing is below a directory when it is made
(`Disk.Orderly.files_eq_none_of_new`). What has been removed does not come back.

A disk is `Disk.Orderly` as long as only programs change it. Each step keeps it so, and this is
shown here; runs are left to the programs.

As long as nothing stands below the directory of an object, the disk is as good as a directory of
its own (`Disk.create_of_flat`).

## Main statements

* `Disk.Orderly.own`, `Disk.Orderly.create`, `Disk.Orderly.close`: the steps keep a disk orderly,
* `Disk.Orderly.closes`: what closing an object does to the disk.
-/

namespace EntryRef.Scratch

open Text

variable {s : Surroundings}

/-- What is found, with something else told of what is free. -/
def Found.map {α β : Type} (f : α → β) : Found α → Found β
  | .taken => .taken
  | .free told => .free (f told)

/-- What is told of a free path does not matter for the choice of the token. -/
theorem choose_map {α β : Type} (f : α → β) (seek : Text → Except Fault (Found α))
    (start stop : Text) (tokens : List Text) :
    choose (fun path => (seek path).map (Found.map f)) start stop tokens =
      ((choose seek start stop tokens).1.map (Prod.map id f),
        (choose seek start stop tokens).2) := by
  induction tokens with
  | nil => rfl
  | cons token tokens ih =>
    rw [choose, choose]
    rcases seek (start ++ token ++ stop) with fault | _ | told
    · rfl
    · exact ih
    · rfl

namespace Disk

variable {disk after : Disk} {i j : Nat} {d e : Directory} {o : Owner} {p q : Place}
  {fs : Option (List File)} {path fresh : Text}

/-! ### Directories of objects -/

theorem directory?_eq_some : disk.directory? i = some d ↔
    disk.owners[i]? = some d.owner ∧ disk.files (placeOf d.path) = d.files := by
  rw [directory?, Option.map_eq_some_iff]
  constructor
  · rintro ⟨o, ho, rfl⟩
    exact ⟨ho, rfl⟩
  · rintro ⟨ho, hfiles⟩
    exact ⟨d.owner, ho, congrArg (Directory.mk d.path d.autoClean d.closed) hfiles⟩

/-- Each object has a directory, which may be gone. -/
theorem exists_directory?_of_owner (h : disk.owners[i]? = some o) :
    ∃ d, disk.directory? i = some d ∧ d.owner = o :=
  ⟨⟨o.path, o.autoClean, o.closed, disk.files (placeOf o.path)⟩,
    directory?_eq_some.mpr ⟨h, rfl⟩, rfl⟩

/-- An object that stays has its directory as long as the files there stay. -/
theorem directory?_of_files_eq (h : disk.directory? i = some d)
    (howner : after.owners[i]? = disk.owners[i]?)
    (hfiles : after.files (placeOf d.path) = disk.files (placeOf d.path)) :
    after.directory? i = some d := by
  obtain ⟨ho, hf⟩ := directory?_eq_some.mp h
  exact directory?_eq_some.mpr ⟨howner.trans ho, hfiles.trans hf⟩

private theorem stands_iff : disk.stands p ↔ disk.files p ≠ none := by
  rw [stands, Option.isSome_iff_ne_none]

@[simp]
theorem files_put_self (disk : Disk) (p : Place) (fs : Option (List File)) :
    (disk.put p fs).files p = fs := if_pos rfl

theorem files_put_of_ne (h : q ≠ p) : (disk.put p fs).files q = disk.files q := if_neg h

private theorem files_remove_of_isPrefix (h : p <+: q) : (disk.remove p).files q = none :=
  if_pos (List.isPrefixOf_iff_prefix.mpr h)

private theorem files_remove_of_not_isPrefix (h : ¬p <+: q) :
    (disk.remove p).files q = disk.files q :=
  if_neg fun hprefix => h (List.isPrefixOf_iff_prefix.mp hprefix)

@[simp]
theorem made_clear (disk : Disk) (d : Directory) : (disk.clear d).made = disk.made := by
  rw [clear]
  split
  · rfl
  · rfl

@[simp]
theorem owners_clear (disk : Disk) (d : Directory) : (disk.clear d).owners = disk.owners := by
  rw [clear]
  split
  · rfl
  · rfl

/-! ### Places -/

/-- The places where scratch directories have been made. -/
def sites (disk : Disk) : List Place := disk.made.map placeOf

/-- The places of the directories of the objects. -/
def places (disk : Disk) : List Place := disk.owners.map fun o => placeOf o.path

/-- There is a directory that has been there from the start, or one that stands, or what such a
directory is in. -/
theorem hasDirectory_around : (disk.around s fresh).hasDirectory p ↔
    s.hasDirectory p ∨ ∃ q ∈ disk.sites, disk.files q ≠ none ∧ p <+: q := by
  have hstanding : (disk.standing.any fun path => p.isPrefixOf (placeOf path)) ↔
      ∃ q ∈ disk.sites, disk.files q ≠ none ∧ p <+: q := by
    rw [List.any_eq_true]
    constructor
    · rintro ⟨path, hpath, hprefix⟩
      obtain ⟨hmade, hstands⟩ := List.mem_filter.mp hpath
      exact ⟨placeOf path, List.mem_map.mpr ⟨path, hmade, rfl⟩, stands_iff.mp hstands,
        List.isPrefixOf_iff_prefix.mp hprefix⟩
    · rintro ⟨q, hq, hstands, hprefix⟩
      obtain ⟨path, hmade, rfl⟩ := List.mem_map.mp hq
      exact ⟨path, List.mem_filter.mpr ⟨hmade, stands_iff.mpr hstands⟩,
        List.isPrefixOf_iff_prefix.mpr hprefix⟩
  have happend : (disk.around s fresh).hasDirectory p = (s.hasDirectory p ||
      disk.standing.any fun path => p.isPrefixOf (placeOf path)) := List.any_append
  rw [happend, Bool.or_eq_true, hstanding]

/-- An object whose directory the place is in, or is, has been closed and has removed it. -/
def Gone (disk : Disk) (p : Place) : Prop :=
  ∃ o ∈ disk.owners, o.closed ∧ o.autoClean ∧ placeOf o.path <+: p

/-- No directory has been made where there was one. -/
structure Fresh (s : Surroundings) (disk : Disk) : Prop where
  nodup : disk.sites.Nodup
  new : ∀ p ∈ disk.sites, ¬s.hasDirectory p

/-- Directories that are new at last have always been. -/
theorem Fresh.of_isPrefix (hf : after.Fresh s) (h : disk.made <+: after.made) : disk.Fresh s where
  nodup := hf.nodup.sublist (h.map placeOf).sublist
  new p hp := hf.new p ((h.map placeOf).subset hp)

theorem Fresh.congr (hf : after.Fresh s) (h : after.made = disk.made) : disk.Fresh s :=
  hf.of_isPrefix (h ▸ List.prefix_rfl)

/-- What holds of the disk as long as only programs change it. -/
structure Orderly (s : Surroundings) (disk : Disk) : Prop where
  /-- What a scratch directory is in has been there from the start, or has been made. -/
  rooted : ∀ q ∈ disk.sites, ∀ p, p <+: q → p ≠ q → s.hasDirectory p ∨ p ∈ disk.sites
  /-- There are files in directories alone. -/
  standing : ∀ p, disk.files p ≠ none → p ∈ disk.sites ∨ s.hasDirectory p
  /-- Nothing stands below a scratch directory that is gone. -/
  whole : ∀ p ∈ disk.sites, ∀ q, p <+: q → disk.files p = none → disk.files q = none
  /-- Each object has a directory of its own. -/
  owned : disk.places.Sublist disk.sites
  /-- A directory is gone if and only if an object has removed it. -/
  gone : ∀ o ∈ disk.owners, disk.files (placeOf o.path) = none ↔ disk.Gone (placeOf o.path)

namespace Orderly

/-- A disk without objects is orderly. -/
theorem start {files : Place → Option (List File)} (h : ∀ p, files p ≠ none → s.hasDirectory p) :
    (start files).Orderly s where
  rooted _ hp := absurd hp List.not_mem_nil
  standing p hp := .inr (h p hp)
  whole _ hp := absurd hp List.not_mem_nil
  owned := .slnil
  gone _ ho := absurd ho List.not_mem_nil

/-- The directory of an object has been made. -/
theorem mem_sites (ho : disk.Orderly s) (h : disk.owners[i]? = some o) :
    placeOf o.path ∈ disk.sites :=
  ho.owned.subset (List.mem_map.mpr ⟨o, List.mem_of_getElem? h, rfl⟩)

/-- A disk with the same objects and directories, if not the same files, is as orderly. -/
theorem congr (ho : disk.Orderly s) (hmade : after.made = disk.made)
    (howners : after.owners = disk.owners)
    (hfiles : ∀ p, after.files p = none ↔ disk.files p = none) : after.Orderly s := by
  have hsites : after.sites = disk.sites := congrArg (List.map placeOf) hmade
  have hplaces : after.places = disk.places := congrArg (List.map _) howners
  exact {
    rooted := hsites ▸ ho.rooted
    standing := fun p hp => hsites ▸ ho.standing p (mt (hfiles p).mpr hp)
    whole := fun p hp q hq hnone =>
      (hfiles q).mpr (ho.whole p (hsites ▸ hp) q hq ((hfiles p).mp hnone))
    owned := by
      rw [hsites, hplaces]
      exact ho.owned
    gone := by
      intro o howner
      rw [howners] at howner
      rw [hfiles, ho.gone o howner, Gone, Gone, howners] }

/-- What stands, and what is above it, has been there from the start or has been made. -/
theorem hasDirectory_or_mem (ho : disk.Orderly s) (h : (disk.around s fresh).hasDirectory q)
    (hp : p <+: q) : s.hasDirectory p ∨ p ∈ disk.sites := by
  rcases hasDirectory_around.mp h with h | ⟨r, hr, -, hq⟩
  · exact .inl (Surroundings.hasDirectory_of_isPrefix hp h)
  · by_cases heq : p = r
    · exact .inr (heq ▸ hr)
    · exact ho.rooted r hr p (hp.trans hq) heq

/-- A scratch directory stands if something in it does. -/
theorem files_ne_none_of_isPrefix (ho : disk.Orderly s) (hf : disk.Fresh s) (hp : p ∈ disk.sites)
    (h : (disk.around s fresh).hasDirectory q) (hq : p <+: q) : disk.files p ≠ none := by
  rcases hasDirectory_around.mp h with h | ⟨r, -, hstands, hr⟩
  · exact absurd (Surroundings.hasDirectory_of_isPrefix hq h) (hf.new p hp)
  · exact fun hnone => hstands (ho.whole p hp r (hq.trans hr) hnone)

end Orderly

/-! ### Making a directory -/

theorem sites_mkdir (disk : Disk) (path : Text) :
    (disk.mkdir path).sites = disk.sites ++ [placeOf path] := List.map_append

private theorem mem_sites_mkdir (disk : Disk) (path : Text) :
    placeOf path ∈ (disk.mkdir path).sites := by
  rw [sites_mkdir]
  exact List.mem_append_right _ (List.mem_singleton_self _)

private theorem not_mem_sites_of_mkdir (hf : (disk.mkdir path).Fresh s) :
    placeOf path ∉ disk.sites := by
  have hnodup := hf.nodup
  rw [sites_mkdir] at hnodup
  exact fun h => List.disjoint_of_nodup_append hnodup h (List.mem_singleton_self _)

/-- A directory that has been made before is at another place. -/
theorem ne_of_mem_sites (hf : (disk.mkdir path).Fresh s) (hp : p ∈ disk.sites) :
    p ≠ placeOf path :=
  fun heq => not_mem_sites_of_mkdir hf (heq ▸ hp)

namespace Orderly

/-- Nothing stands where a directory is new, nor below. -/
theorem files_eq_none_of_new (ho : disk.Orderly s) (hf : (disk.mkdir path).Fresh s)
    (hp : placeOf path <+: p) : disk.files p = none := by
  have hnew := hf.new _ (mem_sites_mkdir disk path)
  by_contra hstands
  rcases ho.standing p hstands with hmem | hthere
  · by_cases heq : placeOf path = p
    · exact ne_of_mem_sites hf hmem heq.symm
    · exact (ho.rooted p hmem _ hp heq).elim hnew (not_mem_sites_of_mkdir hf)
  · exact hnew (Surroundings.hasDirectory_of_isPrefix hp hthere)

/-- What stands above a directory when it is made is a directory that stands or has been there. -/
theorem files_ne_none_above (ho : disk.Orderly s) (hf : (disk.mkdir path).Fresh s)
    (hparent : (disk.around s fresh).HasParent (placeOf path)) (hp : p ∈ disk.sites)
    (h : p <+: placeOf path) : disk.files p ≠ none := by
  obtain ⟨up, name, heq, hup⟩ := hparent
  have hne : p ≠ placeOf path := ne_of_mem_sites hf hp
  rw [heq] at h hne
  exact ho.files_ne_none_of_isPrefix (hf.of_isPrefix (List.prefix_append _ _)) hp hup
    ((List.prefix_concat_iff.mp h).resolve_left hne)

theorem mkdir (ho : disk.Orderly s) (hf : (disk.mkdir path).Fresh s)
    (hparent : (disk.around s fresh).HasParent (placeOf path)) :
    (disk.mkdir path).Orderly s where
  rooted q hq p hp hne := by
    rw [sites_mkdir, List.mem_append] at hq ⊢
    rcases hq with hq | hq
    · exact (ho.rooted q hq p hp hne).imp_right .inl
    · obtain rfl := List.mem_singleton.mp hq
      obtain ⟨up, name, heq, hup⟩ := hparent
      rw [heq] at hp hne
      exact (ho.hasDirectory_or_mem hup ((List.prefix_concat_iff.mp hp).resolve_left hne)).imp_right
        .inl
  standing q hq := by
    rw [sites_mkdir, List.mem_append]
    by_cases heq : q = placeOf path
    · exact .inl (.inr (List.mem_singleton.mpr heq))
    · exact (ho.standing q ((files_put_of_ne heq).symm.trans_ne hq)).imp_left .inl
  whole p hp q hq hnone := by
    rw [sites_mkdir, List.mem_append] at hp
    have hne : p ≠ placeOf path := by
      rintro rfl
      cases (files_put_self _ _ _).symm.trans hnone
    have hmem : p ∈ disk.sites := hp.resolve_right fun h => hne (List.mem_singleton.mp h)
    have hbefore : disk.files p = none := (files_put_of_ne hne).symm.trans hnone
    by_cases heq : q = placeOf path
    · subst heq
      exact absurd hbefore (ho.files_ne_none_above hf hparent hmem hq)
    · exact (files_put_of_ne heq).trans (ho.whole p hmem q hq hbefore)
  owned := by
    rw [sites_mkdir]
    exact ho.owned.trans (List.sublist_append_left _ _)
  gone o howner := by
    obtain ⟨i, hi⟩ := List.getElem?_of_mem howner
    have hne := ne_of_mem_sites hf (ho.mem_sites hi)
    exact (iff_of_eq (congrArg (· = none) (files_put_of_ne hne))).trans (ho.gone o howner)

end Orderly

/-- A new owner comes last. -/
theorem getElem?_owners_own (h : disk.owners[i]? = some o) : (disk.own d).owners[i]? = some o :=
  (List.getElem?_append_left (List.getElem?_eq_some_iff.mp h).1).trans h

/-- A new object, being open, has removed nothing. -/
theorem gone_own_iff (hopen : d.closed = false) : (disk.own d).Gone p ↔ disk.Gone p := by
  constructor
  · rintro ⟨o, ho, hclosed, hrest⟩
    rcases List.mem_append.mp ho with ho | ho
    · exact ⟨o, ho, hclosed, hrest⟩
    · rw [List.mem_singleton.mp ho, Directory.owner, hopen] at hclosed
      cases hclosed
  · rintro ⟨o, ho, hrest⟩
    exact ⟨o, List.mem_append_left _ ho, hrest⟩

/-- The object of a new directory is open, and the directory is there. -/
theorem Orderly.own (ho : disk.Orderly s) (hf : (disk.own d).Fresh s) (hopen : d.closed = false)
    (hparent : (disk.around s fresh).HasParent (placeOf d.path)) : (disk.own d).Orderly s := by
  have hf' : (disk.mkdir d.path).Fresh s := ⟨hf.nodup, hf.new⟩
  have hmade := ho.mkdir hf' hparent
  exact {
    rooted := hmade.rooted
    standing := hmade.standing
    whole := hmade.whole
    owned := by
      have hplaces : (disk.own d).places = disk.places ++ [placeOf d.path] := List.map_append
      have hsites : (disk.own d).sites = disk.sites ++ [placeOf d.path] := sites_mkdir disk d.path
      rw [hplaces, hsites]
      exact ho.owned.append (List.Sublist.refl _)
    gone := by
      intro o howner
      rw [gone_own_iff hopen]
      rcases List.mem_append.mp howner with howner | howner
      · exact hmade.gone o howner
      · rw [List.mem_singleton.mp howner]
        refine iff_of_false ?_ ?_
        · exact fun h => nomatch (files_put_self _ _ _).symm.trans h
        · -- what has been removed is not above a directory when it is made
          rintro ⟨o', ho', hclosed, hclean, hprefix⟩
          obtain ⟨i, hi⟩ := List.getElem?_of_mem ho'
          exact ho.files_ne_none_above hf' hparent (ho.mem_sites hi) hprefix
            ((ho.gone o' ho').mpr ⟨o', ho', hclosed, hclean, List.prefix_rfl⟩) }

/-- A directory that is removed right after it has been made leaves the files as they were. -/
theorem Orderly.files_clear_mkdir (ho : disk.Orderly s) (hf : (disk.mkdir d.path).Fresh s)
    (hd : (d.autoClean && !d.closed) = true) :
    ((disk.mkdir d.path).clear d).files = disk.files := by
  funext q
  rw [clear, if_pos hd]
  by_cases hq : placeOf d.path <+: q
  · rw [files_remove_of_isPrefix hq, ho.files_eq_none_of_new hf hq]
  · rw [files_remove_of_not_isPrefix hq]
    exact files_put_of_ne fun heq => hq (heq ▸ List.prefix_rfl)

/-- A directory that is lost right after it has been made belongs to no object. -/
theorem Orderly.lost (ho : disk.Orderly s) (hf : (disk.mkdir d.path).Fresh s)
    (hparent : (disk.around s fresh).HasParent (placeOf d.path)) :
    ((disk.mkdir d.path).clear d).Orderly s := by
  have hmade := ho.mkdir hf hparent
  by_cases hd : (d.autoClean && !d.closed) = true
  · have hfiles := ho.files_clear_mkdir hf hd
    have hsites : ((disk.mkdir d.path).clear d).sites = (disk.mkdir d.path).sites := by
      rw [sites, made_clear, sites]
    have howners : ((disk.mkdir d.path).clear d).owners = disk.owners := owners_clear _ _
    exact {
      rooted := hsites ▸ hmade.rooted
      standing := by
        intro q hq
        rw [hfiles] at hq
        rw [hsites, sites_mkdir]
        exact (ho.standing q hq).imp_left (List.mem_append_left _)
      whole := by
        intro p hp q hq hnone
        rw [hsites, sites_mkdir] at hp
        rw [hfiles] at hnone ⊢
        rcases List.mem_append.mp hp with hp | hp
        · exact ho.whole p hp q hq hnone
        · rw [List.mem_singleton.mp hp] at hq
          exact ho.files_eq_none_of_new hf hq
      owned := by
        rw [places, howners, hsites]
        exact hmade.owned
      gone := by
        rw [hfiles]
        simp only [Gone, howners]
        exact ho.gone }
  · rw [clear, if_neg hd]
    exact hmade

/-! ### Making a file -/

/-- A file can be made right at the place or below. -/
theorem isPrefix_of_walk {segments : List Text} {name : Text}
    (h : disk.walk path segments p = .ok (.free (q, name))) : p <+: q := by
  induction segments generalizing p with
  | nil =>
    rw [walk] at h
    split at h
    · cases h
    · cases h
  | cons segment rest ih =>
    rw [walk] at h
    split at h
    · cases h
    split at h
    · cases h
    split at h
    · split at h
      · cases h
      · obtain ⟨rfl, -⟩ := Prod.mk.inj (Found.free.inj (Except.ok.inj h))
        exact List.prefix_rfl
    · exact (List.prefix_append p [segment]).trans (ih h)

private theorem isPrefix_of_look {root name : Text}
    (h : disk.look root path = .ok (.free (q, name))) :
    placeOf root <+: q := by
  rw [look] at h
  split at h
  · cases h
  split at h
  · cases h
  · exact isPrefix_of_walk h

/-- Making a file makes one in the object's directory or below, or changes nothing. -/
theorem create_cases (disk : Disk) (i : Nat) (start stop : Text) (tokens : List Text) :
    (disk.create i start stop tokens).2.1 = disk ∨
      ∃ o p name, disk.owners[i]? = some o ∧ placeOf o.path <+: p ∧
        (disk.create i start stop tokens).2.1 = disk.add p name := by
  cases howner : disk.owners[i]? with
  | none =>
    rw [create, howner]
    exact .inl rfl
  | some o =>
    simp only [create, howner]
    split
    · exact .inl rfl
    · obtain ⟨-, hchoose⟩ | ⟨before, token, after, -, -, ⟨fault, -, hchoose⟩ |
          ⟨⟨p, name⟩, hlook, hchoose⟩⟩ := choose_cases (disk.look o.path) start stop tokens
      · rw [hchoose]
        exact .inl rfl
      · rw [hchoose]
        exact .inl rfl
      · rw [hchoose]
        exact .inr ⟨o, p, name, rfl, isPrefix_of_look hlook, rfl⟩

theorem made_create (disk : Disk) (i : Nat) (start stop : Text) (tokens : List Text) :
    (disk.create i start stop tokens).2.1.made = disk.made := by
  rcases disk.create_cases i start stop tokens with h | ⟨o, p, name, -, -, h⟩
  · rw [h]
  · rw [h]
    rfl

theorem owners_create (disk : Disk) (i : Nat) (start stop : Text) (tokens : List Text) :
    (disk.create i start stop tokens).2.1.owners = disk.owners := by
  rcases disk.create_cases i start stop tokens with h | ⟨o, p, name, -, -, h⟩
  · rw [h]
  · rw [h]
    rfl

/-- Making a file neither makes nor removes a directory. -/
theorem files_add_eq_none_iff {name : Text} :
    (disk.add p name).files q = none ↔ disk.files q = none := by
  by_cases hq : q = p
  · rw [hq, add, files_put_self, Option.map_eq_none_iff]
  · rw [add, files_put_of_ne hq]

theorem Orderly.create (ho : disk.Orderly s) (i : Nat) (start stop : Text) (tokens : List Text) :
    (disk.create i start stop tokens).2.1.Orderly s := by
  refine ho.congr (disk.made_create i start stop tokens) (disk.owners_create i start stop tokens)
    fun q => ?_
  rcases disk.create_cases i start stop tokens with h | ⟨o, p, name, -, -, h⟩
  · rw [h]
  · rw [h]
    exact files_add_eq_none_iff

/-- Files change in the object's directory, or below it, alone. -/
theorem files_create_of_not_isPrefix (h : disk.owners[i]? = some o)
    (hq : ¬placeOf o.path <+: q) (start stop : Text) (tokens : List Text) :
    (disk.create i start stop tokens).2.1.files q = disk.files q := by
  rcases disk.create_cases i start stop tokens with heq | ⟨o', p, name, ho', hprefix, heq⟩
  · rw [heq]
  · obtain rfl : o = o' := Option.some.inj (h.symm.trans ho')
    rw [heq]
    exact files_put_of_ne fun hqp => hq (hqp ▸ hprefix)

/-- An object that is closed makes no file and changes nothing. -/
theorem create_of_closed (h : disk.owners[i]? = some o) (hclosed : o.closed) (start stop : Text)
    (tokens : List Text) :
    disk.create i start stop tokens = (some (.error .closed), disk, tokens.tail) := by
  rw [create, h]
  exact if_pos hclosed

/-! ### Making a file where nothing is below -/

section Flat

variable {files : List File}

/-- Putting its own files into a directory changes nothing. -/
theorem put_of_files_eq (h : disk.files p = fs) : disk.put p fs = disk := by
  have hfiles : (disk.put p fs).files = disk.files := by
    funext q
    by_cases hq : q = p
    · rw [hq, files_put_self, h]
    · exact files_put_of_ne hq
  exact congrArg (Disk.mk disk.made · disk.owners) hfiles

/-- Where no directory stands below, a path is looked at as in a directory of its own. -/
theorem look_of_flat {root : Text} (hfiles : disk.files (placeOf root) = some files)
    (hflat : ∀ name, disk.files (placeOf root ++ [name]) = none) (path : Text) :
    disk.look root path =
      (Scratch.look root files path).map (Found.map fun name => (placeOf root, name)) := by
  have hbelow : ∀ name, disk.stands (placeOf root ++ [name]) = false := fun name => by
    rw [stands, hflat]
    rfl
  have hstands : disk.stands (placeOf root) = true := by
    rw [stands, hfiles]
    rfl
  rw [look, Scratch.look]
  cases locate root path with
  | error fault => rfl
  | ok segments =>
    cases segments with
    | nil =>
      simp only [walk, hstands]
      rfl
    | cons first more =>
      simp only [walk, hfiles, hbelow, isTooLong, List.isEmpty_cons, Bool.not_false, Bool.true_and,
        Bool.and_true, Bool.or_eq_true, decide_eq_true_eq]
      by_cases hpath : (Utf8.encode (root ++ '/' :: joined "/" (first :: more))).length ≥ maxPath
      · rw [if_pos hpath, if_pos (.inl hpath)]
        rfl
      by_cases hname : (Utf8.encode first).length > maxName
      · rw [if_neg hpath, if_pos hname, if_pos (.inr hname)]
        rfl
      rw [if_neg hpath, if_neg hname, if_neg (not_or.mpr ⟨hpath, hname⟩)]
      cases more with
      | nil =>
        simp only [List.isEmpty_nil, if_true]
        split
        · rfl
        · rfl
      | cons second more =>
        rw [walk, hflat]
        rfl

/-- An object whose directory stands makes files in it as in a directory of its own, as long as no
directory stands below it. -/
theorem create_of_flat (h : disk.directory? i = some d) (hfiles : d.files = some files)
    (hflat : ∀ name, disk.files (placeOf d.path ++ [name]) = none) (start stop : Text)
    (tokens : List Text) :
    disk.create i start stop tokens = (some (d.create start stop tokens).1,
      disk.put (placeOf d.path) (d.create start stop tokens).2.1.files,
      (d.create start stop tokens).2.2) := by
  obtain ⟨howner, hplace⟩ := directory?_eq_some.mp h
  rw [hfiles] at hplace
  have hsame : disk.put (placeOf d.path) d.files = disk :=
    put_of_files_eq (hplace.trans hfiles.symm)
  cases hclosed : d.closed with
  | true =>
    rw [Directory.create, hclosed]
    simp only [hsame]
    exact create_of_closed howner hclosed start stop tokens
  | false =>
    have hlook : disk.look d.path = fun path =>
        (Scratch.look d.path files path).map (Found.map fun name => (placeOf d.path, name)) :=
      funext (look_of_flat hplace hflat)
    have hopen : d.owner.closed = false := hclosed
    rw [create, howner]
    simp only [hopen, Directory.create, hclosed, hfiles]
    rw [if_neg Bool.false_ne_true]
    have hpath : d.owner.path = d.path := rfl
    rw [hpath, hlook, choose_map]
    rcases choose (Scratch.look d.path files) start stop tokens with ⟨fault | ⟨path, name⟩, rest⟩
    · simp only [Except.map, hsame]
    · simp only [Except.map, Prod.map, add, hplace]
      rfl

end Flat

/-! ### Closing -/

theorem close_of_directory? (h : disk.directory? i = some d) :
    disk.close i = { disk.clear d with owners := disk.owners.set i d.close.owner } := by
  rw [close, h]

theorem made_close (disk : Disk) (i : Nat) : (disk.close i).made = disk.made := by
  cases h : disk.directory? i with
  | none => rw [close, h]
  | some d => rw [close_of_directory? h, made_clear]

theorem getElem?_owners_close_of_ne (disk : Disk) (hij : i ≠ j) :
    (disk.close i).owners[j]? = disk.owners[j]? := by
  cases h : disk.directory? i with
  | none => rw [close, h]
  | some d =>
    rw [close_of_directory? h]
    exact List.getElem?_set_ne hij

/-- Closing an object on the disk closes its directory. -/
theorem directory?_close_self (h : disk.directory? i = some d) :
    (disk.close i).directory? i = some d.close := by
  obtain ⟨howner, hfiles⟩ := directory?_eq_some.mp h
  rw [close_of_directory? h]
  refine directory?_eq_some.mpr ⟨List.getElem?_set_self (List.getElem?_eq_some_iff.mp howner).1, ?_⟩
  change (disk.clear d).files (placeOf d.path) = d.close.files
  rw [clear, Directory.close]
  split
  · exact files_remove_of_isPrefix List.prefix_rfl
  · exact hfiles

/-- An object that is closed stays as it is when it is closed again. -/
theorem close_of_closed (h : disk.directory? i = some d) (hd : d.closed) : disk.close i = disk := by
  obtain ⟨howner, -⟩ := directory?_eq_some.mp h
  have hclose : d.close.owner = d.owner := by
    rw [Directory.owner, Directory.owner, hd]
    rfl
  have hclear : disk.clear d = disk := by
    rw [clear, hd, Bool.not_true, Bool.and_false]
    rfl
  obtain ⟨hlt, hget⟩ := List.getElem?_eq_some_iff.mp howner
  rw [close_of_directory? h, hclear, hclose, ← hget, List.set_getElem_self]

/-- Closing removes what the object has its directory above, if that is to be removed. -/
theorem gone_close_iff (h : disk.directory? i = some d) :
    (disk.close i).Gone p ↔ (d.autoClean ∧ placeOf d.path <+: p) ∨ disk.Gone p := by
  obtain ⟨howner, -⟩ := directory?_eq_some.mp h
  have howners : (disk.close i).owners = disk.owners.set i d.close.owner := by
    rw [close_of_directory? h]
  have hlt : i < disk.owners.length := (List.getElem?_eq_some_iff.mp howner).1
  have hself : d.close.owner ∈ disk.owners.set i d.close.owner :=
    List.mem_of_getElem? (List.getElem?_set_self hlt)
  rw [Gone, howners]
  constructor
  · rintro ⟨o, ho, hclosed, hclean, hprefix⟩
    rcases List.mem_or_eq_of_mem_set ho with ho | rfl
    · exact .inr ⟨o, ho, hclosed, hclean, hprefix⟩
    · exact .inl ⟨hclean, hprefix⟩
  · rintro (⟨hclean, hprefix⟩ | ⟨o, ho, hclosed, hclean, hprefix⟩)
    · exact ⟨_, hself, rfl, hclean, hprefix⟩
    · obtain ⟨j, hj⟩ := List.getElem?_of_mem ho
      by_cases hij : i = j
      · -- the object itself has been closed before
        obtain rfl : d.owner = o := Option.some.inj (howner.symm.trans (hij ▸ hj))
        exact ⟨_, hself, rfl, hclean, hprefix⟩
      · exact ⟨o, List.mem_of_getElem? ((List.getElem?_set_ne hij).trans hj), hclosed, hclean,
          hprefix⟩

private theorem places_close (disk : Disk) (i : Nat) : (disk.close i).places = disk.places := by
  cases h : disk.directory? i with
  | none => rw [close, h]
  | some d =>
    have hself : disk.places[i]? = some (placeOf d.path) := by
      rw [places, List.getElem?_map, (directory?_eq_some.mp h).1]
      rfl
    obtain ⟨hlt, hget⟩ := List.getElem?_eq_some_iff.mp hself
    have hplaces : (disk.close i).places = disk.places.set i (placeOf d.path) := by
      rw [close_of_directory? h]
      exact List.map_set
    rw [hplaces, ← hget, List.set_getElem_self]

namespace Orderly

/-- Closing an object whose directory is to be removed removes it with everything below it. -/
theorem files_close_of_isPrefix (ho : disk.Orderly s) (h : disk.directory? i = some d)
    (hclean : d.autoClean) (hp : placeOf d.path <+: p) : (disk.close i).files p = none := by
  obtain ⟨howner, hfiles⟩ := directory?_eq_some.mp h
  rw [close_of_directory? h]
  change (disk.clear d).files p = none
  rw [clear, hclean, Bool.true_and]
  split
  · exact files_remove_of_isPrefix hp
  · next hclosed =>
    -- it has been removed already
    have hclosed' : d.closed = true := by simpa using hclosed
    have hgone : disk.files (placeOf d.path) = none :=
      (ho.gone _ (List.mem_of_getElem? howner)).mpr
        ⟨_, List.mem_of_getElem? howner, hclosed', hclean, List.prefix_rfl⟩
    exact ho.whole _ (ho.mem_sites howner) p hp hgone

end Orderly

/-- Closing an object changes nothing else. -/
theorem files_close_of_not (h : disk.directory? i = some d)
    (hp : ¬(d.autoClean ∧ placeOf d.path <+: p)) : (disk.close i).files p = disk.files p := by
  rw [close_of_directory? h]
  change (disk.clear d).files p = disk.files p
  rw [clear]
  split
  · next hclear =>
    rw [Bool.and_eq_true] at hclear
    exact files_remove_of_not_isPrefix fun hprefix => hp ⟨hclear.1, hprefix⟩
  · rfl

private theorem Orderly.files_close_eq_none_iff (ho : disk.Orderly s)
    (h : disk.directory? i = some d) :
    (disk.close i).files p = none ↔
      (d.autoClean ∧ placeOf d.path <+: p) ∨ disk.files p = none := by
  by_cases hp : d.autoClean ∧ placeOf d.path <+: p
  · exact iff_of_true (ho.files_close_of_isPrefix h hp.1 hp.2) (.inl hp)
  · rw [files_close_of_not h hp]
    exact (or_iff_right hp).symm

theorem Orderly.close (ho : disk.Orderly s) (i : Nat) : (disk.close i).Orderly s := by
  cases h : disk.directory? i with
  | none => rwa [Disk.close, h]
  | some d =>
    have hsites : (disk.close i).sites = disk.sites := congrArg (List.map placeOf)
      (disk.made_close i)
    exact {
      rooted := hsites ▸ ho.rooted
      standing := by
        intro p hp
        rw [hsites]
        exact ho.standing p fun hnone => hp ((ho.files_close_eq_none_iff h).mpr (.inr hnone))
      whole := by
        intro p hp q hq hnone
        rw [hsites] at hp
        exact (ho.files_close_eq_none_iff h).mpr (((ho.files_close_eq_none_iff h).mp hnone).imp
          (fun hclean => ⟨hclean.1, hclean.2.trans hq⟩) (ho.whole p hp q hq))
      owned := by
        rw [places_close, hsites]
        exact ho.owned
      gone := by
        intro o howner
        have hplace : placeOf o.path ∈ disk.places := by
          rw [← places_close disk i]
          exact List.mem_map.mpr ⟨o, howner, rfl⟩
        obtain ⟨o', howner', heq⟩ := List.mem_map.mp hplace
        rw [ho.files_close_eq_none_iff h, gone_close_iff h, ← heq, ho.gone o' howner'] }

/-- What closing an object with the directory `d` does to the disk. -/
structure Closes (i : Nat) (d : Directory) (disk after : Disk) : Prop where
  /-- The object is closed. -/
  self : after.directory? i = some d.close
  /-- Its directory is removed with everything that is in it. -/
  removed : d.autoClean → ∀ p, placeOf d.path <+: p → after.files p = none
  /-- Nothing that is not in it is removed or changed. -/
  spared : ∀ p, ¬placeOf d.path <+: p → after.files p = disk.files p
  /-- No files change if the directory is to be kept. -/
  kept : d.autoClean = false → after.files = disk.files
  /-- The other objects stay as they are. -/
  others : ∀ j, i ≠ j → after.owners[j]? = disk.owners[j]?
  /-- Closing the object again changes nothing. -/
  again : after.close i = after

theorem Orderly.closes (ho : disk.Orderly s) (h : disk.directory? i = some d) :
    Closes i d disk (disk.close i) where
  self := directory?_close_self h
  removed hclean _ hp := ho.files_close_of_isPrefix h hclean hp
  spared _ hp := files_close_of_not h fun hclean => hp hclean.2
  kept hclean := funext fun _ =>
    files_close_of_not h fun h => Bool.false_ne_true (hclean.symm.trans h.1)
  others _ hij := disk.getElem?_owners_close_of_ne hij
  again := close_of_closed (directory?_close_self h) rfl

end Disk

end EntryRef.Scratch
