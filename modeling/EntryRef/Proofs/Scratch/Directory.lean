import EntryRef.Proofs.Path.Posix
import EntryRef.Proofs.Text.Utf8
import EntryRef.Scratch.Directory

/-!
# Files of scratch directories

A token makes a name that is a single segment, whatever stands around it, if there is no slash. So
`Directory.create` makes a file right in the directory, of a name that no file has, or makes nothing
(`Directory.create_outcome`, `Directory.create_cases`); it makes one where there is room
(`Directory.create_of_hasRoom`).
Writing to a new file leaves the others alone (`Directory.write_append`).
-/

namespace EntryRef.Scratch

open Text
open EntryRef.Path (IsSegment)

variable {root start stop token : Text} {files : List File} {tokens : List Text}

/-! ### Names -/

/-- The text is a token: some hexadecimal digits. -/
structure IsToken (token : Text) : Prop where
  ne_nil : token ≠ []
  digits : ∀ c ∈ token, isHex c

instance (token : Text) : Decidable (IsToken token) :=
  decidable_of_iff (token ≠ [] ∧ token.all isHex)
    ⟨fun h => ⟨h.1, List.all_eq_true.mp h.2⟩, fun h => ⟨h.ne_nil, List.all_eq_true.mpr h.digits⟩⟩

/-- The name of a file: a start, a token, and what stands behind a dot. -/
def nameOf (start token stop : Text) : Text := start ++ token ++ '.' :: stop

/-- A token is a name that a file in the directory can have, whatever stands around it, if there is
no slash. -/
theorem isSegment_of_isToken (hstart : '/' ∉ start) (htoken : IsToken token) (hstop : '/' ∉ stop) :
    IsSegment '/' (start ++ token ++ stop) ∧ start ++ token ++ stop ≠ ['.', '.'] := by
  obtain ⟨c, r, hcons⟩ := List.exists_cons_of_ne_nil htoken.ne_nil
  have hhex : isHex c := htoken.digits c (hcons ▸ List.mem_cons_self)
  have hmem : c ∈ start ++ token ++ stop := by
    rw [hcons]
    exact List.mem_append_left _ (List.mem_append_right _ List.mem_cons_self)
  -- the token has a digit, so that the name is neither `.` nor `..`
  have hdot : c ≠ '.' := by
    rintro rfl
    exact absurd hhex (by decide)
  have hslash : '/' ∉ start ++ token ++ stop := by
    rw [List.mem_append, List.mem_append]
    rintro ((h | h) | h)
    · exact hstart h
    · exact absurd (htoken.digits _ h) (by decide)
    · exact hstop h
  refine ⟨⟨List.ne_nil_of_mem hmem, fun h => ?_, hslash⟩, fun h => ?_⟩
  · rw [h, List.mem_singleton] at hmem
    exact hdot hmem
  · rw [h] at hmem
    simp only [List.mem_cons, List.not_mem_nil, or_false, or_self] at hmem
    exact hdot hmem

theorem isSegment_nameOf (hstart : '/' ∉ start) (htoken : IsToken token) (hstop : '/' ∉ stop) :
    IsSegment '/' (nameOf start token stop) ∧ nameOf start token stop ≠ ['.', '.'] := by
  refine isSegment_of_isToken hstart htoken fun h => ?_
  rcases List.mem_cons.mp h with h | h
  · exact absurd h (by decide)
  · exact hstop h

/-! ### Looking for a name -/

theorem resolve?_of_isSegment {name : Text} (h : IsSegment '/' name) (hup : name ≠ ['.', '.']) :
    resolve? name = some [name] := by
  have henter : enter (some []) name = some [name] := if_neg hup
  rw [resolve?, h.namedSegments_eq, List.foldl_cons, List.foldl_nil, henter]
  rfl

/-- What is wrong with a path as it is has nothing to do with tokens. -/
theorem locate_ne_noToken {path : Text} : locate root path ≠ .error .noToken := by
  unfold locate
  split
  · nofun
  split
  · nofun
  split
  · nofun
  · nofun

private theorem resolve?_of_locate {path : Text} {segments : List Text}
    (h : locate root path = .ok segments) : resolve? path = some segments := by
  unfold locate at h
  split at h
  · cases h
  split at h
  · cases h
  split at h
  · cases h
  · next hresolve => rw [hresolve, Except.ok.inj h]

/-- A path that the system can be asked of leads along its segments. -/
theorem locate_of_resolve? {path : Text} {segments : List Text} (hnull : '\x00' ∉ path)
    (hshort : (systemPath root path).length ≤ maxPath) (h : resolve? path = some segments) :
    locate root path = .ok segments := by
  rw [locate, if_neg (by simpa using hnull), if_neg (Nat.not_lt.mpr hshort), h]

/-- A path that is not refused leads to the directory itself or to a name in it, which is not too
long, and taken if a file has it. -/
theorem look_eq_ok {path : Text} {found : Found Text} (h : look root files path = .ok found) :
    (resolve? path = some [] ∧ found = .taken) ∨ ∃ name, resolve? path = some [name] ∧
      isTooLong (root ++ '/' :: name) name = false ∧
      found = if name ∈ files.map File.name then .taken else .free name := by
  unfold look at h
  split at h
  · cases h
  · next hlocate => exact .inl ⟨resolve?_of_locate hlocate, (Except.ok.inj h).symm⟩
  next first more hlocate =>
  have hresolve := resolve?_of_locate hlocate
  split at h
  · cases h
  next hlong =>
  split at h
  · cases h
  next hmore =>
  obtain rfl : more = [] := by simpa using hmore
  have hjoined : joined "/" [first] = first := List.append_nil first
  rw [hjoined, Bool.not_eq_true] at hlong
  refine .inr ⟨first, hresolve, hlong, ?_⟩
  have htaken : (files.any fun f => f.name == first) ↔ first ∈ files.map File.name := by
    rw [List.any_eq_true, List.mem_map]
    exact exists_congr fun f => and_congr_right fun _ => beq_iff_eq
  simp only [htaken] at h
  split at h
  · next hmem => rw [if_pos hmem, ← Except.ok.inj h]
  · next hmem => rw [if_neg hmem, ← Except.ok.inj h]

/-- That there is no token is not said of a path. -/
theorem fault_ne_noToken {path : Text} {fault : Fault} (h : look root files path = .error fault) :
    fault ≠ .noToken := by
  rintro rfl
  unfold look at h
  split at h
  · next hlocate =>
    rw [Except.error.inj h] at hlocate
    exact locate_ne_noToken hlocate
  · cases h
  split at h
  · cases h
  split at h
  · cases h
  split at h
  · cases h
  · cases h

/-- A segment that is free is the name of the file, which is not too long, and no file has it. -/
theorem look_free {path name : Text} (hpath : IsSegment '/' path) (hup : path ≠ ['.', '.'])
    (h : look root files path = .ok (.free name)) :
    name = path ∧ path ∉ files.map File.name ∧ isTooLong (root ++ '/' :: path) path = false := by
  obtain ⟨hresolve, hfound⟩ | ⟨first, hresolve, hlong, hfound⟩ := look_eq_ok h
  · cases hfound
  · obtain rfl : path = first := by
      rw [resolve?_of_isSegment hpath hup] at hresolve
      exact (List.cons.inj (Option.some.inj hresolve)).1
    split at hfound
    · cases hfound
    · next hnew => exact ⟨Found.free.inj hfound, hnew, hlong⟩

/-- A segment that is not too long, and of which the system can be asked, is taken or free. -/
theorem look_of_isSegment (files : List File) {name : Text} (hname : IsSegment '/' name)
    (hup : name ≠ ['.', '.']) (hnull : '\x00' ∉ name)
    (hlong : isTooLong (root ++ '/' :: name) name = false) :
    look root files name =
      .ok (if name ∈ files.map File.name then .taken else .free name) := by
  have hslash : name.dropWhile (· == '/') = name :=
    dropWhile_eq_self_iff.mpr fun hhead => hname.not_mem (List.mem_of_head? hhead)
  have hshort : (systemPath root name).length ≤ maxPath := by
    have hbytes := Utf8.length_le_length_encode (root ++ '/' :: name)
    simp only [isTooLong, Bool.or_eq_false_iff, decide_eq_false_iff_not] at hlong
    rw [systemPath, hslash]
    omega
  have hjoined : joined "/" [name] = name := List.append_nil name
  have htaken : (files.any fun f => f.name == name) = decide (name ∈ files.map File.name) := by
    rw [Bool.eq_iff_iff, List.any_eq_true, decide_eq_true_iff, List.mem_map]
    exact exists_congr fun f => and_congr_right fun _ => beq_iff_eq
  rw [look, locate_of_resolve? hnull hshort (resolve?_of_isSegment hname hup)]
  simp only [hjoined, hlong, htaken, List.isEmpty_nil]
  by_cases h : name ∈ files.map File.name
  · simp [h]
  · simp [h]

/-- The paths with all tokens are taken, or those before some token, and the path with this one is
refused or free. -/
theorem choose_cases {α : Type} (seek : Text → Except Fault (Found α)) (start stop : Text)
    (tokens : List Text) :
    ((∀ t ∈ tokens, seek (start ++ t ++ stop) = .ok .taken) ∧
      choose seek start stop tokens = (.error .noToken, [])) ∨
    ∃ before token after, tokens = before ++ token :: after ∧
      (∀ t ∈ before, seek (start ++ t ++ stop) = .ok .taken) ∧
      ((∃ fault, seek (start ++ token ++ stop) = .error fault ∧
        choose seek start stop tokens = (.error fault, after)) ∨
      ∃ told, seek (start ++ token ++ stop) = .ok (.free told) ∧
        choose seek start stop tokens = (.ok (start ++ token ++ stop, told), after)) := by
  induction tokens with
  | nil => exact .inl ⟨fun t ht => absurd ht List.not_mem_nil, rfl⟩
  | cons token tokens ih =>
    rw [choose]
    split
    · next fault hlook =>
      exact .inr ⟨[], token, tokens, rfl, fun t ht => absurd ht List.not_mem_nil,
        .inl ⟨fault, hlook, rfl⟩⟩
    · next hlook =>
      rcases ih with ⟨htaken, hchoose⟩ | ⟨before, t, after, rfl, htaken, hlast⟩
      · exact .inl ⟨List.forall_mem_cons.mpr ⟨hlook, htaken⟩, hchoose⟩
      · exact .inr ⟨token :: before, t, after, rfl, List.forall_mem_cons.mpr ⟨hlook, htaken⟩,
          hlast⟩
    · next told hlook =>
      exact .inr ⟨[], token, tokens, rfl, fun t ht => absurd ht List.not_mem_nil,
        .inr ⟨told, hlook, rfl⟩⟩

namespace Directory

/-- The directory with the given files. -/
def withFiles (d : Directory) (files : List File) : Directory := { d with files := some files }

/-- Making a file adds the one that is chosen, and otherwise changes nothing. -/
theorem create_withFiles {d : Directory} (files : List File) (hopen : d.closed = false)
    (start stop : Text) (tokens : List Text) : (d.withFiles files).create start stop tokens =
      match choose (look d.path files) start stop tokens with
      | (.ok (path, name), rest) =>
        (.ok ⟨name, .ofText (systemPath d.path path)⟩, d.withFiles (files ++ [⟨name, []⟩]), rest)
      | (.error fault, rest) => (.error fault, d.withFiles files, rest) := by
  rcases hchoose : choose (look d.path files) start stop tokens with ⟨fault | made, rest⟩
  · simp only [create, withFiles, hopen, hchoose]
  · simp only [create, withFiles, hopen, hchoose]

/-- With a name that has no slash, making a file fails and changes nothing, or makes one right in
the directory, of a name that no file has and that is not too long. It lacks a token only if the
paths with all tokens are taken. -/
theorem create_outcome {d : Directory} (files : List File) (hopen : d.closed = false)
    (hstart : '/' ∉ start) (hstop : '/' ∉ stop) (htokens : ∀ t ∈ tokens, IsToken t) :
    ∃ rest, rest <:+ tokens ∧
      ((∃ fault, (fault = .noToken →
            ∀ t ∈ tokens, look d.path files (start ++ t ++ stop) = .ok .taken) ∧
          (d.withFiles files).create start stop tokens =
            (.error fault, d.withFiles files, rest)) ∨
        ∃ token ∈ tokens, start ++ token ++ stop ∉ files.map File.name ∧
          isTooLong (d.path ++ '/' :: (start ++ token ++ stop)) (start ++ token ++ stop) = false ∧
          (d.withFiles files).create start stop tokens =
            (.ok ⟨start ++ token ++ stop, .ofText (d.path ++ '/' :: (start ++ token ++ stop))⟩,
              d.withFiles (files ++ [⟨start ++ token ++ stop, []⟩]), rest)) := by
  rw [create_withFiles files hopen]
  obtain ⟨htaken, hchoose⟩ | ⟨before, token, after, rfl, -,
      ⟨fault, hfault, hchoose⟩ | ⟨name, hlook, hchoose⟩⟩ :=
    choose_cases (look d.path files) start stop tokens
  · rw [hchoose]
    exact ⟨[], List.nil_suffix, .inl ⟨_, fun _ => htaken, rfl⟩⟩
  · rw [hchoose]
    exact ⟨after, (List.suffix_cons token after).trans (List.suffix_append before _),
      .inl ⟨fault, fun h => absurd h (fault_ne_noToken hfault), rfl⟩⟩
  · have hmem : token ∈ before ++ token :: after :=
      List.mem_append_right before List.mem_cons_self
    obtain ⟨hsegment, hup⟩ := isSegment_of_isToken hstart (htokens token hmem) hstop
    obtain ⟨rfl, hfresh, hlong⟩ := look_free hsegment hup hlook
    -- the system strips leading slashes off the name, and there are none
    have hslash : (start ++ token ++ stop).dropWhile (· == '/') = start ++ token ++ stop :=
      dropWhile_eq_self_iff.mpr fun hhead => hsegment.not_mem (List.mem_of_head? hhead)
    have hpath : systemPath d.path (start ++ token ++ stop) =
        d.path ++ '/' :: (start ++ token ++ stop) := by
      rw [systemPath, hslash]
    rw [hchoose]
    simp only [hpath]
    exact ⟨after, (List.suffix_cons token after).trans (List.suffix_append before _),
      .inr ⟨token, hmem, hfresh, hlong, rfl⟩⟩

theorem create_cases {d : Directory} (files : List File) (hopen : d.closed = false)
    (hstart : '/' ∉ start) (hstop : '/' ∉ stop) (htokens : ∀ t ∈ tokens, IsToken t) :
    ∃ rest, rest <:+ tokens ∧
      ((∃ fault, (d.withFiles files).create start ('.' :: stop) tokens =
          (.error fault, d.withFiles files, rest)) ∨
        ∃ token ∈ tokens, nameOf start token stop ∉ files.map File.name ∧
          (d.withFiles files).create start ('.' :: stop) tokens =
            (.ok ⟨nameOf start token stop, .ofText (d.path ++ '/' :: nameOf start token stop)⟩,
              d.withFiles (files ++ [⟨nameOf start token stop, []⟩]), rest)) := by
  have hdot : '/' ∉ '.' :: stop := fun h =>
    (List.mem_cons.mp h).elim (fun h => absurd h (by decide)) hstop
  obtain ⟨rest, hrest, ⟨fault, -, hcreate⟩ | ⟨token, htoken, hnew, -, hcreate⟩⟩ :=
    create_outcome files hopen hstart hdot htokens
  · exact ⟨rest, hrest, .inl ⟨fault, hcreate⟩⟩
  · exact ⟨rest, hrest, .inr ⟨token, htoken, hnew, hcreate⟩⟩

/-- There is room for the file: no token makes a name that is too long, and some token makes one
that no file has. -/
structure HasRoom (root : Text) (files : List File) (start stop : Text) (tokens : List Text) :
    Prop where
  short : ∀ t ∈ tokens, isTooLong (root ++ '/' :: nameOf start t stop) (nameOf start t stop) = false
  free : ∃ t ∈ tokens, nameOf start t stop ∉ files.map File.name

private theorem choose_of_hasRoom (hstart : '/' ∉ start) (hstop : '/' ∉ stop)
    (htokens : ∀ t ∈ tokens, IsToken t)
    (hnull : ∀ t ∈ tokens, '\x00' ∉ nameOf start t stop)
    (h : HasRoom root files start stop tokens) :
    ∃ made rest, choose (look root files) start ('.' :: stop) tokens = (.ok made, rest) := by
  have hlook : ∀ t ∈ tokens, look root files (start ++ t ++ '.' :: stop) =
      .ok (if nameOf start t stop ∈ files.map File.name then .taken
        else .free (nameOf start t stop)) := by
    intro t ht
    obtain ⟨hsegment, hup⟩ := isSegment_nameOf hstart (htokens t ht) hstop
    exact look_of_isSegment files hsegment hup (hnull t ht) (h.short t ht)
  obtain ⟨htaken, -⟩ | ⟨before, token, after, rfl, -,
      ⟨fault, hfault, -⟩ | ⟨name, -, hchoose⟩⟩ :=
    choose_cases (look root files) start ('.' :: stop) tokens
  · obtain ⟨t, ht, hfree⟩ := h.free
    have hfound := (hlook t ht).symm.trans (htaken t ht)
    rw [if_neg hfree] at hfound
    cases hfound
  · have hmem : token ∈ before ++ token :: after :=
      List.mem_append_right before List.mem_cons_self
    cases (hlook token hmem).symm.trans hfault
  · exact ⟨_, _, hchoose⟩

/-- Where there is room, a file is made. -/
theorem create_of_hasRoom {d : Directory} (hopen : d.closed = false) (hstart : '/' ∉ start)
    (hstop : '/' ∉ stop) (htokens : ∀ t ∈ tokens, IsToken t)
    (hnull : ∀ t ∈ tokens, '\x00' ∉ nameOf start t stop)
    (h : HasRoom d.path files start stop tokens) :
    ∃ rest, ∃ token ∈ tokens, nameOf start token stop ∉ files.map File.name ∧
      (d.withFiles files).create start ('.' :: stop) tokens =
        (.ok ⟨nameOf start token stop, .ofText (d.path ++ '/' :: nameOf start token stop)⟩,
          d.withFiles (files ++ [⟨nameOf start token stop, []⟩]), rest) := by
  obtain ⟨rest, -, ⟨fault, hfault⟩ | hmade⟩ :=
    create_cases files hopen hstart hstop htokens
  · obtain ⟨made, rest', hchoose⟩ := choose_of_hasRoom hstart hstop htokens hnull h
    rw [create_withFiles files hopen, hchoose] at hfault
    cases hfault
  · exact ⟨rest, hmade⟩

/-- The size of a new file can be told. -/
theorem size_new {d : Directory} {name : Text} (hroot : ∃ c ∈ d.path, c ≠ '/')
    (hname : IsSegment '/' name) (hnew : name ∉ files.map File.name)
    (hlong : isTooLong (d.path ++ '/' :: name) name = false) :
    (d.withFiles (files ++ [⟨name, []⟩])).size (.ofText (d.path ++ '/' :: name)) = .ok 0 := by
  have hpath := Path.Posix.ofText_append_cons hroot hname
  have hbelow : (Path.Posix.ofText (d.path ++ '/' :: name)).segments.drop
      (Path.Posix.ofText d.path).segments.length = [name] := by
    rw [hpath]
    exact List.drop_left
  have hshort : isTooLong (Path.Posix.ofText (d.path ++ '/' :: name)).toText name = false := by
    have hsublist : (Path.Posix.ofText (d.path ++ '/' :: name)).toText.Sublist
        (d.path ++ '/' :: name) := by
      refine Path.Posix.toText_ofText_sublist ?_
      rw [hpath]
      exact List.append_ne_nil_of_right_ne_nil _ (List.cons_ne_nil _ _)
    have hbytes := Utf8.length_encode_le hsublist
    simp only [isTooLong, Bool.or_eq_false_iff, decide_eq_false_iff_not] at hlong ⊢
    omega
  have hfind : (files ++ [⟨name, []⟩] : List File).find? (fun f => decide (f.name = name)) =
      some ⟨name, []⟩ := by
    have hnone : files.find? (fun f => f.name = name) = none := by
      refine List.find?_eq_none.mpr fun f hf => ?_
      rw [decide_eq_true_iff]
      rintro rfl
      exact hnew (List.mem_map.mpr ⟨f, hf, rfl⟩)
    rw [List.find?_append, hnone]
    simp
  simp only [size, withFiles, Option.getD_some, hbelow, hshort]
  rw [if_neg Bool.false_ne_true, hfind]
  rfl

/-- Writing to a file of a new name leaves the other files as they are. -/
theorem write_append {d : Directory} {name : Text} (h : name ∉ files.map File.name)
    (old data : Bytes) : (d.withFiles (files ++ [⟨name, old⟩])).write name data =
      d.withFiles (files ++ [⟨name, data⟩]) := by
  have hother : files.map (fun f => if f.name = name then ⟨name, data⟩ else f) = files.map id :=
    List.map_congr_left fun f hf => if_neg fun heq => h (List.mem_map.mpr ⟨f, hf, heq⟩)
  simp only [write, withFiles, Option.map_some, List.map_append, hother, List.map_id,
    List.map_cons, List.map_nil, if_true]

end Directory

end EntryRef.Scratch
