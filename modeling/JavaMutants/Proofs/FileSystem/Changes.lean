import JavaMutants.Proofs.FileSystem.Tree

/-!
# What operations leave as it is

Making directories and writing files keeps all directories, and all files
but those that are written (`FileSystem.Changes`). So a path at which a file
could be read before leads there still, and the same bytes are read unless the
file was written (`Changes.read`). All of this is said of file systems without
links in which each entry lies in a directory (`FileSystem.IsPlain`), and they
stay such.
-/

namespace JavaMutants.FileSystem

/-- **A file system is plain**: it has no links, and each entry lies in a
directory. -/
structure IsPlain (fs : FileSystem) : Prop where
  /-- There are no links. -/
  linkFree : fs.LinkFree
  /-- What lies somewhere lies in a directory. -/
  rooted : ∀ l e, l ≠ [] → fs.get? l = some e → fs.get? l.dropLast = some .directory

theorem isPlain_empty : empty.IsPlain := by
  have hget : ∀ l e, l ≠ [] → empty.get? l ≠ some e := by
    intro l e hl
    simp [get?, empty, hl]
  refine ⟨fun l target h => ?_, fun l e hl h => absurd h (hget l e hl)⟩
  by_cases hl : l = []
  · rw [hl] at h
    cases h
  · exact hget l _ hl h

/-- **Nothing has changed but the files at some locations**, apart from what there
was not before. -/
structure Changes (ls : List Location) (fs fs' : FileSystem) : Prop where
  /-- The working directory is the same. -/
  here : fs'.here = fs.here
  /-- Directories are kept. -/
  directory : ∀ l, fs.get? l = some .directory → fs'.get? l = some .directory
  /-- Files elsewhere are kept. -/
  file : ∀ l content, l ∉ ls → fs.get? l = some (.file content) →
    fs'.get? l = some (.file content)
  /-- A plain file system stays plain. -/
  isPlain : fs.IsPlain → fs'.IsPlain

namespace Changes

variable {ls ls' : List Location} {fs fs' fs'' : FileSystem}

theorem refl (fs : FileSystem) : Changes [] fs fs :=
  ⟨rfl, fun _ h => h, fun _ _ _ h => h, id⟩

theorem trans (h : Changes ls fs fs') (h' : Changes ls' fs' fs'') :
    Changes (ls ++ ls') fs fs'' where
  here := h'.here.trans h.here
  directory := fun l hl => h'.directory l (h.directory l hl)
  file := fun l content hl hfile => by
    obtain ⟨hleft, hright⟩ := not_or.1 (mt List.mem_append.2 hl)
    exact h'.file l content hright (h.file l content hleft hfile)
  isPlain := fun hplain => h'.isPlain (h.isPlain hplain)

/-- **What is read at a path stays the same** unless the file is one of those that
are written. -/
theorem read (h : Changes ls fs fs') (hplain : fs.IsPlain) {p : Path} {content : List UInt8}
    (hread : fs.read p = .ok content) (hp : p.location fs.here ∉ ls) :
    fs'.read p = .ok content := by
  have hfind := find_of_read hplain.linkFree hread
  have hget := h.file _ content hp (get?_of_walk (walk_of_find hfind))
  unfold FileSystem.read
  rw [find_of_directories h.here h.directory (hplain.linkFree.kept fs') hfind hget nofun]

end Changes

variable {fs fs' : FileSystem}

/-! ## Something new -/

/-- Where a path leads to something new, there is a directory for it. -/
theorem of_find_free {follow : Bool} {p : Path} {pieces : List String} {l : Location}
    (h : fs.find follow p pieces = .ok (.free l)) :
    l ≠ [] ∧ fs.get? l = none ∧ fs.get? l.dropLast = some .directory := by
  have hwalk := walk_of_find h
  obtain ⟨hne, hdir⟩ := get?_dropLast_of_walk hwalk rfl
  exact ⟨hne, get?_of_walk hwalk, hdir⟩

/-- **Putting a file or a directory where there is no directory changes nothing
else.** -/
theorem changes_set {l : Location} (hl : l ≠ []) {e : Entry} (hlink : ∀ target, e ≠ .link target)
    (hdir : fs.get? l ≠ some .directory)
    (hparent : fs.get? l.dropLast = some .directory) : Changes [l] fs (fs.set l e) where
  here := rfl
  directory := fun l' hl' => by
    rw [get?_set fs hl, if_neg (by rintro rfl; exact hdir hl')]
    exact hl'
  file := fun l' content hl' hfile => by
    rw [get?_set fs hl, if_neg (by simpa using hl')]
    exact hfile
  isPlain := fun hplain => by
    have hkept : ∀ l', fs.get? l' = some .directory → (fs.set l e).get? l' = some .directory := by
      intro l' hl'
      rw [get?_set fs hl, if_neg (by rintro rfl; exact hdir hl')]
      exact hl'
    constructor
    · intro l' target hl'
      rw [get?_set fs hl] at hl'
      split at hl'
      · exact hlink target (Option.some.inj hl')
      · exact hplain.linkFree l' target hl'
    · intro l' e' hne hl'
      refine hkept _ ?_
      rw [get?_set fs hl] at hl'
      split at hl'
      next heq => rw [heq]; exact hparent
      next => exact hplain.rooted l' e' hne hl'

/-- **Making a directory changes no file.** -/
theorem changes_of_makeDirectory {p : Path} (h : fs.makeDirectory p = .ok fs') :
    Changes [] fs fs' := by
  unfold makeDirectory place at h
  split at h
  next l hfind =>
    obtain rfl := Except.ok.inj h
    obtain ⟨hne, hnone, hparent⟩ := of_find_free hfind
    have hchanges := changes_set (e := .directory) hne nofun (by rw [hnone]; nofun) hparent
    refine { hchanges with file := fun l' content _ hfile => hchanges.file l' content ?_ hfile }
    rw [List.mem_singleton]
    rintro rfl
    cases hnone.symm.trans hfile
  next => cases h
  next => cases h

theorem changes_of_ensureDirectory {p : Path} (h : fs.ensureDirectory p = .ok fs') :
    Changes [] fs fs' := by
  unfold ensureDirectory at h
  split at h
  next made hmade =>
    cases h
    exact changes_of_makeDirectory hmade
  next =>
    split at h
    · cases h
      exact .refl fs
    · cases h

theorem changes_of_makeDirectoriesUpTo {above : Nat} {p : Path}
    (h : fs.makeDirectoriesUpTo above p = .ok fs') : Changes [] fs fs' := by
  induction above generalizing p fs' with
  | zero => exact changes_of_ensureDirectory h
  | succ above ih =>
    rw [makeDirectoriesUpTo] at h
    split at h
    · cases h
      exact .refl fs
    split at h
    next made hmade =>
      cases h
      exact changes_of_makeDirectory hmade
    next =>
      split at h
      next parent hparent =>
        split at h
        next made hmade => exact (ih hmade).trans (changes_of_ensureDirectory h)
        next => cases h
      next => cases h
    next =>
      split at h
      · cases h
        exact .refl fs
      · cases h

/-! ## Writing -/

theorem steps_of_isOpen_eq_false {p : Path} (h : p.isOpen = false) :
    steps p = p.pieces.filter (· != "") := by
  rw [steps, h]
  exact List.append_nil _

/-- What writing a file does: the path leads to a file or to nothing, and then to
the file with its new bytes. -/
theorem exists_of_write {p : Path} {content : List UInt8} (h : fs.write p content = .ok fs') :
    p.isOpen = false ∧ ∃ place, fs.find true p (p.pieces.filter (· != "")) = .ok place
      ∧ (∀ e, place.entry? = some e → ∃ old, e = .file old)
      ∧ fs' = fs.set place.location (.file content) := by
  unfold write at h
  split at h
  next l old hfind =>
    split at h
    · cases h
    next hopen =>
      cases h
      refine ⟨Bool.eq_false_iff.2 hopen, _, hfind, fun e he => ?_, rfl⟩
      exact ⟨old, (Option.some.inj he).symm⟩
  next l hfind =>
    split at h
    · cases h
    next hopen =>
      cases h
      exact ⟨Bool.eq_false_iff.2 hopen, _, hfind, nofun, rfl⟩
  next => cases h
  next => cases h

/-- **Writing changes one file**, and what has been written can be read. -/
theorem changes_of_write (hplain : fs.IsPlain) {p : Path} {content : List UInt8}
    (h : fs.write p content = .ok fs') :
    Changes [p.location fs.here] fs fs' ∧ fs'.read p = .ok content := by
  obtain ⟨hopen, place, hfind, hfile, rfl⟩ := exists_of_write h
  have hdir : place.entry? ≠ some .directory := fun hentry => nomatch hfile _ hentry
  have hget := get?_of_walk (walk_of_find hfind)
  have hlocation : place.location = p.location fs.here :=
    location_of_find hplain.linkFree (by simp) (filterMap_filter_ne _) hfind
  have hne : place.location ≠ [] := by
    intro hnil
    rw [hnil, get?_nil] at hget
    exact hdir hget.symm
  have hparent : fs.get? place.location.dropLast = some .directory := by
    cases hentry : place.entry? with
    | none => exact (get?_dropLast_of_walk (walk_of_find hfind) hentry).2
    | some e => exact hplain.rooted _ e hne (hget.trans hentry)
  have hchanges := changes_set (e := .file content) hne nofun (hget ▸ hdir) hparent
  refine ⟨hlocation ▸ hchanges, ?_⟩
  have hwritten : (fs.set place.location (.file content)).get? place.location
      = some (.file content) := by
    rw [get?_set fs hne, if_pos rfl]
  unfold read
  rw [steps_of_isOpen_eq_false hopen, find_of_directories hchanges.here hchanges.directory
    (hplain.linkFree.kept _) hfind hwritten nofun]

/-- A walk that ends with a dot or two ends in a directory. -/
theorem entry?_of_walk_dots (hplain : fs.IsPlain) {follow : Bool} {links : Nat} {l : Location}
    {pieces : List String} {n : String} (hlast : pieces.getLast? = some n)
    (hn : n = "." ∨ n = "..") {place : Place}
    (h : fs.walk follow links l pieces = .ok place) : place.entry? = some .directory := by
  have hend : ∀ {links l}, fs.get? l = some .directory → fs.walk follow links l [] = .ok place →
      place.entry? = some .directory := by
    intro links l hl h
    rw [walk, hl] at h
    cases h
    rfl
  -- the last piece is the first one only if there is no other
  have hcons : ∀ {piece rest}, (piece :: rest).getLast? = some n →
      rest = [] ∧ piece = n ∨ rest.getLast? = some n := by
    intro piece rest h
    cases rest with
    | nil => exact .inl ⟨rfl, Option.some.inj h⟩
    | cons q rest => exact .inr h
  fun_induction walk fs follow links l pieces with
  | case1 | case2 => cases hlast
  | case3 => cases h
  | case4 links l piece rest hdir hdot ih =>
    rcases hcons hlast with ⟨rfl, -⟩ | hlast
    · exact hend (by simpa using hdir) h
    · exact ih hlast h
  | case5 links l piece rest hdir hdot hup ih =>
    rcases hcons hlast with ⟨rfl, -⟩ | hlast
    · refine hend ?_ h
      by_cases hl : l = []
      · rw [hl]
        rfl
      · exact hplain.rooted l .directory hl (by simpa using hdir)
    · exact ih hlast h
  | case6 => cases h
  | case7 links l piece rest hdir hdot hup hlong next hnext hrest =>
    obtain rfl := List.isEmpty_iff.1 hrest
    obtain rfl : piece = n := Option.some.inj hlast
    rcases hn with rfl | rfl
    · exact absurd rfl hdot
    · exact absurd rfl hup
  | case8 => cases h
  | case9 _ l piece _ _ _ _ _ next target hnext => exact absurd hnext (hplain.linkFree _ _)
  | case10 => cases h
  | case11 _ _ _ _ _ _ _ next target hnext => exact absurd hnext (hplain.linkFree _ _)
  | case12 links l piece rest hdir hdot hup hlong next entry hentry hnext ih =>
    rcases hcons hlast with ⟨-, rfl⟩ | hlast
    · rcases hn with rfl | rfl
      · exact absurd rfl hdot
      · exact absurd rfl hup
    · exact ih hlast h

/-- **A path to which a file is written does not end with dots.** -/
theorem ne_dots_of_write (hplain : fs.IsPlain) {p : Path} {content : List UInt8}
    (h : fs.write p content = .ok fs') {ps : List String} {n : String}
    (hpieces : p.pieces = ps ++ [n]) : n ≠ "." ∧ n ≠ ".." := by
  obtain ⟨-, place, hfind, hfile, -⟩ := exists_of_write h
  have hdir : place.entry? ≠ some .directory := fun hentry => nomatch hfile _ hentry
  have hnot : ¬ (n = "." ∨ n = "..") := by
    intro hn
    have hne : (n != "") = true := by
      rcases hn with rfl | rfl <;> rfl
    have hlast : (p.pieces.filter (· != "")).getLast? = some n := by
      rw [hpieces, List.filter_append, List.filter_cons_of_pos (by exact hne), List.getLast?_append]
      rfl
    exact hdir (entry?_of_walk_dots hplain hlast hn (walk_of_find hfind))
  exact not_or.1 hnot

end JavaMutants.FileSystem
