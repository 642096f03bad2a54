import JavaMutants.Proofs.FileSystem.Changes

/-!
# Files that are missing

A file system from which some files have been taken away
(`FileSystem.without`) is used by the same operations as before. What a path
leads to is the same, unless one of the files is met on the way: at the end of
it there is a free place now, and in the middle nothing can be found where
before something was no directory (`FileSystem.walk_of_lacks`). In both cases
the path never led to a directory.

So whatever could be done can be done without the files, and the two file
systems stay alike (`FileSystem.Lacks`): making directories needs what is not
missing (`makeDirectories_of_lacks`), and a file that is written is
missing no longer (`write_of_lacks`).
-/

namespace JavaMutants.FileSystem

/-- **A file system without what lies at some locations.** -/
def without (fs : FileSystem) (gone : Location → Bool) : FileSystem :=
  { fs with entries := fs.entries.filter fun (l, _) => !gone l }

/-- **Files are missing**: the second file system is like the first one, but
for files at some locations. -/
structure Lacks (gone : Location → Prop) (fs fs' : FileSystem) : Prop where
  /-- The working directory is the same. -/
  here : fs'.here = fs.here
  /-- There are files at these locations, and they are missing. -/
  missing : ∀ l, gone l → fs'.get? l = none ∧ ∃ content, fs.get? l = some (.file content)
  /-- All else is the same. -/
  kept : ∀ l, ¬ gone l → fs'.get? l = fs.get? l
  /-- What lies somewhere lies in a directory. -/
  rooted : ∀ l e, l ≠ [] → fs.get? l = some e → fs.get? l.dropLast = some .directory

/-- **What there is stays**, and only files are given other bytes. -/
structure Keeps (fs fs' : FileSystem) : Prop where
  /-- The working directory is the same. -/
  here : fs'.here = fs.here
  /-- Directories are kept. -/
  directory : ∀ l, fs.get? l = some .directory → fs'.get? l = some .directory
  /-- Links are kept. -/
  link : ∀ l target, fs.get? l = some (.link target) → fs'.get? l = some (.link target)
  /-- Files stay files. -/
  file : ∀ l old, fs.get? l = some (.file old) → ∃ new, fs'.get? l = some (.file new)

variable {gone : Location → Prop} {fs fs' : FileSystem} {follow : Bool} {links : Nat}
  {l : Location} {pieces : List String} {p : Path}

/-! ## Taking files away -/

theorem lookup_filter (keep : Location → Bool) (entries : List (Location × Entry)) (l : Location) :
    (entries.filter fun (l, _) => keep l).lookup l
      = if keep l = true then entries.lookup l else none := by
  induction entries with
  | nil => simp
  | cons e entries ih =>
    obtain ⟨l', e⟩ := e
    by_cases hl : l = l'
    · subst hl
      cases hkeep : keep l with
      | true => simp [hkeep]
      | false => simp [hkeep, ih]
    · cases hkeep : keep l' with
      | true => simp [hkeep, List.lookup_cons, beq_false_of_ne hl, ih]
      | false => simp [hkeep, List.lookup_cons, beq_false_of_ne hl, ih]

/-- What lies at a location once something has been taken away. -/
theorem get?_without (fs : FileSystem) (gone : Location → Bool) (hl : gone [] = false) :
    (fs.without gone).get? l = if gone l = true then none else fs.get? l := by
  unfold get? without
  dsimp only
  rw [lookup_filter fun l => !gone l]
  by_cases hnil : l = []
  · simp [hnil, hl]
  · cases hgone : gone l <;> simp [hnil]

/-- **Without some of its files, a tree lacks these files.** -/
theorem IsTree.lacks_without (h : fs.IsTree) {gone : Location → Bool}
    (hfile : ∀ l, gone l = true → ∃ content, fs.get? l = some (.file content)) :
    Lacks (fun l => gone l = true) fs (fs.without gone) := by
  have hnil : gone [] = false := Bool.eq_false_iff.2 fun hgone => by
    obtain ⟨content, hcontent⟩ := hfile [] hgone
    cases hcontent
  refine ⟨rfl, fun l hl => ⟨?_, hfile l hl⟩, fun l hl => ?_, fun l e hl he => h.get?_dropLast hl he⟩
  · rw [get?_without fs gone hnil, if_pos hl]
  · rw [get?_without fs gone hnil, if_neg hl]

/-! ## Where paths lead -/

namespace Lacks

theorem notGone_of_directory (h : Lacks gone fs fs') (hl : fs.get? l = some .directory) :
    ¬ gone l := by
  intro hgone
  obtain ⟨-, content, hfile⟩ := h.missing l hgone
  cases hl.symm.trans hfile

theorem get?_eq_directory_iff (h : Lacks gone fs fs') (l : Location) :
    fs'.get? l = some .directory ↔ fs.get? l = some .directory := by
  by_cases hgone : gone l
  · obtain ⟨hnone, content, hfile⟩ := h.missing l hgone
    rw [hnone, hfile]
    exact ⟨nofun, nofun⟩
  · rw [h.kept l hgone]

end Lacks

/-- **What becomes of a look-up that meets a missing file.** -/
inductive Missed (gone : Location → Prop) : Except Fault Place → Except Fault Place → Prop where
  /-- Where the file was there is a free place. -/
  | there {l : Location} {content : List UInt8} :
    gone l → Missed gone (.ok (.occupied l (.file content))) (.ok (.free l))
  /-- What was no directory is nothing at all. -/
  | onTheWay : Missed gone (.error .notDirectory) (.error .notFound)

/-- **No way to a directory** begins with these pieces. -/
def DeadEnd (fs : FileSystem) (links : Nat) (l : Location) (pieces : List String) : Prop :=
  ∀ follow more d, fs.walk follow links l (pieces ++ more) ≠ .ok (.occupied d .directory)

/-- **A walk comes to the same** where files are missing, unless it meets one of
them; and then it could not have gone on to a directory. -/
theorem walk_of_lacks (h : Lacks gone fs fs') (hl : ¬ gone l ∨ pieces ≠ []) :
    fs'.walk follow links l pieces = fs.walk follow links l pieces
      ∨ Missed gone (fs.walk follow links l pieces) (fs'.walk follow links l pieces)
        ∧ DeadEnd fs links l pieces := by
  -- directories are where they were
  have hdirectory : ∀ l, (fs'.get? l != some .directory) = (fs.get? l != some .directory) := by
    intro l
    rw [Bool.eq_iff_iff, bne_iff_ne, bne_iff_ne, ne_eq, h.get?_eq_directory_iff]
  have hkept : ∀ {l}, ¬ (fs.get? l != some .directory) = true → ¬ gone l := fun hl =>
    h.notGone_of_directory (by simpa using hl)
  have hsame : ∀ {l e}, fs.get? l = e → (∀ content, e ≠ some (.file content)) →
      fs'.get? l = e := by
    intro l e he hfile
    rw [h.kept l fun hgone => ?_, he]
    obtain ⟨-, content, hcontent⟩ := h.missing l hgone
    exact hfile content (he.symm.trans hcontent)
  fun_induction walk fs follow links l pieces with
  | case1 links l entry hentry =>
    rw [walk, h.kept l (hl.resolve_right fun hne => hne rfl), hentry]
    exact .inl rfl
  | case2 links l hnone =>
    rw [walk, h.kept l (hl.resolve_right fun hne => hne rfl), hnone]
    exact .inl rfl
  | case3 links l piece rest hdir =>
    rw [walk, hdirectory, if_pos hdir]
    exact .inl rfl
  | case4 links l piece rest hdir hdot ih =>
    rw [walk, hdirectory, if_neg hdir, if_pos hdot]
    refine (ih (.inl (hkept hdir))).imp_right (And.imp_right fun hdead => ?_)
    intro follow' more d
    rw [List.cons_append, walk, if_neg hdir, if_pos hdot]
    exact hdead follow' more d
  | case5 links l piece rest hdir hdot hup ih =>
    rw [walk, hdirectory, if_neg hdir, if_neg hdot, if_pos hup]
    have hparent : ¬ gone l.dropLast := by
      by_cases hnil : l = []
      · rw [hnil]
        exact h.notGone_of_directory rfl
      · exact h.notGone_of_directory (h.rooted l .directory hnil (by simpa using hdir))
    refine (ih (.inl hparent)).imp_right (And.imp_right fun hdead => ?_)
    intro follow' more d
    rw [List.cons_append, walk, if_neg hdir, if_neg hdot, if_pos hup]
    exact hdead follow' more d
  | case6 links l piece rest hdir hdot hup hlong =>
    rw [walk, hdirectory, if_neg hdir, if_neg hdot, if_neg hup, if_pos hlong]
    exact .inl rfl
  | case7 links l piece rest hdir hdot hup hlong next hnext hrest =>
    rw [walk, hdirectory, if_neg hdir, if_neg hdot, if_neg hup, if_neg hlong]
    have hnext' : fs'.get? (l ++ [piece]) = none := hsame hnext (by simp)
    simp only [hnext', hrest, if_true]
    exact .inl rfl
  | case8 links l piece rest hdir hdot hup hlong next hnext hrest =>
    rw [walk, hdirectory, if_neg hdir, if_neg hdot, if_neg hup, if_neg hlong]
    have hnext' : fs'.get? (l ++ [piece]) = none := hsame hnext (by simp)
    simp only [hnext', hrest]
    exact .inl rfl
  | case9 links l piece rest hdir hdot hup hlong next target hnext hstop =>
    rw [walk, hdirectory, if_neg hdir, if_neg hdot, if_neg hup, if_neg hlong]
    have hnext' : fs'.get? (l ++ [piece]) = some (.link target) := hsame hnext (by simp)
    simp only [hnext', hstop, if_true]
    exact .inl rfl
  | case10 l piece rest hdir hdot hup hlong next target hnext hgo =>
    rw [walk, hdirectory, if_neg hdir, if_neg hdot, if_neg hup, if_neg hlong]
    have hnext' : fs'.get? (l ++ [piece]) = some (.link target) := hsame hnext (by simp)
    simp only [hnext', hgo]
    exact .inl rfl
  | case11 l piece rest hdir hdot hup hlong next target hnext hgo left ih =>
    rw [walk, hdirectory, if_neg hdir, if_neg hdot, if_neg hup, if_neg hlong]
    have hnext' : fs'.get? (l ++ [piece]) = some (.link target) := hsame hnext (by simp)
    simp only [hnext', hgo]
    have horigin : ¬ gone (origin l target) := by
      unfold origin
      split
      · exact h.notGone_of_directory rfl
      · exact hkept hdir
    refine (ih (.inl horigin)).imp_right (And.imp_right fun hdead => ?_)
    intro follow' more d
    rw [List.cons_append, walk, if_neg hdir, if_neg hdot, if_neg hup, if_neg hlong]
    dsimp only
    rw [show fs.get? (l ++ [piece]) = some (.link target) from hnext]
    dsimp only
    split
    · simp
    · rw [← List.append_assoc]
      exact hdead follow' more d
  | case12 links l piece rest hdir hdot hup hlong next entry hentry hnext ih =>
    rw [walk, hdirectory, if_neg hdir, if_neg hdot, if_neg hup, if_neg hlong]
    have hon : ∀ follow' more, fs.walk follow' links l (piece :: rest ++ more)
        = fs.walk follow' links next (rest ++ more) := by
      intro follow' more
      rw [List.cons_append, walk, if_neg hdir, if_neg hdot, if_neg hup, if_neg hlong]
      dsimp only
      rw [show fs.get? (l ++ [piece]) = some entry from hnext]
      cases entry with
      | link target => exact absurd rfl (hentry target)
      | _ => rfl
    dsimp only
    by_cases hgone : gone next
    · -- the file is met: as the end, or on the way to something else
      obtain ⟨hnone, content, hfile⟩ := h.missing next hgone
      obtain rfl : entry = .file content := Option.some.inj (hnext.symm.trans hfile)
      rw [show fs'.get? (l ++ [piece]) = none from hnone]
      refine .inr ⟨?_, fun follow' more d => ?_⟩
      · cases rest with
        | nil =>
          rw [walk, hfile]
          exact .there hgone
        | cons q rest =>
          rw [walk, if_pos (by rw [hfile]; rfl)]
          exact .onTheWay
      · rw [hon]
        cases rest ++ more with
        | nil =>
          rw [walk, hfile]
          simp
        | cons q rest =>
          rw [walk, if_pos (by rw [hfile]; rfl)]
          simp
    · rw [show fs'.get? (l ++ [piece]) = some entry from (h.kept next hgone).trans hnext]
      have hdead : DeadEnd fs links next rest → DeadEnd fs links l (piece :: rest) :=
        fun hdead follow' more d => hon follow' more ▸ hdead follow' more d
      have hnext' := (ih (.inl hgone)).imp_right (And.imp_right hdead)
      cases entry with
      | link target => exact absurd rfl (hentry target)
      | _ => exact hnext'

/-- Pieces to go through begin in a directory, or there are some. -/
theorem Lacks.of_find (h : Lacks gone fs fs') (hp : p.text.isEmpty = false) {more : List String}
    (hpieces : pieces = p.pieces.filter (· != "") ++ more) :
    ¬ gone (origin fs.here p) ∨ pieces ≠ [] := by
  by_cases habsolute : p.isAbsolute = true
  · rw [origin, if_pos habsolute]
    exact .inl (h.notGone_of_directory rfl)
  · refine .inr fun hnil => ?_
    have hnone : p.pieces.filter (· != "") = [] :=
      (List.append_eq_nil_iff.1 (hpieces.symm.trans hnil)).1
    -- a path without a piece that counts is made of separators
    refine Path.components_ne_nil (p := p) (by simpa using hp) ?_
    rw [Path.components_eq, if_neg habsolute, List.nil_append, Path.locatedFrom]
    simp only [List.map_eq_nil_iff, List.filterMap_eq_nil_iff]
    intro x hx
    have hempty : x.1 = "" := by
      simpa using List.filter_eq_nil_iff.1 hnone x.1 (List.fst_mem_of_mem_zipIdx hx)
    simp [hempty, Path.component?]

/-- **A path leads to the same** where files are missing, unless it meets one of
them; and then it does not begin a path to a directory. -/
theorem find_of_lacks (h : Lacks gone fs fs') (follow : Bool) (p : Path)
    (pieces : List String) {more : List String} (hpieces : pieces = p.pieces.filter (· != "") ++ more) :
    fs'.find follow p pieces = fs.find follow p pieces
      ∨ Missed gone (fs.find follow p pieces) (fs'.find follow p pieces)
        ∧ ∀ follow' more' d, fs.find follow' p (pieces ++ more') ≠ .ok (.occupied d .directory) := by
  unfold find
  split
  · exact .inl rfl
  split
  · exact .inl rfl
  split
  · exact .inl rfl
  next hempty _ =>
    rw [h.here]
    exact walk_of_lacks h (h.of_find (by simpa using hempty) hpieces)

theorem directory?_of_lacks (h : Lacks gone fs fs') (p : Path) :
    fs'.directory? p = fs.directory? p := by
  unfold directory?
  rcases find_of_lacks h true p (steps p) rfl with heq | ⟨hmissed, -⟩
  · rw [heq]
  · generalize fs.find true p (steps p) = before at hmissed
    generalize fs'.find true p (steps p) = after at hmissed
    cases hmissed <;> rfl

theorem isDirectory_of_lacks (h : Lacks gone fs fs') (p : Path) :
    fs'.isDirectory p = fs.isDirectory p := by
  rw [isDirectory, isDirectory, directory?_of_lacks h]

/-- What is there where files are missing was there before. -/
theorem contains_of_lacks (h : Lacks gone fs fs') (hp : fs'.contains p = true) :
    fs.contains p = true := by
  unfold contains at hp ⊢
  rcases find_of_lacks h true p (steps p) rfl with heq | ⟨hmissed, -⟩
  · rwa [← heq]
  · generalize fs.find true p (steps p) = before at hmissed
    generalize fs'.find true p (steps p) = after at hmissed hp
    cases hmissed <;> cases hp

/-- Bytes that can be read are read as before, unless the file is missing. -/
theorem read_of_lacks (h : Lacks gone fs fs') {content : List UInt8}
    (hfind : fs.find true p (steps p) = .ok (.occupied l (.file content))) (hl : ¬ gone l) :
    fs.read p = .ok content ∧ fs'.read p = .ok content := by
  have hfind' : fs'.find true p (steps p) = .ok (.occupied l (.file content)) := by
    rcases find_of_lacks h true p (steps p) rfl with heq | ⟨hmissed, -⟩
    · rw [heq, hfind]
    · rw [hfind] at hmissed
      generalize fs'.find true p (steps p) = after at hmissed
      cases hmissed
      exact absurd ‹gone l› hl
  unfold read
  rw [hfind, hfind']
  exact ⟨rfl, rfl⟩

/-! ## What can still be done -/

theorem Keeps.refl (fs : FileSystem) : Keeps fs fs :=
  ⟨rfl, fun _ h => h, fun _ _ h => h, fun _ old h => ⟨old, h⟩⟩

theorem Keeps.trans {fs'' : FileSystem} (h : Keeps fs fs') (h' : Keeps fs' fs'') :
    Keeps fs fs'' where
  here := h'.here.trans h.here
  directory := fun l hl => h'.directory l (h.directory l hl)
  link := fun l target hl => h'.link l target (h.link l target hl)
  file := fun l old hl => by
    obtain ⟨new, hnew⟩ := h.file l old hl
    exact h'.file l new hnew

/-- A path at which there is a file leads there still. -/
theorem Keeps.find (h : Keeps fs fs') {old : List UInt8}
    (hfind : fs.find true p pieces = .ok (.occupied l (.file old))) :
    ∃ new, fs'.find true p pieces = .ok (.occupied l (.file new)) := by
  obtain ⟨new, hnew⟩ := h.file l old (get?_of_walk (walk_of_find hfind))
  exact ⟨new, find_of_directories h.here h.directory h.link hfind hnew nofun⟩

/-- An entry is put where nothing was, or a file where one was. -/
theorem keeps_set (hl : l ≠ []) {e : Entry} (hdir : fs.get? l ≠ some .directory)
    (hlink : ∀ target, fs.get? l ≠ some (.link target))
    (hfile : ∀ old, fs.get? l = some (.file old) → ∃ new, e = .file new) :
    Keeps fs (fs.set l e) where
  here := rfl
  directory := fun l' hl' => by
    rw [get?_set fs hl, if_neg (by rintro rfl; exact hdir hl')]
    exact hl'
  link := fun l' target hl' => by
    rw [get?_set fs hl, if_neg (by rintro rfl; exact hlink target hl')]
    exact hl'
  file := fun l' old hl' => by
    rw [get?_set fs hl]
    split
    next heq =>
      obtain ⟨new, rfl⟩ := hfile old (heq ▸ hl')
      exact ⟨new, rfl⟩
    next => exact ⟨old, hl'⟩

/-- **What is put at a location is missing no longer.** -/
theorem Lacks.set (h : Lacks gone fs fs') (hl : l ≠ []) (e : Entry)
    (hdir : fs.get? l ≠ some .directory) (hparent : fs.get? l.dropLast = some .directory) :
    Lacks (fun l' => gone l' ∧ l' ≠ l) (fs.set l e) (fs'.set l e) where
  here := h.here
  missing := fun l' ⟨hgone, hne⟩ => by
    rw [get?_set fs hl, get?_set fs' hl, if_neg hne, if_neg hne]
    exact h.missing l' hgone
  kept := fun l' hl' => by
    rw [get?_set fs hl, get?_set fs' hl]
    split
    · rfl
    next hne => exact h.kept l' fun hgone => hl' ⟨hgone, hne⟩
  rooted := fun l' e' hne hl' => by
    have hkept : ∀ {d}, fs.get? d = some .directory → (fs.set l e).get? d = some .directory := by
      intro d hd
      rw [get?_set fs hl, if_neg (by rintro rfl; exact hdir hd)]
      exact hd
    rw [get?_set fs hl] at hl'
    split at hl'
    next heq => rw [heq]; exact hkept hparent
    next => exact hkept (h.rooted l' e' hne hl')

/-- A directory can be made where it could be made. -/
theorem makeDirectory_of_lacks (h : Lacks gone fs fs') {made : FileSystem}
    (hmade : fs.makeDirectory p = .ok made) :
    ∃ made', fs'.makeDirectory p = .ok made' ∧ Lacks gone made made' ∧ Keeps fs made := by
  unfold makeDirectory place at hmade ⊢
  split at hmade
  next l hfind =>
    cases hmade
    obtain ⟨hne, hnone, hparent⟩ := of_find_free hfind
    have hfind' : fs'.find false p (p.pieces.filter (· != "")) = .ok (.free l) := by
      rcases find_of_lacks h false p _ (List.append_nil _).symm with
        heq | ⟨hmissed, -⟩
      · rw [heq, hfind]
      · rw [hfind] at hmissed
        cases hmissed
    have hgone : (fun l' => gone l' ∧ l' ≠ l) = gone := by
      funext l'
      refine propext ⟨And.left, fun hl' => ⟨hl', ?_⟩⟩
      rintro rfl
      obtain ⟨-, content, hcontent⟩ := h.missing l' hl'
      cases hnone.symm.trans hcontent
    rw [hfind']
    refine ⟨_, rfl, ?_, keeps_set hne (by rw [hnone]; nofun) (by rw [hnone]; nofun)
      (by rw [hnone]; nofun)⟩
    exact hgone ▸ h.set hne .directory (by rw [hnone]; nofun) hparent
  next => cases hmade
  next => cases hmade

/-- Why a directory cannot be made. -/
theorem makeDirectory_eq_error_iff {fault : Fault} :
    fs.makeDirectory p = .error fault ↔
      fs.find false p (p.pieces.filter (· != "")) = .error fault
        ∨ fault = .taken ∧ ∃ l e, fs.find false p (p.pieces.filter (· != ""))
          = .ok (.occupied l e) := by
  unfold makeDirectory place
  cases fs.find false p (p.pieces.filter (· != "")) with
  | error fault' => simp
  | ok place =>
    cases place with
    | free l => simp
    | occupied l e => simp [eq_comm]

/-- What is missing on the way to a directory was missing before. -/
theorem makeDirectory_eq_notFound_of_lacks (h : Lacks gone fs fs')
    (hmade : fs.makeDirectory p = .error .notFound) : fs'.makeDirectory p = .error .notFound := by
  have hfind : fs.find false p (p.pieces.filter (· != "")) = .error .notFound :=
    (makeDirectory_eq_error_iff.1 hmade).resolve_right fun ⟨htaken, _⟩ => nomatch htaken
  refine makeDirectory_eq_error_iff.2 (.inl ?_)
  rcases find_of_lacks h false p _ (List.append_nil _).symm with
    heq | ⟨hmissed, -⟩
  · rw [heq, hfind]
  · rw [hfind] at hmissed
    cases hmissed

/-- A directory that is there cannot be made, as before. -/
theorem makeDirectory_eq_error_of_lacks (h : Lacks gone fs fs') {fault : Fault}
    (hmade : fs.makeDirectory p = .error fault) (hdir : fs.isDirectory p = true) :
    fs'.makeDirectory p = .error fault := by
  rcases find_of_lacks h false p _ (List.append_nil _).symm with
    heq | ⟨-, hdead⟩
  · rw [makeDirectory_eq_error_iff, heq]
    exact makeDirectory_eq_error_iff.1 hmade
  · obtain ⟨d, hd⟩ := Option.isSome_iff_exists.1 hdir
    unfold directory? at hd
    split at hd
    next hfind => exact absurd hfind (hdead true _ _)
    next => cases hd

theorem ensureDirectory_of_lacks (h : Lacks gone fs fs') {made : FileSystem}
    (hmade : fs.ensureDirectory p = .ok made) :
    ∃ made', fs'.ensureDirectory p = .ok made' ∧ Lacks gone made made' ∧ Keeps fs made := by
  unfold ensureDirectory at hmade ⊢
  split at hmade
  next made hone =>
    cases hmade
    obtain ⟨made', hone', hlacks⟩ := makeDirectory_of_lacks h hone
    rw [hone']
    exact ⟨made', rfl, hlacks⟩
  next fault hone =>
    split at hmade
    next hdir =>
      cases hmade
      rw [makeDirectory_eq_error_of_lacks h hone hdir]
      dsimp only
      rw [isDirectory_of_lacks h, if_pos hdir]
      exact ⟨fs', rfl, h, .refl fs⟩
    next => cases hmade

/-- **Directories can be made where they could be made.** -/
theorem makeDirectoriesUpTo_of_lacks (h : Lacks gone fs fs') {above : Nat} {made : FileSystem}
    (hmade : fs.makeDirectoriesUpTo above p = .ok made) :
    ∃ made', fs'.makeDirectoriesUpTo above p = .ok made' ∧ Lacks gone made made'
      ∧ Keeps fs made := by
  induction above generalizing p made with
  | zero => exact ensureDirectory_of_lacks h hmade
  | succ above ih =>
    rw [makeDirectoriesUpTo] at hmade ⊢
    split at hmade
    next hempty =>
      cases hmade
      rw [if_pos hempty]
      exact ⟨fs', rfl, h, .refl fs⟩
    next hempty =>
      rw [if_neg hempty]
      split at hmade
      next one hone =>
        cases hmade
        obtain ⟨made', hone', hlacks⟩ := makeDirectory_of_lacks h hone
        rw [hone']
        exact ⟨made', rfl, hlacks⟩
      next hone =>
        rw [makeDirectory_eq_notFound_of_lacks h hone]
        split at hmade
        next parent hparent =>
          split at hmade
          next upper hupper =>
            obtain ⟨upper', hupper', hlacks, hkeeps⟩ := ih hupper
            obtain ⟨made', hmade', hlacks', hkeeps'⟩ := ensureDirectory_of_lacks hlacks hmade
            simp only [hupper']
            exact ⟨made', hmade', hlacks', hkeeps.trans hkeeps'⟩
          next => cases hmade
        next => cases hmade
      next fault hne hone =>
        split at hmade
        next hdir =>
          cases hmade
          rw [makeDirectory_eq_error_of_lacks h hone hdir]
          refine ⟨fs', ?_, h, .refl fs⟩
          rw [isDirectory_of_lacks h]
          split
          next => rename_i heq; cases heq
          next => rename_i heq; exact absurd (Except.error.inj heq) hne
          next => rw [if_pos hdir]
        next => cases hmade

/-- **A file can be written where it could be written**, and is then missing no
longer. -/
theorem write_of_lacks (h : Lacks gone fs fs') {content : List UInt8} {written : FileSystem}
    (hwrite : fs.write p content = .ok written) :
    ∃ written' l, fs'.write p content = .ok written'
      ∧ Lacks (fun l' => gone l' ∧ l' ≠ l) written written' ∧ Keeps fs written
      ∧ written.find true p (steps p) = .ok (.occupied l (.file content)) := by
  obtain ⟨hopen, place, hfind, hfile, rfl⟩ := exists_of_write hwrite
  have hget := get?_of_walk (walk_of_find hfind)
  have hfile' : ∀ e, fs.get? place.location = some e → ∃ old, e = .file old := fun e he =>
    hfile e (hget.symm.trans he)
  have hdir : fs.get? place.location ≠ some .directory := fun hentry => nomatch hfile' _ hentry
  have hne : place.location ≠ [] := fun hnil => hdir (hnil ▸ rfl)
  have hparent : fs.get? place.location.dropLast = some .directory := by
    cases hentry : place.entry? with
    | none => exact (get?_dropLast_of_walk (walk_of_find hfind) hentry).2
    | some e => exact h.rooted _ e hne (hget.trans hentry)
  have hkeeps : Keeps fs (fs.set place.location (.file content)) :=
    keeps_set hne hdir (fun target hentry => nomatch hfile' _ hentry) fun _ _ => ⟨content, rfl⟩
  have hwritten : (fs.set place.location (.file content)).get? place.location
      = some (.file content) := by
    rw [get?_set fs hne, if_pos rfl]
  refine ⟨fs'.set place.location (.file content), place.location, ?_,
    h.set hne _ hdir hparent, hkeeps, ?_⟩
  · have hplace : ∀ place' : Place, place'.location = place.location →
        (∀ e, place'.entry? = some e → ∃ old, e = .file old) →
        fs'.find true p (p.pieces.filter (· != "")) = .ok place' →
        fs'.write p content = .ok (fs'.set place.location (.file content)) := by
      intro place' hlocation hfile' hfind'
      rw [← hlocation]
      unfold FileSystem.write
      rw [hfind', hopen]
      cases place' with
      | free l => rfl
      | occupied l e =>
        obtain ⟨old, rfl⟩ := hfile' e rfl
        rfl
    rcases find_of_lacks h true p _ (List.append_nil _).symm with
      heq | ⟨hmissed, -⟩
    · exact hplace place rfl hfile (heq.trans hfind)
    · rw [hfind] at hmissed
      generalize hfind' : fs'.find true p (p.pieces.filter (· != "")) = after at hmissed
      cases hmissed
      exact hplace (.free _) rfl nofun hfind'
  · rw [steps_of_isOpen_eq_false hopen]
    exact find_of_directories hkeeps.here hkeeps.directory hkeeps.link hfind hwritten nofun

end JavaMutants.FileSystem
