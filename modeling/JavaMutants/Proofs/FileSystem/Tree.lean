import JavaMutants.Proofs.FileSystem
import JavaMutants.Proofs.Path.Parts

/-!
# File trees

What makes the entries of a file system a tree (`FileSystem.IsTree`), and
where paths lead in one. A walk that comes to an end has seen what lies
there (`get?_of_walk`), and it ends there in every file system that has the same
directories and links and more (`walk_of_directories`). Without links, where it
ends is told by the path alone (`location_of_find`).
-/

namespace JavaMutants

namespace Place

/-- Where a place is. -/
def location : Place → Location
  | occupied l _ => l
  | free l => l

/-- What lies at a place. -/
def entry? : Place → Option Entry
  | occupied _ e => some e
  | free _ => none

end Place

/-- One step on the way along a path. -/
def Component.goFrom (l : Location) : Component → Location
  | .root => []
  | .here => l
  | .up => l.dropLast
  | .normal name => l ++ [name]

/-- **The location that a path names**, seen from a working directory, if there
are no links on the way. -/
def Path.location (here : Location) (p : Path) : Location :=
  p.components.foldl Component.goFrom here

namespace FileSystem

/-- **The entries of a file system are a tree.** -/
structure IsTree (fs : FileSystem) : Prop where
  /-- They lie below the root, and each is called by names. -/
  named : ∀ x ∈ fs.entries, x.1 ≠ [] ∧ ∀ n ∈ x.1, IsName n
  /-- No two of them lie at one location. -/
  once : (fs.entries.map (·.1)).Nodup
  /-- Each lies in a directory. -/
  rooted : ∀ x ∈ fs.entries, fs.get? x.1.dropLast = some .directory

/-- **There are no links.** -/
def LinkFree (fs : FileSystem) : Prop := ∀ l target, fs.get? l ≠ some (.link target)

/-- Where there are no links, all of them are kept. -/
theorem LinkFree.kept {fs : FileSystem} (h : fs.LinkFree) (fs' : FileSystem) :
    ∀ l target, fs.get? l = some (.link target) → fs'.get? l = some (.link target) :=
  fun l target hl => absurd hl (h l target)

variable {fs fs' : FileSystem} {follow : Bool} {links : Nat} {l : Location}
  {pieces : List String} {place : Place}

/-! ## What lies at a location -/

@[simp]
theorem get?_nil (fs : FileSystem) : fs.get? [] = some .directory := rfl

theorem mem_entries_of_get? {e : Entry} (hl : l ≠ []) (h : fs.get? l = some e) :
    (l, e) ∈ fs.entries := by
  have hlookup : fs.entries.lookup l = some e := by
    simpa [get?, hl] using h
  obtain ⟨front, back, heq, -⟩ := List.lookup_eq_some_iff.1 hlookup
  rw [heq]
  exact List.mem_append_right front List.mem_cons_self

theorem IsTree.get?_of_mem (h : fs.IsTree) {e : Entry} (he : (l, e) ∈ fs.entries) :
    fs.get? l = some e := by
  obtain ⟨front, back, heq⟩ := List.append_of_mem he
  have honce := h.once
  rw [heq, List.map_append, List.map_cons] at honce
  have hnew : ∀ x ∈ front, (l != x.1) = true := by
    intro x hx
    refine bne_iff_ne.2 fun hlx => ?_
    exact (List.nodup_append.1 honce).2.2 x.1 (List.mem_map_of_mem hx) l List.mem_cons_self hlx.symm
  have hlookup : fs.entries.lookup l = some e :=
    List.lookup_eq_some_iff.2 ⟨front, back, heq, hnew⟩
  simpa [get?, (h.named _ he).1] using hlookup

theorem IsTree.get?_dropLast (h : fs.IsTree) {e : Entry} (hl : l ≠ []) (he : fs.get? l = some e) :
    fs.get? l.dropLast = some .directory :=
  h.rooted _ (mem_entries_of_get? hl he)

/-! ## Where a walk ends -/

/-- **A walk has seen what lies where it ends.** -/
theorem get?_of_walk (h : fs.walk follow links l pieces = .ok place) :
    fs.get? place.location = place.entry? := by
  fun_induction walk fs follow links l pieces with
  | case1 links l entry hl => cases h; exact hl
  | case2 => cases h
  | case3 => cases h
  | case4 _ _ _ _ _ _ ih => exact ih h
  | case5 _ _ _ _ _ _ _ ih => exact ih h
  | case6 => cases h
  | case7 _ _ _ _ _ _ _ _ next hnext _ => cases h; exact hnext
  | case8 => cases h
  | case9 _ _ _ _ _ _ _ _ next target hnext _ => cases h; exact hnext
  | case10 => cases h
  | case11 _ _ _ _ _ _ _ _ _ _ _ _ ih => exact ih h
  | case12 _ _ _ _ _ _ _ _ _ _ _ _ ih => exact ih h

/-- A free place is in a directory. -/
theorem get?_dropLast_of_walk (h : fs.walk follow links l pieces = .ok place)
    (hfree : place.entry? = none) :
    place.location ≠ [] ∧ fs.get? place.location.dropLast = some .directory := by
  fun_induction walk fs follow links l pieces with
  | case1 => cases h; cases hfree
  | case2 => cases h
  | case3 => cases h
  | case4 _ _ _ _ _ _ ih => exact ih h
  | case5 _ _ _ _ _ _ _ ih => exact ih h
  | case6 => cases h
  | case7 links l piece rest hdir hdot hup hlong next hnext hrest =>
    cases h
    refine ⟨List.append_ne_nil_of_right_ne_nil l (List.cons_ne_nil piece []), ?_⟩
    rw [Place.location, List.dropLast_concat]
    simpa using hdir
  | case8 => cases h
  | case9 => cases h; cases hfree
  | case10 => cases h
  | case11 _ _ _ _ _ _ _ _ _ _ _ _ ih => exact ih h
  | case12 _ _ _ _ _ _ _ _ _ _ _ _ ih => exact ih h

/-- Without links, where a walk ends is told by the pieces. -/
theorem location_of_walk (hlinks : fs.LinkFree) (hempty : "" ∉ pieces)
    (h : fs.walk follow links l pieces = .ok place) :
    place.location = (pieces.filterMap (Path.component? false)).foldl Component.goFrom l := by
  fun_induction walk fs follow links l pieces with
  | case1 => cases h; rfl
  | case2 => cases h
  | case3 => cases h
  | case4 links l piece rest hdir hdot ih =>
    obtain rfl := beq_iff_eq.1 hdot
    exact ih (List.not_mem_of_not_mem_cons hempty) h
  | case5 links l piece rest hdir hdot hup ih =>
    obtain rfl := beq_iff_eq.1 hup
    exact ih (List.not_mem_of_not_mem_cons hempty) h
  | case6 => cases h
  | case7 links l piece rest hdir hdot hup hlong next hnext hrest =>
    cases h
    obtain rfl := List.isEmpty_iff.1 hrest
    have hpiece : piece ≠ "" := fun heq => hempty (heq ▸ List.mem_cons_self)
    simp [Place.location, Path.component?, hpiece, hdot, hup, Component.goFrom, next]
  | case8 => cases h
  | case9 _ l piece _ _ _ _ _ next target hnext => exact absurd hnext (hlinks _ _)
  | case10 => cases h
  | case11 _ _ _ _ _ _ _ next target hnext => exact absurd hnext (hlinks _ _)
  | case12 links l piece rest hdir hdot hup hlong next entry hentry hnext ih =>
    rw [ih (List.not_mem_of_not_mem_cons hempty) h]
    have hpiece : piece ≠ "" := fun heq => hempty (heq ▸ List.mem_cons_self)
    simp [Path.component?, hpiece, hdot, hup, Component.goFrom, next]

/-- **A walk ends at the same place wherever there are the same directories and
links**, and finds what lies there. -/
theorem walk_of_directories
    (hdirs : ∀ l, fs.get? l = some .directory → fs'.get? l = some .directory)
    (hlinks : ∀ l target, fs.get? l = some (.link target) → fs'.get? l = some (.link target))
    (h : fs.walk follow links l pieces = .ok place) {e : Entry}
    (he : fs'.get? place.location = some e) (hlink : ∀ target, e ≠ .link target) :
    fs'.walk follow links l pieces = .ok (.occupied place.location e) := by
  have hkept : ∀ {l}, ¬ (fs.get? l != some .directory) = true →
      ¬ (fs'.get? l != some .directory) = true := by
    intro l hl
    rw [bne_iff_ne, ne_eq, not_not] at hl ⊢
    exact hdirs l hl
  fun_induction walk fs follow links l pieces with
  | case1 links l entry hl =>
    cases h
    rw [walk, show fs'.get? l = some e from he]
    rfl
  | case2 => cases h
  | case3 => cases h
  | case4 links l piece rest hdir hdot ih =>
    rw [walk, if_neg (hkept hdir), if_pos hdot]
    exact ih h
  | case5 links l piece rest hdir hdot hup ih =>
    rw [walk, if_neg (hkept hdir), if_neg hdot, if_pos hup]
    exact ih h
  | case6 => cases h
  | case7 links l piece rest hdir hdot hup hlong next hnext hrest =>
    cases h
    obtain rfl := List.isEmpty_iff.1 hrest
    have he' : fs'.get? (l ++ [piece]) = some e := he
    rw [walk, if_neg (hkept hdir), if_neg hdot, if_neg hup, if_neg hlong]
    dsimp only
    rw [he']
    cases e with
    | link target => exact absurd rfl (hlink target)
    | _ => rw [walk, he']; rfl
  | case8 => cases h
  | case9 _ l piece _ _ _ _ _ next target hnext =>
    cases h
    exact absurd (Option.some.inj (he.symm.trans (hlinks _ _ hnext))) (hlink target)
  | case10 => cases h
  | case11 l piece rest hdir hdot hup hlong next target hnext hgo left ih =>
    rw [walk, if_neg (hkept hdir), if_neg hdot, if_neg hup, if_neg hlong]
    dsimp only
    rw [show fs'.get? (l ++ [piece]) = some (.link target) from hlinks _ _ hnext]
    simp only [hgo]
    exact ih h
  | case12 links l piece rest hdir hdot hup hlong next entry hentry hnext ih =>
    obtain ⟨e', he', hlink'⟩ : ∃ e', fs'.get? next = some e' ∧ ∀ target, e' ≠ .link target := by
      cases entry with
      | link target => exact absurd rfl (hentry target)
      | directory => exact ⟨.directory, hdirs _ hnext, by simp⟩
      | file content =>
        -- a file can only be the end
        cases rest with
        | nil =>
          rw [walk, hnext] at h
          cases h
          exact ⟨e, he, hlink⟩
        | cons q rest =>
          rw [walk, if_pos (by rw [hnext]; rfl)] at h
          cases h
    rw [walk, if_neg (hkept hdir), if_neg hdot, if_neg hup, if_neg hlong]
    dsimp only
    rw [show fs'.get? (l ++ [piece]) = some e' from he']
    cases e' with
    | link target => exact absurd rfl (hlink' target)
    | _ => exact ih h

/-! ## Where a path leads -/

/-- The pieces of a path lead where its components do. -/
theorem location_eq (here : Location) (p : Path) :
    p.location here
      = (p.pieces.filterMap (Path.component? false)).foldl Component.goFrom (origin here p) := by
  have hpieces : ∀ l, ((Path.locatedFrom 0 p.pieces).map (·.2)).foldl Component.goFrom l
      = (p.pieces.filterMap (Path.component? false)).foldl Component.goFrom l := by
    intro l
    cases p.pieces with
    | nil => rfl
    | cons n ps =>
      have happend := Path.locatedFrom_append 0 [n] ps
      have hrest : (Path.locatedFrom (0 + [n].length) ps).map (·.2)
          = ps.filterMap (Path.component? false) := Path.map_snd_locatedFrom (Nat.succ_ne_zero 0) ps
      have hcons : (n :: ps).filterMap (Path.component? false)
          = [n].filterMap (Path.component? false) ++ ps.filterMap (Path.component? false) := by
        show ([n] ++ ps).filterMap _ = _
        exact List.filterMap_append
      rw [List.singleton_append] at happend
      rw [happend, List.map_append, hrest, hcons, List.foldl_append, List.foldl_append]
      -- a dot stays where it is, in the first place as well
      refine congrArg (List.foldl Component.goFrom · _) ?_
      by_cases hempty : n = ""
      · rw [hempty]
        rfl
      by_cases hdot : n = "."
      · rw [hdot]
        rfl
      by_cases hup : n = ".." <;> simp [Path.locatedFrom, Path.component?, hempty, hdot, hup]
  rw [Path.location, Path.components_eq, List.foldl_append, hpieces, origin]
  cases p.isAbsolute <;> rfl

theorem walk_of_find {p : Path} (h : fs.find follow p pieces = .ok place) :
    fs.walk follow mostLinks (origin fs.here p) pieces = .ok place := by
  unfold find at h
  split at h
  · cases h
  split at h
  · cases h
  split at h
  · cases h
  exact h

/-- **A path of one name** leads to the directory of that name, whether or not a separator
ends it. -/
theorem find_of_name {p : Path} {name : String} {dots : List String}
    (hdots : dots = [] ∨ dots = ["."])
    (hname : name ≠ "." ∧ name ≠ ".." ∧ Text.size name ≤ longestName)
    (hp : p.text.contains (Char.ofNat 0) = false ∧ p.text.isEmpty = false
      ∧ Text.size p.text ≤ longestPath)
    (horigin : origin fs.here p = []) (h : fs.get? [name] = some .directory) (follow : Bool) :
    fs.find follow p (name :: dots) = .ok (.occupied [name] .directory) := by
  obtain ⟨hdot, hup, hsize⟩ := hname
  obtain ⟨hnull, hempty, hlong⟩ := hp
  have hend : fs.walk follow mostLinks [name] dots = .ok (.occupied [name] .directory) := by
    rcases hdots with rfl | rfl
    · rw [walk, h]
    · rw [walk, if_neg (by simp [h]), if_pos (beq_self_eq_true "."), walk, h]
  rw [find, hnull, hempty, if_neg (by simp), if_neg (by simp), if_neg (Nat.not_lt.2 hlong), horigin,
    walk, if_neg (by simp), if_neg (by simpa using hdot), if_neg (by simpa using hup),
    if_neg (Nat.not_lt.2 hsize)]
  dsimp only
  rw [List.nil_append, h]
  exact hend

theorem directory?_of_find {p : Path} (h : fs.find true p (steps p) = .ok (.occupied l .directory)) :
    fs.directory? p = some l := by
  rw [directory?, h]

/-- **A path leads to the same place wherever there are the same directories and
links**, and finds what lies there. -/
theorem find_of_directories (hhere : fs'.here = fs.here)
    (hdirs : ∀ l, fs.get? l = some .directory → fs'.get? l = some .directory)
    (hlinks : ∀ l target, fs.get? l = some (.link target) → fs'.get? l = some (.link target))
    {p : Path}
    (h : fs.find follow p pieces = .ok place) {e : Entry} (he : fs'.get? place.location = some e)
    (hlink : ∀ target, e ≠ .link target) :
    fs'.find follow p pieces = .ok (.occupied place.location e) := by
  have hwalk := walk_of_directories hdirs hlinks (walk_of_find h) he hlink
  unfold find at h ⊢
  split at h
  · cases h
  split at h
  · cases h
  split at h
  · cases h
  next hnull hempty hlong =>
    rw [if_neg hnull, if_neg hempty, if_neg hlong, hhere]
    exact hwalk

/-- The pieces that are gone through are those that count. -/
theorem filterMap_filter_ne (ps : List String) :
    (ps.filter (· != "")).filterMap (Path.component? false)
      = ps.filterMap (Path.component? false) := by
  rw [List.filterMap_filter]
  refine List.filterMap_congr fun n _ => ?_
  by_cases hn : n = ""
  · rw [hn]
    rfl
  · simp [hn]

theorem filterMap_steps (p : Path) :
    (steps p).filterMap (Path.component? false) = p.pieces.filterMap (Path.component? false) := by
  rw [steps, List.filterMap_append, filterMap_filter_ne]
  cases p.isOpen <;> exact List.append_nil _

theorem empty_notMem_steps (p : Path) : "" ∉ steps p := by
  unfold steps
  cases p.isOpen <;> simp

/-- **Without links, a path leads to the location it names.** -/
theorem location_of_find (hlinks : fs.LinkFree) {p : Path} (hempty : "" ∉ pieces)
    (hpieces : pieces.filterMap (Path.component? false)
      = p.pieces.filterMap (Path.component? false))
    (h : fs.find follow p pieces = .ok place) : place.location = p.location fs.here := by
  rw [location_of_walk hlinks hempty (walk_of_find h), location_eq, hpieces]

/-- What can be read has been found where the path leads. -/
theorem find_of_read {p : Path} {content : List UInt8} (hlinks : fs.LinkFree)
    (h : fs.read p = .ok content) :
    fs.find true p (steps p) = .ok (.occupied (p.location fs.here) (.file content)) := by
  unfold read at h
  split at h
  next l content' hfind =>
    cases h
    have hlocation : l = p.location fs.here :=
      location_of_find hlinks (empty_notMem_steps p) (filterMap_steps p) hfind
    rw [hfind, hlocation]
  next => cases h
  next => cases h
  next => cases h

end FileSystem

end JavaMutants
