import JavaMutants.FileSystem
import Mathlib.Data.List.Basic

/-!
# Files that are overwritten

New bytes in one file leave all else as it is: a path leads where it has
led before, and only there it finds other bytes (`walk_set`). So what is
read at a path that leads elsewhere stays the same (`read_set`).
-/

namespace JavaMutants

/-- A place once the file at a location has been given other bytes. -/
def Place.overwritten (location : Location) (content : List UInt8) : Place → Place
  | .occupied l (.file old) => .occupied l (.file (if l = location then content else old))
  | place => place

namespace FileSystem

theorem lookup_filter_ne {location l : Location} (h : l ≠ location)
    (entries : List (Location × Entry)) :
    (entries.filter fun (l, _) => l != location).lookup l = entries.lookup l := by
  induction entries with
  | nil => rfl
  | cons e entries ih =>
    obtain ⟨l', e⟩ := e
    by_cases hl : l' = location
    · have hne : (l == l') = false := by
        rw [hl]
        exact beq_false_of_ne h
      rw [List.filter_cons_of_neg (by simp [hl]), List.lookup_cons, hne, ih]
    · rw [List.filter_cons_of_pos (by simp [hl]), List.lookup_cons, List.lookup_cons, ih]

/-- What lies at a location after something has been put at one. -/
theorem get?_set (fs : FileSystem) {location : Location} (h : location ≠ []) (entry : Entry)
    (l : Location) :
    (fs.set location entry).get? l = if l = location then some entry else fs.get? l := by
  unfold get? set
  dsimp only
  by_cases hl : l = location
  · subst hl
    simp [h]
  · rw [if_neg hl, List.lookup_cons, beq_false_of_ne hl, lookup_filter_ne hl]

section Overwrite

variable {fs : FileSystem} {location : Location} {old : List UInt8}

theorem ne_nil_of_get?_file (h : fs.get? location = some (.file old)) : location ≠ [] := by
  rintro rfl
  cases h

/-- What is not the file that is overwritten stays. -/
theorem get?_set_of_ne (h : fs.get? location = some (.file old)) (new : List UInt8)
    {l : Location} (hl : ∀ content, fs.get? l ≠ some (.file content)) :
    (fs.set location (.file new)).get? l = fs.get? l := by
  rw [get?_set fs (ne_nil_of_get?_file h), if_neg]
  rintro rfl
  exact hl old h

theorem get?_set_bne_directory (h : fs.get? location = some (.file old)) (new : List UInt8)
    (l : Location) :
    ((fs.set location (.file new)).get? l != some .directory)
      = (fs.get? l != some .directory) := by
  rw [get?_set fs (ne_nil_of_get?_file h)]
  split
  next hl =>
    subst hl
    rw [h]
    rfl
  next => rfl

/-- **A path leads where it has led before** when a file is overwritten. -/
theorem walk_set (h : fs.get? location = some (.file old)) (new : List UInt8) (follow : Bool)
    (links : Nat) (l : Location) (pieces : List String) :
    (fs.set location (.file new)).walk follow links l pieces
      = (fs.walk follow links l pieces).map (Place.overwritten location new) := by
  -- the way goes through directories and links, which stay
  have hdirectory := get?_set_bne_directory h new
  have hnone : ∀ {l}, fs.get? l = none → (fs.set location (.file new)).get? l = none := by
    intro l hl
    rw [get?_set_of_ne h new (by simp [hl]), hl]
  have hlink : ∀ {l target}, fs.get? l = some (.link target) →
      (fs.set location (.file new)).get? l = some (.link target) := by
    intro l target hl
    rw [get?_set_of_ne h new (by simp [hl]), hl]
  fun_induction walk fs follow links l pieces with
  | case1 links l entry hl =>
    rw [walk, get?_set fs (ne_nil_of_get?_file h)]
    by_cases hll : l = location
    · subst hll
      obtain rfl := Option.some.inj (h.symm.trans hl)
      simp [Place.overwritten, Except.map]
    · cases entry <;> simp [hll, hl, Place.overwritten, Except.map]
  | case2 links l hl =>
    rw [walk, hnone hl]
    rfl
  | case3 links l piece rest hdir =>
    rw [walk, hdirectory, if_pos hdir]
    rfl
  | case4 links l piece rest hdir hdot ih =>
    rw [walk, hdirectory, if_neg hdir, if_pos hdot, ih]
  | case5 links l piece rest hdir hdot hup ih =>
    rw [walk, hdirectory, if_neg hdir, if_neg hdot, if_pos hup, ih]
  | case6 links l piece rest hdir hdot hup hlong =>
    rw [walk, hdirectory, if_neg hdir, if_neg hdot, if_neg hup, if_pos hlong]
    rfl
  | case7 links l piece rest hdir hdot hup hlong next hnext hrest =>
    rw [walk, hdirectory, if_neg hdir, if_neg hdot, if_neg hup, if_neg hlong]
    have hnext' : (fs.set location (.file new)).get? (l ++ [piece]) = none := hnone hnext
    simp only [hnext', hrest, if_true]
    rfl
  | case8 links l piece rest hdir hdot hup hlong next hnext hrest =>
    rw [walk, hdirectory, if_neg hdir, if_neg hdot, if_neg hup, if_neg hlong]
    have hnext' : (fs.set location (.file new)).get? (l ++ [piece]) = none := hnone hnext
    simp only [hnext', hrest]
    rfl
  | case9 links l piece rest hdir hdot hup hlong next target hnext hstop =>
    rw [walk, hdirectory, if_neg hdir, if_neg hdot, if_neg hup, if_neg hlong]
    have hnext' : (fs.set location (.file new)).get? (l ++ [piece]) = some (.link target) :=
      hlink hnext
    simp only [hnext', hstop, if_true]
    rfl
  | case10 l piece rest hdir hdot hup hlong next target hnext hgo =>
    rw [walk, hdirectory, if_neg hdir, if_neg hdot, if_neg hup, if_neg hlong]
    have hnext' : (fs.set location (.file new)).get? (l ++ [piece]) = some (.link target) :=
      hlink hnext
    simp only [hnext', hgo]
    rfl
  | case11 l piece rest hdir hdot hup hlong next target hnext hgo left ih =>
    rw [walk, hdirectory, if_neg hdir, if_neg hdot, if_neg hup, if_neg hlong]
    have hnext' : (fs.set location (.file new)).get? (l ++ [piece]) = some (.link target) :=
      hlink hnext
    simp only [hnext', hgo]
    exact ih
  | case12 links l piece rest hdir hdot hup hlong next entry hentry hnext ih =>
    rw [walk, hdirectory, if_neg hdir, if_neg hdot, if_neg hup, if_neg hlong]
    obtain ⟨entry', hnext', hentry'⟩ :
        ∃ entry', (fs.set location (.file new)).get? (l ++ [piece]) = some entry'
          ∧ ∀ target, entry' ≠ .link target := by
      rw [get?_set fs (ne_nil_of_get?_file h)]
      split
      · exact ⟨_, rfl, nofun⟩
      · exact ⟨entry, hnext, hentry⟩
    dsimp only
    rw [hnext']
    cases entry' with
    | link target => exact absurd rfl (hentry' target)
    | file content => exact ih
    | directory => exact ih

/-- **What is read elsewhere stays** when a file is overwritten. -/
theorem read_set (h : fs.get? location = some (.file old)) (new : List UInt8) {p : Path}
    (hp : ∀ content, fs.find true p (steps p) ≠ .ok (.occupied location (.file content))) :
    (fs.set location (.file new)).read p = fs.read p := by
  have hfind : (fs.set location (.file new)).find true p (steps p)
      = (fs.find true p (steps p)).map (Place.overwritten location new) := by
    unfold find
    rw [walk_set h]
    split
    · rfl
    split
    · rfl
    split
    · rfl
    · rfl
  unfold read
  rw [hfind]
  cases hplace : fs.find true p (steps p) with
  | error fault => rfl
  | ok place =>
    cases place with
    | free l => rfl
    | occupied l entry =>
      cases entry with
      | directory => rfl
      | link target => rfl
      | file content =>
        have hl : l ≠ location := by
          rintro rfl
          exact hp content hplace
        simp [Except.map, Place.overwritten, hl]

end Overwrite

end FileSystem

end JavaMutants
