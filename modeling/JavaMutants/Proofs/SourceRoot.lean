import JavaMutants.Proofs.FileSystem.Tree
import JavaMutants.Proofs.Path.Order
import JavaMutants.SourceRoot
import Mathlib.Data.List.TakeDrop
import Mathlib.Data.List.TakeWhile

/-!
# What is found under source roots

In a file tree, an input is its root joined with the names that lead to the
file, so its logical path is these names (`SourceInput.exists_names_of_mem_ofRoots`).
The last of them ends with the extension, and the name of the file without it is
the simple name. Under one root no two inputs have the same logical path
(`SourceInput.pairwise_logicalPath_ofRoot`); under several they can.
-/

namespace JavaMutants

namespace Path

/-- **A file name has an extension**: the part after its last dot, if anything stands
before that dot. -/
def HasExtension (name extension : String) : Prop :=
  ∃ stem, stem ≠ "" ∧ '.' ∉ extension.toList ∧ name = stem ++ "." ++ extension

/-- **A name with an extension** is what comes before the last dot, the dot and the
extension. -/
theorem of_splitExtension {n stem extension : String}
    (h : splitExtension n = (stem, some extension)) :
    stem ≠ "" ∧ '.' ∉ extension.toList ∧ n = stem ++ "." ++ extension := by
  unfold splitExtension at h
  dsimp only at h
  have hjoin := List.takeWhile_append_dropWhile (p := (· != '.')) (l := n.toList.reverse)
  have hhead := List.head?_dropWhile_not (· != '.') n.toList.reverse
  have hplain : '.' ∉ n.toList.reverse.takeWhile (· != '.') := fun hmem =>
    absurd (List.mem_takeWhile_imp hmem) (by decide)
  rw [List.span_eq_takeWhile_dropWhile] at h
  generalize n.toList.reverse.takeWhile (· != '.') = ext at *
  generalize n.toList.reverse.dropWhile (· != '.') = dot at *
  cases dot with
  | nil => cases h
  | cons c rest =>
    cases rest with
    | nil => cases h
    | cons d rest =>
      obtain rfl : c = '.' := by simpa using hhead
      cases h
      refine ⟨by simp, by simpa using hplain, ?_⟩
      have hreverse : n.toList = (d :: rest).reverse ++ '.' :: ext.reverse := by
        rw [← List.reverse_reverse n.toList, ← hjoin]
        simp
      rw [← String.toList_inj, hreverse]
      simp [String.toList_append]

/-- A name with something before its last dot is parted there. -/
theorem splitExtension_append {stem extension : String} (hstem : stem ≠ "")
    (hext : '.' ∉ extension.toList) :
    splitExtension (stem ++ "." ++ extension) = (stem, some extension) := by
  have hreverse : (stem ++ "." ++ extension).toList.reverse
      = extension.toList.reverse ++ '.' :: stem.toList.reverse := by
    simp [String.toList_append]
  have hplain : ∀ c ∈ extension.toList.reverse, (c != '.') = true := fun c hc =>
    bne_iff_ne.2 fun heq => hext (heq ▸ List.mem_reverse.1 hc)
  obtain ⟨c, cs, hcs⟩ := List.exists_cons_of_ne_nil
    (mt List.reverse_eq_nil_iff.1 (mt String.toList_eq_nil_iff.1 hstem))
  unfold splitExtension
  dsimp only
  rw [hreverse, List.span_eq_takeWhile_dropWhile, List.takeWhile_append_of_pos hplain,
    List.dropWhile_append_of_pos hplain, List.takeWhile_cons_of_neg (by decide),
    List.dropWhile_cons_of_neg (by decide), hcs]
  dsimp only
  rw [← hcs]
  simp

/-- **The extension of a name** is told by the name alone. -/
theorem snd_splitExtension_eq_some_iff {name extension : String} :
    (splitExtension name).2 = some extension ↔ HasExtension name extension := by
  constructor
  · exact fun h => ⟨(splitExtension name).1, of_splitExtension (Prod.ext rfl h)⟩
  · rintro ⟨stem, hstem, hext, rfl⟩
    rw [splitExtension_append hstem hext]

theorem exists_of_extension? {p : Path} {extension : String} (h : p.extension? = some extension) :
    ∃ stem, p.stem? = some stem ∧ p.fileName? = some (stem ++ "." ++ extension) := by
  obtain ⟨n, hn, hext⟩ := Option.bind_eq_some_iff.1 h
  refine ⟨(splitExtension n).1, ?_, ?_⟩
  · rw [stem?, hn]
    rfl
  · rw [hn, ← (of_splitExtension (Prod.ext rfl hext)).2.2]

end Path

namespace FileSystem

variable {fs : FileSystem} {l : Location}

theorem get?_of_directory? {p : Path} (h : fs.directory? p = some l) :
    p.text ≠ "" ∧ fs.get? l = some .directory := by
  unfold directory? at h
  split at h
  next l' hfind =>
    cases h
    refine ⟨fun hempty => ?_, get?_of_walk (walk_of_find hfind)⟩
    unfold find at hfind
    simp [hempty] at hfind
  next => cases h

/-- What is kept of an entry below a location: the names of a file, and its content. -/
theorem eq_of_kept_below {e : Location × Entry} {x : List String × List UInt8}
    (h : (match e.2 with
      | .file content => if l.isPrefixOf e.1 then some (e.1.drop l.length, content) else none
      | _ => none) = some x) : e = (l ++ x.1, .file x.2) := by
  obtain ⟨l', e⟩ := e
  dsimp only at h
  split at h
  next content =>
    split at h
    next hprefix =>
      obtain ⟨ns, rfl⟩ := List.isPrefixOf_iff_prefix.1 hprefix
      cases h
      rw [List.drop_left]
    next => cases h
  next => cases h

/-- **A file is below a location** if it lies at names put after it. -/
theorem IsTree.mem_filesBelow_iff (h : fs.IsTree) {ns : List String} {content : List UInt8} :
    (ns, content) ∈ fs.filesBelow l ↔ fs.get? (l ++ ns) = some (.file content) := by
  constructor
  · intro hmem
    obtain ⟨e, he, heq⟩ := List.mem_filterMap.1 hmem
    rw [eq_of_kept_below heq] at he
    exact h.get?_of_mem he
  · intro hget
    have hne : l ++ ns ≠ [] := by
      intro hnil
      rw [hnil] at hget
      cases hget
    refine List.mem_filterMap.2 ⟨_, mem_entries_of_get? hne hget, ?_⟩
    dsimp only
    rw [if_pos (List.isPrefixOf_iff_prefix.2 (List.prefix_append l ns)), List.drop_left]

/-- **The files below a directory** are called by names, and no two of them by the
same names. -/
theorem IsTree.filesBelow (h : fs.IsTree) (hdir : fs.get? l = some .directory) :
    (∀ x ∈ fs.filesBelow l, x.1 ≠ [] ∧ ∀ n ∈ x.1, IsName n)
      ∧ (fs.filesBelow l).Pairwise fun x y => x.1 ≠ y.1 := by
  constructor
  · intro x hx
    have hget := h.mem_filesBelow_iff.1 hx
    have hne : x.1 ≠ [] := by
      intro hnil
      rw [hnil, List.append_nil, hdir] at hget
      cases hget
    obtain ⟨-, hnames⟩ := h.named _
      (mem_entries_of_get? (List.append_ne_nil_of_right_ne_nil l hne) hget)
    exact ⟨hne, fun n hn => hnames n (List.mem_append_right l hn)⟩
  · refine List.pairwise_filterMap.2 ((List.pairwise_map.1 h.once).imp_of_mem ?_)
    intro e e' he he' hne x hx y hy heq
    refine hne ?_
    rw [eq_of_kept_below hx, eq_of_kept_below hy, heq]

end FileSystem

namespace SourceInput

open FileSystem

variable {fs : FileSystem} {root : Path} {extension : String} {inputs : List SourceInput}

theorem notAfter_trans (a b c : SourceInput) (hab : a.notAfter b = true)
    (hbc : b.notAfter c = true) : a.notAfter c = true :=
  show (a.compare c).isLE = true from Std.TransCmp.isLE_trans hab hbc

theorem notAfter_total (a b : SourceInput) : (a.notAfter b || b.notAfter a) = true := by
  have hswap : b.compare a = (a.compare b).swap :=
    Std.OrientedCmp.eq_swap
  rw [notAfter, notAfter, hswap]
  cases a.compare b <;> rfl

/-- What is found under a root, in some order. -/
theorem exists_perm_of_ofRoot (h : ofRoot fs extension root = .ok inputs) :
    ∃ l, root.text ≠ "" ∧ fs.get? l = some .directory
      ∧ inputs.Perm (below fs root extension l) := by
  unfold ofRoot at h
  split at h
  next l hl =>
    cases h
    obtain ⟨hroot, hdir⟩ := get?_of_directory? hl
    exact ⟨l, hroot, hdir, List.mergeSort_perm _ _⟩
  next => cases h

/-- **The logical path of a file found under a root** is made of the names that
lead to it. -/
theorem logicalPath_join_ofNames (hroot : root.text ≠ "") {ns : List String} (hne : ns ≠ [])
    (hns : ∀ n ∈ ns, IsName n) :
    logicalPath ⟨root, root.join (.ofNames ns)⟩ = .ofNames ns := by
  unfold logicalPath
  rw [Path.strip?_join_ofNames hroot hne hns]

/-- **What is found below a location** under a root: the files with the extension that
lie there. -/
theorem mem_below_iff (hfs : fs.IsTree) {l : Location} {input : SourceInput} :
    input ∈ below fs root extension l ↔ ∃ ns content, fs.get? (l ++ ns) = some (.file content)
      ∧ (root.join (.ofNames ns)).extension? = some extension
      ∧ input = ⟨root, root.join (.ofNames ns)⟩ := by
  constructor
  · intro h
    obtain ⟨path, hpath, rfl⟩ := List.mem_map.1 h
    obtain ⟨hpath, hextension⟩ := List.mem_filter.1 hpath
    obtain ⟨⟨ns, content⟩, hns, rfl⟩ := List.mem_map.1 hpath
    exact ⟨ns, content, hfs.mem_filesBelow_iff.1 hns, beq_iff_eq.1 hextension, rfl⟩
  · rintro ⟨ns, content, hfile, hextension, rfl⟩
    refine List.mem_map_of_mem (List.mem_filter.2 ⟨?_, beq_iff_eq.2 hextension⟩)
    exact List.mem_map.2 ⟨(ns, content), hfs.mem_filesBelow_iff.2 hfile, rfl⟩

/-- The names that lead from a directory to what lies below it. -/
theorem names_of_get? (hfs : fs.IsTree) {l : Location} (hdir : fs.get? l = some .directory)
    {ns : List String} {content : List UInt8} (h : fs.get? (l ++ ns) = some (.file content)) :
    ns ≠ [] ∧ ∀ n ∈ ns, IsName n :=
  (hfs.filesBelow hdir).1 _ (hfs.mem_filesBelow_iff.2 h)

theorem exists_names_of_mem_ofRoot (hfs : fs.IsTree) (h : ofRoot fs extension root = .ok inputs)
    {input : SourceInput} (hinput : input ∈ inputs) :
    ∃ dirs stem, (∀ n ∈ dirs ++ [stem ++ "." ++ extension], IsName n)
      ∧ input.logicalPath = .ofNames (dirs ++ [stem ++ "." ++ extension])
      ∧ input.logicalPath.stem? = some stem := by
  obtain ⟨l, hroot, hdir, hperm⟩ := exists_perm_of_ofRoot h
  obtain ⟨ns, content, hfile, hextension, rfl⟩ := (mem_below_iff hfs).1 (hperm.mem_iff.1 hinput)
  obtain ⟨hne, hns⟩ := names_of_get? hfs hdir hfile
  obtain ⟨stem, hstem, hname⟩ := Path.exists_of_extension? hextension
  -- the path and the logical path end in the same name
  have hlast : ∀ p : Path, (∃ cs, p.components = cs ++ ns.map Component.normal) →
      p.fileName? = some (ns.getLast hne) := by
    rintro p ⟨cs, hcs⟩
    rw [Path.fileName?_eq, hcs, List.getLast?_append, List.getLast?_map,
      List.getLast?_eq_some_getLast hne]
    rfl
  have hfile := hlast _ ⟨_, Path.components_join_ofNames root hns⟩
  have hfile' := hlast (.ofNames ns) ⟨[], Path.components_ofNames hns⟩
  have hsplit : ns.dropLast ++ [stem ++ "." ++ extension] = ns := by
    rw [← Option.some.inj (hfile.symm.trans hname), List.dropLast_append_getLast]
  refine ⟨ns.dropLast, stem, hsplit.symm ▸ hns, ?_, ?_⟩
  · rw [hsplit, logicalPath_join_ofNames hroot hne hns]
  · rw [logicalPath_join_ofNames hroot hne hns, Path.stem?, hfile', ← hfile]
    exact hstem

/-- What is found under roots is found under one of them. -/
theorem exists_mem_ofRoot {roots : List Path} (h : ofRoots fs extension roots = .ok inputs)
    {input : SourceInput} (hinput : input ∈ inputs) :
    ∃ root ∈ roots, ∃ found, ofRoot fs extension root = .ok found ∧ input ∈ found := by
  induction roots generalizing inputs with
  | nil =>
    cases h
    exact absurd hinput List.not_mem_nil
  | cons root roots ih =>
    rw [ofRoots] at h
    cases hfirst : ofRoot fs extension root with
    | error e =>
      rw [hfirst] at h
      cases h
    | ok first =>
      cases hothers : ofRoots fs extension roots with
      | error e =>
        rw [hfirst, hothers] at h
        cases h
      | ok others =>
        rw [hfirst, hothers] at h
        cases h
        rcases List.mem_append.1 hinput with hinput | hinput
        · exact ⟨root, List.mem_cons_self, first, hfirst, hinput⟩
        · obtain ⟨other, hother, hfound⟩ := ih hothers hinput
          exact ⟨other, List.mem_cons_of_mem root hother, hfound⟩

/-- **What the logical path of an input is made of**: names of directories, and the
name of a file with the extension. -/
theorem exists_names_of_mem_ofRoots (hfs : fs.IsTree) {roots : List Path}
    (h : ofRoots fs extension roots = .ok inputs) {input : SourceInput} (hinput : input ∈ inputs) :
    ∃ dirs stem, (∀ n ∈ dirs ++ [stem ++ "." ++ extension], IsName n)
      ∧ input.logicalPath = .ofNames (dirs ++ [stem ++ "." ++ extension])
      ∧ input.logicalPath.stem? = some stem := by
  obtain ⟨root, -, found, hfound, hmem⟩ := exists_mem_ofRoot h hinput
  exact exists_names_of_mem_ofRoot hfs hfound hmem

/-- **Under one root, no two inputs have the same logical path.** -/
theorem pairwise_logicalPath_ofRoot (hfs : fs.IsTree)
    (h : ofRoot fs extension root = .ok inputs) :
    inputs.Pairwise fun a b => a.logicalPath ≠ b.logicalPath := by
  obtain ⟨l, hroot, hdir, hperm⟩ := exists_perm_of_ofRoot h
  obtain ⟨hnames, hapart⟩ := hfs.filesBelow hdir
  refine (hperm.pairwise_iff fun hne => hne.symm).2 ?_
  refine List.pairwise_map.2 (.filter _ (List.pairwise_map.2 (hapart.imp_of_mem ?_)))
  intro x y hx hy hne heq
  obtain ⟨hxne, hxs⟩ := hnames x hx
  obtain ⟨hyne, hys⟩ := hnames y hy
  have heq' := (logicalPath_join_ofNames hroot hxne hxs).symm.trans
    (heq.trans (logicalPath_join_ofNames hroot hyne hys))
  refine hne ?_
  rw [← Path.pieces_ofNames hxne hxs, heq', Path.pieces_ofNames hyne hys]

end SourceInput

end JavaMutants
