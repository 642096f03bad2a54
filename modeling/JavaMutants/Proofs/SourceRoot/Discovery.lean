import JavaMutants.Proofs.Run.Determinism
import JavaMutants.Proofs.SourceRoot
import Mathlib.Data.List.Sort
import Mathlib.Order.Compare

/-!
# Discovery is exact

Scanning a root gives all files below it that have the extension, and no others,
each of them once and in the order of the paths (`SourceInput.ofRoot_exact`).

Three orders meet here: the one in which the entries of a file system come up, the
one of the paths that are found, and the one of the logical paths by which a run
sorts its outcomes. The last two are the same, because all paths begin with the
root and components are compared from the front (`Path.compare_join_ofNames`). The
first does not matter: what is found is sorted, and no two paths compare as equal.
-/

namespace JavaMutants

open Std

/-! ## Paths below one root -/

namespace Path

theorem compareComponents_append_left (cs as bs : List Component) :
    compareComponents (cs ++ as) (cs ++ bs) = compareComponents as bs := by
  induction cs with
  | nil => rfl
  | cons c cs ih =>
    have hself : c.compare c = .eq := ReflCmp.compare_self
    rw [List.cons_append, List.cons_append, compareComponents, hself, ih]
    rfl

/-- **Paths below one root compare as what comes after it.** -/
theorem compare_join_ofNames (root : Path) {ns ms : List String} (hns : ∀ n ∈ ns, IsName n)
    (hms : ∀ n ∈ ms, IsName n) :
    (root.join (.ofNames ns)).compare (root.join (.ofNames ms))
      = (ofNames ns).compare (.ofNames ms) := by
  unfold Path.compare
  rw [components_join_ofNames root hns, components_join_ofNames root hms, components_ofNames hns,
    components_ofNames hms, compareComponents_append_left]

end Path

/-! ## The order of a run -/

/-- The outcomes of a run that has ended, before they are sorted, are those of its
files one after the other. -/
theorem Pool.map_input_outcomes {process : SourceInput → FileOutcome} {failFast : Bool}
    {inputs : List SourceInput} {schedule : List Nat}
    (hprocess : ∀ input, (process input).input = input)
    (hended : ((start inputs).follow process failFast schedule).isFinished = true) :
    ((start inputs).follow process failFast schedule).outcomes.map (·.input) = inputs := by
  refine List.ext_getElem? fun i => ?_
  rw [List.getElem?_map]
  cases hi : inputs[i]? with
  | none =>
    rw [List.getElem?_eq_none_iff] at hi
    rw [List.getElem?_eq_none (by rwa [length_outcomes_run hended])]
    rfl
  | some input =>
    obtain ⟨before, after, o, -, -, ho, hturn⟩ := exists_outcome_run hended hi
    rw [ho, Option.map_some]
    rcases hturn with ⟨-, rfl⟩ | ⟨-, rfl⟩
    · rfl
    · rw [hprocess]

/-- **Files that are in order stay in order**, whatever becomes of them. -/
theorem Generator.map_input_runUnder (g : Generator) (fs : FileSystem)
    {inputs : List SourceInput}
    (hinputs : inputs.Pairwise fun a b => a.logicalPath.compare b.logicalPath = .lt)
    {schedule : List Nat} (hschedule : ∀ i < inputs.length, 3 ≤ schedule.count i) :
    (g.runUnder fs inputs schedule).files.map (·.input) = inputs := by
  have hmap : ((Pool.start inputs).follow (g.process fs) g.failFast schedule).outcomes.map
      (·.input) = inputs :=
    Pool.map_input_outcomes (fun input => (input_process g fs input).1)
      (Pool.isFinished_follow hschedule)
  have horigin : ∀ o ∈ ((Pool.start inputs).follow (g.process fs) g.failFast schedule).outcomes,
      o.origin = o.input.logicalPath := by
    intro o ho
    obtain ⟨input, -, rfl | rfl⟩ := Pool.exists_of_mem_outcomes ho
    · rfl
    · rw [(input_process g fs input).1, (input_process g fs input).2]
  unfold runUnder Outcome.ofPool
  generalize ((Pool.start inputs).follow (g.process fs) g.failFast schedule).outcomes = os at *
  have hsorted : os.Pairwise fun a b => a.notAfter b = true := by
    rw [← hmap, List.pairwise_map] at hinputs
    refine hinputs.imp_of_mem fun {a b} ha hb hab => ?_
    rw [FileOutcome.notAfter, horigin a ha, horigin b hb, hab]
    rfl
  dsimp only
  rw [List.mergeSort_of_pairwise hsorted, hmap]

/-! ## What is found -/

namespace SourceInput

open FileSystem

variable {fs : FileSystem} {root : Path} {extension : String} {inputs : List SourceInput}
  {l : Location}

/-- **Names lead to a source file** from a location: there is a file, and its own name
has the extension. -/
def IsSource (fs : FileSystem) (l : Location) (extension : String) (ns : List String) : Prop :=
  (∃ content, fs.get? (l ++ ns) = some (.file content))
    ∧ ∃ name, ns.getLast? = some name ∧ Path.HasExtension name extension

/-- The extension of a path is that of the name it ends in. -/
theorem extension?_join_ofNames {ns : List String} (hne : ns ≠ []) (hns : ∀ n ∈ ns, IsName n) :
    (root.join (.ofNames ns)).extension? = some extension
      ↔ ∃ name, ns.getLast? = some name ∧ Path.HasExtension name extension := by
  have hlast : ns.getLast? = some (ns.getLast hne) := List.getLast?_eq_some_getLast hne
  have hname : (root.join (.ofNames ns)).fileName? = some (ns.getLast hne) := by
    rw [Path.fileName?_eq, Path.components_join_ofNames root hns, List.getLast?_append,
      List.getLast?_map, hlast]
    rfl
  rw [Path.extension?, hname, hlast]
  simp [Path.snd_splitExtension_eq_some_iff]

/-- **An input is found** if names lead to it. -/
theorem mem_below_iff_isSource (hfs : fs.IsTree) (hdir : fs.get? l = some .directory)
    {input : SourceInput} : input ∈ below fs root extension l
      ↔ ∃ ns, IsSource fs l extension ns ∧ input = ⟨root, root.join (.ofNames ns)⟩ := by
  rw [mem_below_iff hfs]
  refine exists_congr fun ns => ⟨?_, ?_⟩
  · rintro ⟨content, hfile, hextension, rfl⟩
    obtain ⟨hne, hns⟩ := names_of_get? hfs hdir hfile
    exact ⟨⟨⟨content, hfile⟩, (extension?_join_ofNames hne hns).1 hextension⟩, rfl⟩
  · rintro ⟨⟨⟨content, hfile⟩, hextension⟩, rfl⟩
    obtain ⟨hne, hns⟩ := names_of_get? hfs hdir hfile
    exact ⟨content, hfile, (extension?_join_ofNames hne hns).2 hextension, rfl⟩

/-- **A file below a root is found by names**, and these are its logical path. -/
structure FoundBy (root : Path) (ns : List String) (input : SourceInput) : Prop where
  /-- There is a name. -/
  ne_nil : ns ≠ []
  /-- All of them are names. -/
  named : ∀ n ∈ ns, IsName n
  /-- They lead from the root to the file. -/
  eq : input = ⟨root, root.join (.ofNames ns)⟩
  /-- They are all of the logical path. -/
  logical : input.logicalPath = .ofNames ns

section Order

variable {a b : SourceInput} {ns ms : List String}

/-- Files below one root compare as their logical paths do. -/
theorem FoundBy.compare_path (ha : FoundBy root ns a) (hb : FoundBy root ms b) :
    a.path.compare b.path = a.logicalPath.compare b.logicalPath := by
  rw [ha.logical, hb.logical, ha.eq, hb.eq]
  exact Path.compare_join_ofNames root ha.named hb.named

theorem FoundBy.compare_eq (ha : FoundBy root ns a) (hb : FoundBy root ms b) :
    a.compare b = a.path.compare b.path := by
  have hroot : root.compare root = .eq := Path.compare_eq_eq_iff.2 rfl
  rw [ha.eq, hb.eq, SourceInput.compare, hroot]
  rfl

/-- Files that compare as equal are found by the same names. -/
theorem FoundBy.logicalPath_eq (ha : FoundBy root ns a) (hb : FoundBy root ms b)
    (h : a.logicalPath.compare b.logicalPath = .eq) : a.logicalPath = b.logicalPath := by
  rw [ha.logical, hb.logical] at h ⊢
  have hcomponents := Path.compare_eq_eq_iff.1 h
  rw [Path.components_ofNames ha.named, Path.components_ofNames hb.named] at hcomponents
  rw [List.map_injective_iff.2 (fun _ _ => Component.normal.inj) hcomponents]

/-- **Files in order with logical paths of their own ascend.** -/
theorem pairwise_lt_of_notAfter (hfound : ∀ input ∈ inputs, ∃ ns, FoundBy root ns input)
    (hsorted : inputs.Pairwise fun a b => a.notAfter b = true)
    (hapart : inputs.Pairwise fun a b => a.logicalPath ≠ b.logicalPath) :
    inputs.Pairwise fun a b => a.logicalPath.compare b.logicalPath = .lt := by
  refine (hsorted.and hapart).imp_of_mem ?_
  rintro a b ha hb ⟨hle, hne⟩
  obtain ⟨ns, ha⟩ := hfound a ha
  obtain ⟨ms, hb⟩ := hfound b hb
  rw [notAfter, ha.compare_eq hb, ha.compare_path hb] at hle
  cases hcompare : a.logicalPath.compare b.logicalPath with
  | lt => rfl
  | eq => exact absurd (ha.logicalPath_eq hb hcompare) hne
  | gt =>
    rw [hcompare] at hle
    cases hle

end Order

/-- **What a scan has to give**: the source files below the directory of the root, in
the one order that their paths, their logical paths and a run put them into. -/
structure Discovered (fs : FileSystem) (extension : String) (root : Path) (l : Location)
    (inputs : List SourceInput) : Prop where
  /-- The inputs are the source files below the directory. -/
  mem_iff : ∀ input, input ∈ inputs
    ↔ ∃ ns, IsSource fs l extension ns ∧ input = ⟨root, root.join (.ofNames ns)⟩
  /-- No file is found twice. -/
  nodup : inputs.Nodup
  /-- Their paths ascend. -/
  ascending : inputs.Pairwise fun a b => a.path.compare b.path = .lt
  /-- A logical path is made of names, at least one of them, and it leads from the root
  to the file. -/
  logical : ∀ input ∈ inputs, ∃ ns ≠ [], (∀ n ∈ ns, IsName n)
    ∧ input.logicalPath.components = ns.map .normal ∧ input.logicalPath.isAbsolute = false
    ∧ root.join input.logicalPath = input.path
  /-- No logical path comes up twice. -/
  nodup_logical : (inputs.map logicalPath).Nodup
  /-- The logical paths ascend with the paths. -/
  logical_ascending : inputs.Pairwise fun a b => a.logicalPath.compare b.logicalPath = .lt
  /-- A run leaves the files in this order, whatever becomes of them. -/
  run : ∀ (g : Generator) (fs' : FileSystem) (schedule : List Nat),
    (∀ i < inputs.length, 3 ≤ schedule.count i) →
      (g.runUnder fs' inputs schedule).files.map (·.input) = inputs

/-- **Discovery is exact.** For every file tree, every extension and every root, a scan
fails exactly if the root is not a directory, and otherwise gives the source files below
it, each of them once, in the order of their paths, of their logical paths and of a
run. -/
theorem ofRoot_exact (hfs : fs.IsTree) (extension : String) (root : Path) :
    ((∃ e, ofRoot fs extension root = .error e) ↔ fs.isDirectory root = false)
    ∧ (fs.isDirectory root = true → ∃ l inputs, fs.directory? root = some l
      ∧ ofRoot fs extension root = .ok inputs ∧ Discovered fs extension root l inputs) := by
  unfold isDirectory
  cases hl : fs.directory? root with
  | none => simp [ofRoot, hl]
  | some l =>
    have hscan : ofRoot fs extension root
        = .ok ((below fs root extension l).mergeSort notAfter) := by
      rw [ofRoot, hl]
    refine ⟨by simp [hscan], fun _ => ⟨l, _, rfl, hscan, ?_⟩⟩
    obtain ⟨hroot, hdir⟩ := get?_of_directory? hl
    have hapart := pairwise_logicalPath_ofRoot hfs hscan
    have hsorted := List.pairwise_mergeSort notAfter_trans notAfter_total
      (below fs root extension l)
    have hmem : ∀ input, input ∈ (below fs root extension l).mergeSort notAfter
        ↔ ∃ ns, IsSource fs l extension ns ∧ input = ⟨root, root.join (.ofNames ns)⟩ :=
      fun input => List.mem_mergeSort.trans (mem_below_iff_isSource hfs hdir)
    generalize (below fs root extension l).mergeSort notAfter = inputs at *
    have hfound : ∀ input ∈ inputs, ∃ ns, FoundBy root ns input := by
      intro input hinput
      obtain ⟨ns, ⟨⟨content, hfile⟩, -⟩, rfl⟩ := (hmem input).1 hinput
      obtain ⟨hne, hns⟩ := names_of_get? hfs hdir hfile
      exact ⟨ns, hne, hns, rfl, logicalPath_join_ofNames hroot hne hns⟩
    have hascending := pairwise_lt_of_notAfter hfound hsorted hapart
    refine ⟨hmem, hapart.imp fun hne heq => hne (congrArg logicalPath heq), ?_, ?_,
      List.pairwise_map.2 hapart, hascending,
      fun g fs' schedule => g.map_input_runUnder fs' hascending⟩
    · refine hascending.imp_of_mem fun {a b} ha hb hab => ?_
      obtain ⟨ns, ha⟩ := hfound a ha
      obtain ⟨ms, hb⟩ := hfound b hb
      rw [ha.compare_path hb, hab]
    · intro input hinput
      obtain ⟨ns, h⟩ := hfound input hinput
      refine ⟨ns, h.ne_nil, h.named, ?_, ?_, ?_⟩
      · rw [h.logical, Path.components_ofNames h.named]
      · rw [h.logical, Path.isAbsolute_ofNames h.named]
      · rw [h.logical, h.eq]

/-- A directory that comes before a file although its path comes after that of the file
as a text, names with a dot in front or two of them, and a directory and a link that
are called like source files. -/
theorem ofRoot_exact_dots :
    let fs : FileSystem := { entries := [(["src"], .directory), (["src", "a.b.java"], .file []),
      (["src", "a"], .directory), (["src", "a", "B.java"], .file []),
      (["src", ".java"], .file []), (["src", "c.java"], .directory),
      (["src", "d.java"], .link ⟨"a.b.java"⟩)] }
    let inputs : List SourceInput :=
      [⟨⟨"src/"⟩, ⟨"src/a/B.java"⟩⟩, ⟨⟨"src/"⟩, ⟨"src/a.b.java"⟩⟩]
    fs.IsTree ∧ fs.isDirectory ⟨"src/"⟩ = true ∧ ofRoot fs "java" ⟨"src/"⟩ = .ok inputs
      ∧ Discovered fs "java" ⟨"src/"⟩ ["src"] inputs := by
  intro fs inputs
  have hfs : fs.IsTree := ⟨by decide, by decide, by decide⟩
  have hdir : fs.directory? ⟨"src/"⟩ = some ["src"] :=
    FileSystem.directory?_of_find <| by
      rw [show FileSystem.steps ⟨"src/"⟩ = ["src", "."] by decide]
      exact FileSystem.find_of_name (.inr rfl) (by decide) ⟨by simp, by decide⟩
        (by decide) rfl true
  have hisdir : fs.isDirectory ⟨"src/"⟩ = true := by rw [isDirectory, hdir]; rfl
  have hbelow : below fs ⟨"src/"⟩ "java" ["src"] = inputs.reverse := by decide
  have hsort : inputs.reverse.mergeSort notAfter = inputs := by
    have hle : notAfter ⟨⟨"src/"⟩, ⟨"src/a.b.java"⟩⟩ ⟨⟨"src/"⟩, ⟨"src/a/B.java"⟩⟩ = false := by
      decide
    simp [inputs, List.mergeSort, hle]
  have hscan : ofRoot fs "java" ⟨"src/"⟩ = .ok inputs := by
    rw [ofRoot, hdir]
    dsimp only
    rw [hbelow, hsort]
  obtain ⟨l, found, hl, hfound, hall⟩ := (ofRoot_exact hfs "java" ⟨"src/"⟩).2 hisdir
  rw [hdir] at hl
  rw [hscan] at hfound
  cases hl
  cases hfound
  exact ⟨hfs, hisdir, hscan, hall⟩

end SourceInput

end JavaMutants
