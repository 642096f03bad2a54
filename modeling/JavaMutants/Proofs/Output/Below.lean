import JavaMutants.Proofs.Output.Clash

/-!
# Mutants stay below the output directory

Joining paths can lead anywhere: an absolute path takes the place of what it is put
after, and a `..` is kept and leads up again. The path of a mutant is the output
directory with nothing but names put after it (`Output.LiesBelow`), because the logical
path of a file is made of names, however the root is spelled under which the file was
found, and the name of a mutant with the extension is a name again
(`Generator.pathOf_eq_join`).
-/

namespace JavaMutants

namespace Path

variable {ns : List String}

/-- Names put after a path leave it as absolute or as relative as it is. -/
theorem isAbsolute_join_ofNames (p : Path) (h : ∀ n ∈ ns, IsName n) :
    (p.join (ofNames ns)).isAbsolute = p.isAbsolute := by
  have hns := isAbsolute_ofNames h
  by_cases hp : p.text = ""
  · have hjoin : p.join (ofNames ns) = ofNames ns := by simp [join, hns, hp]
    have habsolute : p.isAbsolute = false := by simp [isAbsolute, hp]
    rw [hjoin, hns, habsolute]
  · obtain ⟨-, -, -, -, habsolute⟩ := exists_pieces_join hp hns
    exact habsolute

end Path

namespace Output

variable {outDir path : Path} {dirs : List String} {name : String}

/-- **A path below an output directory**: in directories with some names, under some
name. -/
structure LiesBelow (outDir : Path) (dirs : List String) (name : String) (path : Path) :
    Prop where
  /-- What comes after the output directory are names. -/
  named : ∀ n ∈ dirs ++ [name], IsName n
  /-- The path is the output directory with the names put after it. -/
  eq_join : path = outDir.join (.ofNames (dirs ++ [name]))
  /-- The path has the components of the output directory, and after them the names. -/
  components : path.components = outDir.components ++ (dirs ++ [name]).map .normal
  /-- No `..` is added. -/
  count_up : path.components.count .up = outDir.components.count .up
  /-- The path does not begin anew at the root. -/
  isAbsolute : path.isAbsolute = outDir.isAbsolute
  /-- Wherever the output directory is, the path leads below it. -/
  location : ∀ here, path.location here = outDir.location here ++ (dirs ++ [name])

/-- **A path that is joined from an output directory and names** lies below that
directory. -/
theorem LiesBelow.of_join (hnames : ∀ n ∈ dirs ++ [name], IsName n)
    (hpath : path = outDir.join (.ofNames (dirs ++ [name]))) :
    LiesBelow outDir dirs name path := by
  have hcomponents : path.components = outDir.components ++ (dirs ++ [name]).map .normal := by
    rw [hpath, Path.components_join_ofNames outDir hnames]
  have hup : .up ∉ (dirs ++ [name]).map Component.normal := by
    intro hmem
    obtain ⟨n, -, hn⟩ := List.mem_map.1 hmem
    cases hn
  refine ⟨hnames, hpath, hcomponents, ?_, ?_, fun here => ?_⟩
  · rw [hcomponents, List.count_append, List.count_eq_zero_of_not_mem hup, Nat.add_zero]
  · rw [hpath, Path.isAbsolute_join_ofNames outDir hnames]
  · exact Path.location_of_components hcomponents

end Output

namespace Generator

open Output

variable {config : Config} {g : Generator} {fs fs' : FileSystem} {roots : List Path}
  {extension : String} {inputs : List SourceInput} {input : SourceInput} {m : Mutant}

/-- **Mutants stay below the output directory.** For every generator of a configuration,
every file tree and all roots that can be scanned, however they are spelled: whatever the
file then holds, a mutant of a file found under the roots goes below the output
directory, into the directories that the logical path of the file has for a parent,
under its own name with the extension. -/
theorem mutants_lie_below (hg : ofConfig config = .ok g) (hfs : fs.IsTree)
    (hinputs : SourceInput.ofRoots fs extension roots = .ok inputs) (hinput : input ∈ inputs)
    (hm : m ∈ (g.process fs' input).mutants) (outDir : Path) :
    ∃ parent dirs, input.logicalPath.parent? = some parent
      ∧ parent.components = dirs.map .normal
      ∧ LiesBelow outDir dirs (m.name ++ "." ++ extension) (pathOf outDir extension m) := by
  obtain ⟨dirs, stem, hnames, hlogical, hstem⟩ :=
    SourceInput.exists_names_of_mem_ofRoots hfs hinputs hinput
  obtain ⟨hgoes, hpath⟩ := pathOf_eq_join hg hnames hlogical hstem hm outDir
  refine ⟨.ofNames dirs, dirs, ?_, ?_, .of_join hgoes hpath⟩
  · rw [hlogical, Path.parent?_ofNames hnames]
  · exact Path.components_ofNames fun n hn => hnames n (List.mem_append_left _ hn)

/-- A root and an output directory that are spelled with `.` and `..`, and a file that
is called like a way up. -/
theorem mutants_lie_below_dots :
    let text := "class A \x7b @Mutate void f() \x7b ; \x7d \x7d"
    let fs : FileSystem := { entries := [(["src"], .directory), (["src", "x"], .directory),
      (["src", "x", "...java"], .file text.toUTF8.toList)] }
    let input : SourceInput := ⟨⟨"./src/../src//"⟩, ⟨"./src/../src//x/...java"⟩⟩
    ∃ g m, ofConfig {} = .ok g ∧ fs.IsTree
      ∧ SourceInput.ofRoots fs "java" [⟨"./src/../src//"⟩] = .ok [input]
      ∧ m ∈ (g.process fs input).mutants
      ∧ pathOf ⟨"../out/."⟩ "java" m = ⟨"../out/./x/.._method0_empty_body_0.java"⟩
      ∧ ∃ parent dirs, input.logicalPath.parent? = some parent
        ∧ parent.components = dirs.map .normal
        ∧ LiesBelow ⟨"../out/."⟩ dirs (m.name ++ "." ++ "java")
          (pathOf ⟨"../out/."⟩ "java" m) := by
  intro text fs input
  let m : Mutant :=
    { origin := ⟨"x/...java"⟩, name := ".._method0_empty_body_0"
      text := "class A \x7b @Mutate void f() \x7b\x7d \x7d", kind := .method, ordinal := 0
      operator := "empty_body_0", start := 10, stop := 32, replacementSize := 19 }
  have hg : ofConfig {} = .ok ⟨{}, .builtin, false⟩ := rfl
  have hfs : fs.IsTree := ⟨by decide, by decide, by decide⟩
  have hsize : Text.size "src" = 3 ∧ Text.size "x" = 1 ∧ Text.size "...java" = 7 := by
    decide
  have hget : fs.get? ["src"] = some .directory ∧ fs.get? ["src", "x"] = some .directory
      ∧ fs.get? ["src", "x", "...java"] = some (.file text.toUTF8.toList) ∧ fs.here = [] :=
    ⟨rfl, rfl, rfl, rfl⟩
  have hinputs : SourceInput.ofRoots fs "java" [⟨"./src/../src//"⟩] = .ok [input] := by
    have hsteps : FileSystem.steps ⟨"./src/../src//"⟩ = [".", "src", "..", "src", "."] := by
      decide
    have hpath : Text.size "./src/../src//" = 14 ∧ Path.isAbsolute ⟨"./src/../src//"⟩ = false := by
      decide
    have hfind : fs.find true ⟨"./src/../src//"⟩ (FileSystem.steps ⟨"./src/../src//"⟩)
        = .ok (.occupied ["src"] .directory) := by
      simp [hsteps, FileSystem.find, FileSystem.walk, FileSystem.origin, FileSystem.longestName,
        FileSystem.longestPath, hget, hsize, hpath]
    have hbelow : SourceInput.below fs ⟨"./src/../src//"⟩ "java" ["src"] = [input] := by
      decide
    rw [SourceInput.ofRoots, SourceInput.ofRoot, FileSystem.directory?, hfind]
    dsimp only
    rw [hbelow, List.mergeSort_singleton]
    rfl
  have hmutants : (process ⟨{}, .builtin, false⟩ fs input).mutants = [m] := by
    have hsteps : FileSystem.steps input.path = [".", "src", "..", "src", "x", "...java"] := by
      decide
    have hpath : Text.size input.path.text = 23 ∧ input.path.isAbsolute = false
        ∧ input.path.text.isEmpty = false := by
      decide
    have hnull : input.path.text.contains (Char.ofNat 0) = false := by simp [input]
    have hread : fs.read input.path = .ok text.toUTF8.toList := by
      simp [FileSystem.read, FileSystem.find, hsteps, FileSystem.walk, FileSystem.origin,
        FileSystem.longestName, FileSystem.longestPath, hget, hsize, hpath, hnull]
    unfold process SourceFile.load
    rw [hread]
    decide +kernel
  have hm : m ∈ (process ⟨{}, .builtin, false⟩ fs input).mutants := by
    rw [hmutants]
    exact List.mem_singleton_self m
  exact ⟨_, m, hg, hfs, hinputs, hm, by decide,
    mutants_lie_below hg hfs hinputs (List.mem_singleton_self input) hm ⟨"../out/."⟩⟩

end Generator

end JavaMutants
