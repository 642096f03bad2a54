import JavaMutants.Program
import JavaMutants.Proofs.Config
import JavaMutants.Proofs.Output.Removal
import JavaMutants.Proofs.Run.Removal

/-!
# What becomes of a call that writes mutants

A call either is refused before anything is written, or it writes mutants and its
code says whether all files could be processed. What refuses a call is a
configuration that is not valid (`Program.ending_of_config_error`), a root that is
no directory (`Program.ending_of_root`), or what is wrong with the places of the
mutants (`Program.ending_of_write_unchanged`).

Files that fail do not stop the others. If they had not been there, the call would
have written the same mutants to the same paths
(`Program.generate_partial_failure`).
-/

namespace JavaMutants

open CommandLine (Sources)

namespace SourceInput

/-- **A root that is no directory** ends the search for files. -/
theorem exists_error_of_ofRoots {fs : FileSystem} {extension : String} {roots : List Path}
    {root : Path} (hroot : root ∈ roots) (hdir : fs.isDirectory root = false) :
    ∃ e, ofRoots fs extension roots = .error e := by
  induction roots with
  | nil => exact absurd hroot List.not_mem_nil
  | cons first roots ih =>
    rw [ofRoots]
    cases hfirst : ofRoot fs extension first with
    | error e => exact ⟨e, rfl⟩
    | ok found =>
      rcases List.mem_cons.1 hroot with rfl | hroot
      · unfold FileSystem.isDirectory at hdir
        unfold ofRoot at hfirst
        rw [Option.isSome_eq_false_iff, Option.isNone_iff_eq_none] at hdir
        rw [hdir] at hfirst
        cases hfirst
      · obtain ⟨e, he⟩ := ih hroot
        rw [he]
        exact ⟨e, rfl⟩

end SourceInput

namespace Output

/-- **What is wrong with the places of mutants** keeps all of them from being
written. -/
theorem write_unchanged {fs : FileSystem} {outDir : Path} {extension : String}
    {mutants : List Mutant}
    (h : (fs.contains outDir = true ∧ fs.isDirectory outDir = false)
      ∨ ¬ Unrepeated (mutants.map (pathOf outDir extension))) :
    ∃ e, write fs outDir extension mutants = (fs, .error e) := by
  unfold write
  split
  · exact ⟨_, rfl⟩
  next hgo =>
    dsimp only
    cases hfound : repeated? [] (mutants.map (pathOf outDir extension)) with
    | some path => exact ⟨_, rfl⟩
    | none =>
      rcases h with ⟨hcontains, hdir⟩ | hrepeated
      · exact absurd (by rw [hcontains, hdir]; rfl) hgo
      · exact absurd (repeated?_eq_none_iff.1 hfound).1 hrepeated

end Output

namespace Program

variable {fs : FileSystem} {sources : Sources} {output : Path} {operators : List String}
  {failFast styled : Bool} {config : Config} {g : Generator} {inputs : List SourceInput}

/-! ## How a call ends -/

/-- A configuration that is used has no problems. -/
theorem problems_of_generateConfig
    (h : generateConfig fs sources operators failFast styled = .ok config) :
    config.problems Registry.builtin.tags = [] := by
  have hchecked : ∀ c : Config, checked c styled = .ok config →
      config.problems Registry.builtin.tags = [] := by
    intro c hc
    unfold checked at hc
    dsimp only at hc
    split at hc
    next hempty =>
      cases hc
      exact List.isEmpty_iff.1 hempty
    next => cases hc
  unfold generateConfig at h
  cases hconfig : (configOf fs sources).mapError (Abort.ofError "") with
  | error a =>
    rw [hconfig] at h
    cases h
  | ok c =>
    rw [hconfig] at h
    exact hchecked _ h

/-- **A call is refused** if its configuration is not valid. -/
theorem ending_of_config_error {a : Abort}
    (h : generateConfig fs sources operators failFast styled = .error a) :
    (generate fs sources output operators failFast styled).code = 1
      ∧ (generate fs sources output operators failFast styled).files = fs := by
  unfold generate
  simp only [h]
  exact ⟨rfl, rfl⟩

/-- **A call is refused** if there is nothing to work on. -/
theorem ending_of_prepare_error {a : Abort}
    (hconfig : generateConfig fs sources operators failFast styled = .ok config)
    (h : prepare fs sources.roots config = .error a) :
    (generate fs sources output operators failFast styled).code = 1
      ∧ (generate fs sources output operators failFast styled).files = fs := by
  unfold generate
  simp only [hconfig, h, bind, Except.bind]
  exact ⟨trivial, trivial⟩

theorem prepare_eq (hg : Generator.ofConfig config = .ok g) (roots : List Path) :
    prepare fs roots config
      = ((SourceInput.ofRoots fs config.extension roots).mapError
          (Abort.ofError "failed to scan for source files: ")).map fun inputs => (g, inputs) := by
  unfold prepare
  rw [hg]
  cases SourceInput.ofRoots fs config.extension roots <;> rfl

/-- **A call is refused** if a root is no directory. -/
theorem ending_of_root {root : Path} (hroot : root ∈ sources.roots)
    (hdir : fs.isDirectory root = false) :
    (generate fs sources output operators failFast styled).code = 1
      ∧ (generate fs sources output operators failFast styled).files = fs := by
  cases hconfig : generateConfig fs sources operators failFast styled with
  | error a => exact ending_of_config_error hconfig
  | ok config =>
    obtain ⟨g, hg⟩ := Config.exists_generator_of_problems (problems_of_generateConfig hconfig)
    obtain ⟨e, he⟩ : ∃ e, SourceInput.ofRoots fs config.extension sources.roots = .error e :=
      SourceInput.exists_error_of_ofRoots hroot hdir
    exact ending_of_prepare_error hconfig (by rw [prepare_eq hg, he]; rfl)

/-- **What a call does** whose files have been found. -/
theorem ending_of_inputs
    (hconfig : generateConfig fs sources operators failFast styled = .ok config)
    (hg : Generator.ofConfig config = .ok g)
    (hinputs : SourceInput.ofRoots fs config.extension sources.roots = .ok inputs)
    {after : FileSystem} {result : Except Error (List Path)}
    (hwrite : Output.write fs output config.extension (g.run fs inputs).mutants
      = (after, result)) :
    (generate fs sources output operators failFast styled).code
        = (match result with
          | .error _ => 1
          | .ok _ => codeOf (g.run fs inputs))
      ∧ (generate fs sources output operators failFast styled).files = after := by
  have hprepare : prepare fs sources.roots config = .ok (g, inputs) := by
    rw [prepare_eq hg, hinputs]
    rfl
  unfold generate
  simp only [hconfig, hprepare, bind, Except.bind, pure, Except.pure, hwrite]
  cases result <;> exact ⟨rfl, rfl⟩

/-- **A call is refused** if something is wrong with the places of the mutants. -/
theorem ending_of_write_unchanged
    (hconfig : generateConfig fs sources operators failFast styled = .ok config)
    (hg : Generator.ofConfig config = .ok g)
    (hinputs : SourceInput.ofRoots fs config.extension sources.roots = .ok inputs)
    (h : (fs.contains output = true ∧ fs.isDirectory output = false)
      ∨ ¬ Output.Unrepeated
        ((g.run fs inputs).mutants.map (Output.pathOf output config.extension))) :
    (generate fs sources output operators failFast styled).code = 1
      ∧ (generate fs sources output operators failFast styled).files = fs := by
  obtain ⟨e, he⟩ := Output.write_unchanged h
  exact ending_of_inputs hconfig hg hinputs he

/-- **A call is refused** if the output directory is something else. -/
theorem ending_of_output (hcontains : fs.contains output = true)
    (hdir : fs.isDirectory output = false) :
    (generate fs sources output operators failFast styled).code = 1
      ∧ (generate fs sources output operators failFast styled).files = fs := by
  cases hconfig : generateConfig fs sources operators failFast styled with
  | error a => exact ending_of_config_error hconfig
  | ok config =>
    obtain ⟨g, hg⟩ := Config.exists_generator_of_problems (problems_of_generateConfig hconfig)
    cases hinputs : SourceInput.ofRoots fs config.extension sources.roots with
    | error e => exact ending_of_prepare_error hconfig (by rw [prepare_eq hg, hinputs]; rfl)
    | ok inputs => exact ending_of_write_unchanged hconfig hg hinputs (.inl ⟨hcontains, hdir⟩)

/-! ## Files that fail -/

/-- **What may be taken away**: files of inputs that fail, under whatever root they
are found. -/
def Removable (fs : FileSystem) (inputs : List SourceInput) (gone : Location → Bool) : Prop :=
  ∀ l, gone l = true → (∃ input ∈ inputs, input.LiesAt fs l)
    ∧ ∀ input ∈ inputs, input.LiesAt fs l → input.Fails fs

/-- **Without files that fail the same mutants are made.** -/
theorem exists_mutants_eq_of_removable (hfs : fs.IsTree)
    (hg : Generator.ofConfig config = .ok g)
    (hinputs : SourceInput.ofRoots fs config.extension sources.roots = .ok inputs)
    {gone : Location → Bool} (hgone : Removable fs inputs gone) :
    FileSystem.Lacks (fun l => gone l = true) fs (fs.without gone)
      ∧ ∃ inputs', SourceInput.ofRoots (fs.without gone) config.extension sources.roots
          = .ok inputs'
        ∧ (g.run (fs.without gone) inputs').mutants = (g.run fs inputs).mutants := by
  classical
  have hfile : ∀ l, gone l = true → ∃ content, fs.get? l = some (.file content) := by
    intro l hl
    obtain ⟨input, -, hfile, -⟩ := (hgone l hl).1
    exact hfile
  have hlacks := hfs.lacks_without hfile
  let keep (input : SourceInput) : Bool := decide (¬ ∃ l, input.LiesAt fs l ∧ gone l = true)
  have hkeep : ∀ input l, input.LiesAt fs l → keep input = !gone l := by
    intro input l hl
    have hiff : (∃ l', input.LiesAt fs l' ∧ gone l' = true) ↔ gone l = true :=
      ⟨fun ⟨l', hl', hgone'⟩ => hl.eq hfs hl' ▸ hgone', fun hgone' => ⟨l, hl, hgone'⟩⟩
    simp only [keep, hiff]
    cases gone l <;> simp
  refine ⟨hlacks, inputs.filter keep, SourceInput.ofRoots_without hfs hfile hkeep hinputs,
    Generator.mutants_run_filter hg (fun input hinput hk => ?_) fun input hinput hk => ?_⟩
  · obtain ⟨l, hl, hgone'⟩ := not_not.1 (of_decide_eq_false hk)
    exact (hgone l hgone').2 input hinput hl
  · obtain ⟨l, hl⟩ := SourceInput.exists_liesAt_of_mem_ofRoots hfs hinputs hinput
    have hnot : gone l = false := by simpa [hkeep input l hl] using hk
    exact SourceInput.read_of_liesAt hfs hlacks hl (by simp [hnot])

/-- **Some files can fail.** For every file tree and every call,

* if the configuration is valid, the files are found and the mutants are written, the
  code is two if a file fails and zero if none does; the mutants are those of the
  inputs that can be read; and if files that fail are taken away, whichever they
  are, and the configuration is what it was, then the same paths are written and give
  the same bytes to read;
* if the configuration is not valid, a root is no directory, the output directory is
  something else or two mutants have one path, the code is one and nothing has
  changed. -/
theorem generate_partial_failure (hfs : fs.IsTree) (sources : Sources) (output : Path)
    (operators : List String) (failFast styled : Bool) :
    (∀ config inputs,
      generateConfig fs sources operators failFast styled = .ok config →
      SourceInput.ofRoots fs config.extension sources.roots = .ok inputs →
      ∃ g, Generator.ofConfig config = .ok g ∧ ∀ after paths,
        Output.write fs output config.extension (g.run fs inputs).mutants = (after, .ok paths) →
          (generate fs sources output operators failFast styled).files = after
          ∧ ((∃ input ∈ inputs, input.Fails fs) →
            (generate fs sources output operators failFast styled).code = 2)
          ∧ ((∀ input ∈ inputs, ¬ input.Fails fs) →
            (generate fs sources output operators failFast styled).code = 0)
          ∧ (g.run fs (inputs.filter fun input => (SourceFile.load fs input).isOk)).mutants
            = (g.run fs inputs).mutants
          ∧ ∀ gone, Removable fs inputs gone →
            generateConfig (fs.without gone) sources operators failFast styled = .ok config →
            ∃ inputs' after',
              SourceInput.ofRoots (fs.without gone) config.extension sources.roots = .ok inputs'
              ∧ Output.write (fs.without gone) output config.extension
                (g.run (fs.without gone) inputs').mutants = (after', .ok paths)
              ∧ (generate (fs.without gone) sources output operators failFast styled).files = after'
              ∧ (∀ path ∈ paths, ∃ content, after.read path = .ok content
                ∧ after'.read path = .ok content)
              ∧ ∀ l, gone l = false → after'.get? l = after.get? l)
    ∧ ((∃ a, generateConfig fs sources operators failFast styled = .error a)
        ∨ (∃ root ∈ sources.roots, fs.isDirectory root = false)
        ∨ (fs.contains output = true ∧ fs.isDirectory output = false)
        ∨ (∃ config inputs g, generateConfig fs sources operators failFast styled = .ok config
          ∧ SourceInput.ofRoots fs config.extension sources.roots = .ok inputs
          ∧ Generator.ofConfig config = .ok g
          ∧ ¬ Output.Unrepeated
            ((g.run fs inputs).mutants.map (Output.pathOf output config.extension))) →
      (generate fs sources output operators failFast styled).code = 1
        ∧ (generate fs sources output operators failFast styled).files = fs) := by
  constructor
  · intro config inputs hconfig hinputs
    obtain ⟨g, hg⟩ := Config.exists_generator_of_problems (problems_of_generateConfig hconfig)
    refine ⟨g, hg, fun after paths hwrite => ?_⟩
    obtain ⟨hcode, hfiles⟩ := ending_of_inputs hconfig hg hinputs hwrite
    have hfailures := Generator.hasFailures_run_iff fs inputs hg
    refine ⟨hfiles, fun hfails => ?_, fun hnone => ?_, ?_, fun gone hgone hconfig' => ?_⟩
    · rw [hcode]
      exact if_pos (hfailures.2 hfails)
    · rw [hcode]
      exact if_neg fun hhas => by
        obtain ⟨input, hinput, hfails⟩ := hfailures.1 hhas
        exact hnone input hinput hfails
    · refine Generator.mutants_run_filter hg (fun input _ hk => ?_) fun _ _ _ => rfl
      rw [SourceInput.fails_iff]
      cases hload : SourceFile.load fs input with
      | error e => exact ⟨e, rfl⟩
      | ok file =>
        rw [hload] at hk
        cases hk
    · obtain ⟨hlacks, inputs', hinputs', hmutants⟩ :=
        exists_mutants_eq_of_removable hfs hg hinputs hgone
      obtain ⟨after', hwrite', hread, hkept⟩ := Output.write_eq_ok_of_lacks hlacks hwrite
      rw [← hmutants] at hwrite'
      exact ⟨inputs', after', hinputs', hwrite',
        (ending_of_inputs hconfig' hg hinputs' hwrite').2, hread,
        fun l hl => hkept l (by simp [hl])⟩
  · rintro (⟨a, ha⟩ | ⟨root, hroot, hdir⟩ | ⟨hcontains, hdir⟩ |
      ⟨config, inputs, g, hconfig, hinputs, hg, hrepeated⟩)
    · exact ending_of_config_error ha
    · exact ending_of_root hroot hdir
    · exact ending_of_output hcontains hdir
    · exact ending_of_write_unchanged hconfig hg hinputs (.inr hrepeated)

/-- A file that is no text beside one with a mutant: with it the code is two, and the
mutant is the same without it. -/
theorem generate_partial_failure_two :
    let good := Text.encode "class A \x7b @Mutate void f() \x7b g(); \x7d \x7d"
    let fs : FileSystem := { entries := [(["out"], .directory), (["src"], .directory),
      (["src", "A.java"], .file good), (["src", "B.java"], .file [0xff])] }
    let sources : Sources := ⟨none, [⟨"src"⟩], none⟩
    let mutant : Path := ⟨"out/A_method0_empty_body_0.java"⟩
    let ending (fs : FileSystem) := generate fs sources ⟨"out"⟩ ["empty_body"] false false
    fs.IsTree ∧ (ending fs).code = 2
      ∧ ∃ content, (ending fs).files.read mutant = .ok content
        ∧ (ending (fs.without (· == ["src", "B.java"]))).files.read mutant = .ok content := by
  intro good fs sources mutant ending
  let a : SourceInput := ⟨⟨"src"⟩, ⟨"src/A.java"⟩⟩
  let b : SourceInput := ⟨⟨"src"⟩, ⟨"src/B.java"⟩⟩
  let config : Config := { operators := ["empty_body"] }
  have hfs : fs.IsTree := ⟨by decide, by decide, by decide⟩
  have hconfig (fs : FileSystem) (hfree : fs.get? ["mutagen.yaml"] = none) (hroot : fs.here = []) :
      generateConfig fs sources ["empty_body"] false false = .ok config := by
    have hcontains : fs.contains defaultConfig = false := by
      have hsteps : FileSystem.steps defaultConfig = ["mutagen.yaml"] := by decide
      have hsize : Text.size "mutagen.yaml" = 12 ∧ defaultConfig.isAbsolute = false
        ∧ defaultConfig.text = "mutagen.yaml" := by decide
      simp [hsteps, FileSystem.contains, FileSystem.find, FileSystem.walk,
        FileSystem.origin, FileSystem.longestName, FileSystem.longestPath, hsize, hroot, hfree]
    have hproblems : config.problems Registry.builtin.tags = [] := by decide
    have hof : configOf fs sources = .ok {} := by
      simp only [configOf, sources, hcontains]
      rfl
    unfold generateConfig
    rw [hof]
    simp only [Except.mapError, bind, Except.bind, List.isEmpty_cons, Bool.false_eq_true, if_false,
      Bool.or_false]
    unfold checked
    dsimp only
    exact if_pos (List.isEmpty_iff.2 hproblems)
  have hdir : fs.directory? ⟨"src"⟩ = some ["src"] :=
    FileSystem.directory?_of_find <| by
      rw [show FileSystem.steps ⟨"src"⟩ = ["src"] by decide]
      exact FileSystem.find_of_name (.inl rfl) (by decide) ⟨by simp, by decide⟩
        (by decide) rfl true
  have hinputs : SourceInput.ofRoots fs config.extension sources.roots = .ok [a, b] := by
    have hextension : config.extension = "java" := by decide
    have hbelow : SourceInput.below fs ⟨"src"⟩ "java" ["src"] = [a, b] := by
      decide
    show SourceInput.ofRoots fs config.extension [⟨"src"⟩] = _
    rw [hextension, SourceInput.ofRoots, SourceInput.ofRoot, hdir]
    dsimp only
    rw [hbelow, List.mergeSort_of_pairwise (by decide)]
    rfl
  have hread (name : String) (content : List UInt8) (path : Path)
      (hfile : fs.get? ["src", name] = some (.file content))
      (hname : name ≠ "." ∧ name ≠ ".." ∧ Text.size name = 6)
      (hnull : path.text.contains (Char.ofNat 0) = false)
      (hpath : FileSystem.steps path = ["src", name] ∧ path.text.isEmpty = false
        ∧ Text.size path.text = 10 ∧ path.isAbsolute = false) :
      fs.read path = .ok content := by
    have hsrc : Text.size "src" = 3 ∧ fs.get? ["src"] = some .directory ∧ fs.here = [] := by
      decide
    unfold FileSystem.read FileSystem.find
    simp [hpath, hnull, hname, hsrc, hfile, FileSystem.walk, FileSystem.origin, FileSystem.longestName,
      FileSystem.longestPath]
  have hreadA : fs.read a.path = .ok good :=
    hread "A.java" good a.path rfl (by decide) (by simp [a]) (by decide)
  have hreadB : fs.read b.path = .ok [0xff] :=
    hread "B.java" [0xff] b.path rfl (by decide) (by simp [b]) (by decide)
  obtain ⟨hrun, -⟩ := generate_partial_failure hfs sources ⟨"out"⟩ ["empty_body"] false false
  obtain ⟨g, hg, hwritten⟩ := hrun config _ (hconfig fs rfl rfl) hinputs
  have hgenerator : g = ⟨{}, ⟨[Registry.builtin.operators[0]]⟩, false⟩ :=
    (Except.ok.inj hg).symm
  let m : Mutant :=
    { origin := ⟨"A.java"⟩, name := "A_method0_empty_body_0"
      text := "class A \x7b @Mutate void f() \x7b\x7d \x7d", kind := .method, ordinal := 0
      operator := "empty_body_0", start := 10, stop := 35, replacementSize := 19 }
  have hmutants : (g.run fs [a, b]).mutants = [m] := by
    have hA : (g.process fs a).mutants = [m] := by
      rw [hgenerator]
      unfold Generator.process SourceFile.load
      rw [hreadA]
      decide +kernel
    have hB : (g.process fs b).mutants = [] := by
      unfold Generator.process SourceFile.load
      rw [hreadB]
      rfl
    have horder : [g.process fs a, g.process fs b].Pairwise
        fun o o' => o.notAfter o' = true := by
      rw [List.pairwise_pair, FileOutcome.notAfter, (Generator.input_process g fs a).1,
        (Generator.input_process g fs a).2, (Generator.input_process g fs b).1,
        (Generator.input_process g fs b).2]
      decide
    rw [Generator.run_eq hg, List.map_cons, List.map_cons, List.map_nil,
      List.mergeSort_of_pairwise horder]
    simp [Outcome.mutants, hA, hB]
  have hpath : Output.pathOf ⟨"out"⟩ config.extension m = mutant := by decide
  have hout (follow : Bool) : fs.find follow ⟨"out"⟩ ["out"] = .ok (.occupied ["out"] .directory) :=
    FileSystem.find_of_name (.inl rfl) (by decide) ⟨by simp, by decide⟩
      (by decide) rfl follow
  have hpieces : FileSystem.steps ⟨"out"⟩ = ["out"] ∧ Path.pieces ⟨"out"⟩ = ["out"] := by
    decide
  have hisdir : fs.contains ⟨"out"⟩ = true ∧ fs.isDirectory ⟨"out"⟩ = true := by
    simp [FileSystem.contains, FileSystem.isDirectory, FileSystem.directory?, hpieces, hout]
  have hroom : Output.makeRoom fs mutant = .ok fs := by
    have hparent : mutant.parent? = some ⟨"out"⟩ := by decide
    have hmake : fs.makeDirectories ⟨"out"⟩ = .ok fs := by
      simp [FileSystem.makeDirectories, FileSystem.makeDirectoriesUpTo, FileSystem.makeDirectory,
        FileSystem.place, hpieces, hout, hisdir]
    rw [Output.makeRoom, hparent]
    dsimp only
    rw [hmake]
  have hfree : fs.find true mutant ["out", "A_method0_empty_body_0.java"]
      = .ok (.free ["out", "A_method0_empty_body_0.java"]) := by
    have hsize : Text.size "out" = 3 ∧ Text.size "A_method0_empty_body_0.java" = 27
        ∧ Text.size "out/A_method0_empty_body_0.java" = 31
        ∧ mutant.isAbsolute = false := by decide
    have hget : fs.get? ["out"] = some .directory
        ∧ fs.get? ["out", "A_method0_empty_body_0.java"] = none ∧ fs.here = [] := by
      decide
    simp [mutant, FileSystem.find, FileSystem.walk, FileSystem.origin, FileSystem.longestName,
      FileSystem.longestPath, hget, hsize]
  have hwrite : fs.write mutant (Text.encode m.text) = .ok
      (fs.set ["out", "A_method0_empty_body_0.java"] (.file (Text.encode m.text))) := by
    have hpieces : mutant.pieces.filter (· != "") = ["out", "A_method0_empty_body_0.java"] := by
      decide
    have hopen : mutant.isOpen = false := by decide
    unfold FileSystem.write
    rw [hpieces, hfree, hopen]
    rfl
  have hall : Output.write fs ⟨"out"⟩ config.extension (g.run fs [a, b]).mutants
      = (fs.set ["out", "A_method0_empty_body_0.java"] (.file (Text.encode m.text)),
        .ok [mutant]) := by
    rw [hmutants]
    simp [Output.write, hisdir, Output.repeated?, hpath, Output.writeAll, Output.writeOne, hroom,
      hwrite]
  obtain ⟨hfiles, hfailed, -, -, hgone⟩ := hwritten _ _ hall
  have hremovable : Removable fs [a, b] (· == ["src", "B.java"]) := by
    intro l hl
    obtain rfl := beq_iff_eq.1 hl
    refine ⟨⟨b, by simp, ⟨[0xff], rfl⟩, ["src"], ["B.java"], hdir, rfl, by decide⟩, ?_⟩
    intro input hinput hl
    rcases List.mem_cons.1 hinput with rfl | hinput
    · have hla : a.LiesAt fs ["src", "A.java"] :=
        ⟨⟨good, rfl⟩, ["src"], ["A.java"], hdir, rfl, by decide⟩
      exact absurd (hla.eq hfs hl) (by decide)
    · obtain rfl := List.mem_singleton.1 hinput
      exact .inr ⟨_, hreadB, .inl ⟨_, rfl⟩⟩
  obtain ⟨inputs', after', -, -, hfiles', hread, -⟩ := hgone _ hremovable (hconfig _ rfl rfl)
  obtain ⟨content, hcontent, hcontent'⟩ := hread mutant List.mem_cons_self
  refine ⟨hfs, hfailed ⟨b, by simp, ?_⟩, content, ?_, ?_⟩
  · exact .inr ⟨_, hreadB, .inl ⟨_, rfl⟩⟩
  · show FileSystem.read (generate _ _ _ _ _ _).files _ = _
    rw [hfiles]
    exact hcontent
  · show FileSystem.read (generate _ _ _ _ _ _).files _ = _
    rw [hfiles']
    exact hcontent'

end Program

end JavaMutants
