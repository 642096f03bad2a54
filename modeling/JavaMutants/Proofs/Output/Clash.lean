import JavaMutants.Proofs.Mutant.Stability
import JavaMutants.Proofs.Output.Write
import JavaMutants.Proofs.Run.Determinism
import JavaMutants.Proofs.SourceRoot

/-!
# Mutants that go to one place

The path of a mutant tells the directories of its file and its name, and the
name can be read from its end: an index, the two words of the tag of a built-in
operator and the label and number of a target hold no underscore among them, so
what is before them is the simple name, whatever it looks like
(`Mutant.simple_eq_of_nameOf`). With the extension it is the name of the file
again. So two mutants of a run go to one place only if their files have one
logical path, which never happens under a single root (`Generator.paths_apart`).
-/

namespace JavaMutants

/-! ## Names read from the end -/

/-- A tag of two words with an underscore between them. -/
def IsTwoWords (tag : String) : Prop :=
  ∃ a b, tag = a ++ "_" ++ b ∧ '_' ∉ a.toList ∧ '_' ∉ b.toList

theorem Registry.isTwoWords_of_mem_builtin {o : Operator} (h : o ∈ builtin.operators) :
    IsTwoWords o.tag := by
  simp only [builtin, List.mem_cons, List.not_mem_nil, or_false] at h
  rcases h with rfl | rfl | rfl | rfl | rfl | rfl
  · exact ⟨"empty", "body", by decide⟩
  · exact ⟨"default", "return", by decide⟩
  · exact ⟨"negate", "return", by decide⟩
  · exact ⟨"relational", "boundary", by decide⟩
  · exact ⟨"negate", "condition", by decide⟩
  · exact ⟨"flip", "equality", by decide⟩

/-- **The name of a mutant tells the simple name**, if the tags of the operators have
two words. -/
theorem Mutant.simple_eq_of_nameOf {simple simple' op op' : String} {k k' : TargetKind}
    {n n' i i' : Nat} (hop : IsTwoWords op) (hop' : IsTwoWords op')
    (h : nameOf simple k n (op ++ "_" ++ toString i)
      = nameOf simple' k' n' (op' ++ "_" ++ toString i')) : simple = simple' := by
  obtain ⟨a, b, rfl, ha, hb⟩ := hop
  obtain ⟨a', b', rfl, ha', hb'⟩ := hop'
  have hassoc : ∀ (s : String) (k : TargetKind) (n : Nat) (a b : String) (i : Nat),
      nameOf s k n (a ++ "_" ++ b ++ "_" ++ toString i)
        = s ++ "_" ++ (k.label ++ toString n) ++ "_" ++ a ++ "_" ++ b ++ "_" ++ toString i := by
    intro s k n a b i
    simp only [nameOf, String.append_assoc]
  have hplace : ∀ (k : TargetKind) (n : Nat), '_' ∉ (k.label ++ toString n).toList := by
    intro k n hmem
    rw [String.toList_append, List.mem_append] at hmem
    exact hmem.elim (by cases k <;> decide) (underscore_notMem_toString n)
  rw [hassoc, hassoc] at h
  -- the index, the second word, the first word and the target, one after the other
  obtain ⟨h, -⟩ := sep_append_inj (underscore_notMem_toString i) (underscore_notMem_toString i') h
  obtain ⟨h, -⟩ := sep_append_inj hb hb' h
  obtain ⟨h, -⟩ := sep_append_inj ha ha' h
  exact (sep_append_inj (hplace k n) (hplace k' n') h).1

/-- The name of a mutant is a name for a file. -/
theorem Mutant.slash_notMem_nameOf {simple : String} (hsimple : '/' ∉ simple.toList)
    {o : Operator} (ho : o ∈ Registry.builtin.operators) (k : TargetKind) (n i : Nat) :
    '/' ∉ (nameOf simple k n (o.tag ++ "_" ++ toString i)).toList := by
  have htag : ∀ o ∈ Registry.builtin.operators, '/' ∉ o.tag.toList := by decide
  have hlabel : '/' ∉ k.label.toList := by cases k <;> decide
  have hnumber : ∀ n : Nat, '/' ∉ Nat.toDigits 10 n := by
    intro n hmem
    exact absurd (Nat.isDigit_of_mem_toDigits (by decide) (by decide) hmem) (by decide)
  simp [nameOf, String.toList_append, hsimple, htag o ho, hlabel, hnumber]

/-! ## The mutants of one file -/

namespace Generator

variable {config : Config} {g : Generator} {fs : FileSystem} {input : SourceInput}

/-- **What a mutant of a file is called**: by the simple name of the file, a target, and
a built-in operator and one of its versions. -/
theorem exists_name_of_mem_process (hg : ofConfig config = .ok g) {m : Mutant}
    (hm : m ∈ (g.process fs input).mutants) :
    ∃ k n, ∃ o ∈ Registry.builtin.operators, ∃ i : Nat,
      m.name
        = Mutant.nameOf (input.logicalPath.stem?.getD "") k n (o.tag ++ "_" ++ toString i) := by
  rcases mutants_process g fs input with hnil | ⟨file, noOps, hload, hms⟩
  · rw [hnil] at hm
    exact absurd hm List.not_mem_nil
  · obtain ⟨text, hfile⟩ := SourceFile.exists_parse_of_load hload
    obtain ⟨groups, hgroups, hflat, -⟩ := FileMutants.exists_ofTargetsFrom_ok_iff.1 ⟨noOps, hms⟩
    rw [hflat] at hm
    obtain ⟨group, hgroup, hm⟩ := List.mem_flatten.1 hm
    obtain ⟨t, -, hyields⟩ := exists_mem_left hgroups hgroup
    obtain ⟨span, vs, v, o, ho, -, hvs, hv, hmv⟩ := hyields.exists_variant hm
    refine ⟨t.kind, t.ordinal, o,
      (Registry.sublist_of_select (select_of_ofConfig hg)).subset ho, v.index, ?_⟩
    rw [(Mutant.name_of_assemble? hmv).1, SourceFile.simpleName, SourceFile.path_of_parse hfile,
      Variant.tag, (Operator.nodup_keys_variants hvs).2 v hv]

/-- The mutants of one file have different names. -/
theorem nodup_names_process (g : Generator) (fs : FileSystem)
    (input : SourceInput) : (names (g.process fs input).mutants).Nodup := by
  rcases mutants_process g fs input with hnil | ⟨file, noOps, -, hms⟩
  · rw [hnil]
    exact List.nodup_nil
  · obtain ⟨groups, -, -, hfree⟩ := FileMutants.exists_ofTargetsFrom_ok_iff.1 ⟨noOps, hms⟩
    exact hfree.1

/-- **With an extension, the name of a mutant is a name for a file.** -/
theorem isName_of_mem_process (hg : ofConfig config = .ok g) {stem extension : String}
    (hname : IsName (stem ++ "." ++ extension)) (hstem : input.logicalPath.stem? = some stem)
    {m : Mutant} (hm : m ∈ (g.process fs input).mutants) : IsName (m.name ++ "." ++ extension) := by
  have hslash : '/' ∉ stem.toList ∧ '/' ∉ extension.toList := by
    have hfile := hname.2.2.2
    simp only [String.toList_append, List.mem_append, not_or] at hfile
    exact ⟨hfile.1.1, hfile.2⟩
  obtain ⟨k, n, o, ho, i, hname⟩ := exists_name_of_mem_process hg hm
  rw [hstem, Option.getD_some] at hname
  have hslash' : '/' ∉ m.name.toList :=
    hname ▸ Mutant.slash_notMem_nameOf hslash.1 ho k n i
  -- there is an underscore in it
  have hunderscore : '_' ∈ (m.name ++ "." ++ extension).toList := by
    simp [hname, Mutant.nameOf, String.toList_append]
  have hne : ∀ s : String, '_' ∉ s.toList → m.name ++ "." ++ extension ≠ s :=
    fun s hs heq => hs (heq ▸ hunderscore)
  refine ⟨hne "" (by decide), hne "." (by decide), hne ".." (by decide), ?_⟩
  simp [String.toList_append, hslash', hslash.2]

/-- **Where a mutant of a file found under a root goes**: below the output directory,
after the directories of the file, to a file with its name. -/
theorem pathOf_eq_join (hg : ofConfig config = .ok g) {dirs : List String}
    {stem extension : String} (hnames : ∀ n ∈ dirs ++ [stem ++ "." ++ extension], IsName n)
    (hlogical : input.logicalPath = .ofNames (dirs ++ [stem ++ "." ++ extension]))
    (hstem : input.logicalPath.stem? = some stem) {m : Mutant}
    (hm : m ∈ (g.process fs input).mutants) (outDir : Path) :
    (∀ n ∈ dirs ++ [m.name ++ "." ++ extension], IsName n)
      ∧ Output.pathOf outDir extension m
        = outDir.join (.ofNames (dirs ++ [m.name ++ "." ++ extension])) := by
  have hname := isName_of_mem_process hg
    (hnames _ (List.mem_append_right dirs (List.mem_singleton_self _))) hstem hm
  rw [Output.pathOf, (settled_process hg fs input).2 m hm, hlogical]
  exact ⟨List.forall_mem_append.2
    ⟨fun n hn => hnames n (List.mem_append_left _ hn), List.forall_mem_singleton.2 hname⟩,
    outputPath_ofNames outDir hnames hname⟩

/-- **Mutants that go to one place** are of files with one logical path, and have one
name. -/
theorem logicalPath_eq_of_same (hg : ofConfig config = .ok g) (hfs : fs.IsTree)
    {extension : String} {roots : List Path} {inputs : List SourceInput}
    (hinputs : SourceInput.ofRoots fs extension roots = .ok inputs) {input' : SourceInput}
    (hinput : input ∈ inputs) (hinput' : input' ∈ inputs) {m m' : Mutant}
    (hm : m ∈ (g.process fs input).mutants) (hm' : m' ∈ (g.process fs input').mutants)
    {outDir : Path}
    (h : (Output.pathOf outDir extension m).same (Output.pathOf outDir extension m') = true) :
    input.logicalPath = input'.logicalPath ∧ m.name = m'.name := by
  obtain ⟨dirs, stem, hnames, hlogical, hstem⟩ :=
    SourceInput.exists_names_of_mem_ofRoots hfs hinputs hinput
  obtain ⟨dirs', stem', hnames', hlogical', hstem'⟩ :=
    SourceInput.exists_names_of_mem_ofRoots hfs hinputs hinput'
  have heq := beq_iff_eq.1 h
  obtain ⟨hgoes, hpath⟩ := pathOf_eq_join hg hnames hlogical hstem hm outDir
  obtain ⟨hgoes', hpath'⟩ := pathOf_eq_join hg hnames' hlogical' hstem' hm' outDir
  rw [hpath, hpath', Path.components_join_ofNames outDir hgoes,
    Path.components_join_ofNames outDir hgoes'] at heq
  have hall := List.map_injective_iff.2 (fun _ _ => Component.normal.inj)
    (List.append_cancel_left heq)
  obtain ⟨hdirs, hfile⟩ := List.append_inj' hall rfl
  have hname : m.name = m'.name := by
    have hlist := String.toList_inj.2 (List.cons.inj hfile).1
    simp only [String.toList_append, List.append_cancel_right_eq] at hlist
    exact String.toList_inj.1 hlist
  obtain ⟨k, n, o, ho, i, hname₁⟩ := exists_name_of_mem_process hg hm
  obtain ⟨k', n', o', ho', i', hname₂⟩ := exists_name_of_mem_process hg hm'
  have hsimple : stem = stem' := by
    rw [hname₁, hname₂, hstem, hstem'] at hname
    exact Mutant.simple_eq_of_nameOf (Registry.isTwoWords_of_mem_builtin ho)
      (Registry.isTwoWords_of_mem_builtin ho') hname
  exact ⟨by rw [hlogical, hlogical', hdirs, hsimple], hname⟩

/-! ## The mutants of a run -/

variable {roots : List Path} {extension : String} {inputs : List SourceInput}
  {schedule : List Nat}

/-- The outcomes of a run are what processing its inputs gives. -/
theorem exists_process_of_mem_files (hg : ofConfig config = .ok g)
    (hschedule : ∀ i < inputs.length, 3 ≤ schedule.count i) {o : FileOutcome}
    (ho : o ∈ (g.runUnder fs inputs schedule).files) :
    ∃ input ∈ inputs, g.process fs input = o := by
  rw [runUnder_eq hg fs hschedule, List.mem_mergeSort] at ho
  exact List.mem_map.1 ho

/-- **Under one root, the paths of the mutants of a run are apart.** -/
theorem unrepeated_of_ofRoots (hg : ofConfig config = .ok g) (hfs : fs.IsTree) {root : Path}
    (hinputs : SourceInput.ofRoots fs extension [root] = .ok inputs)
    (hschedule : ∀ i < inputs.length, 3 ≤ schedule.count i) (outDir : Path) :
    Output.Unrepeated
      ((g.runUnder fs inputs schedule).mutants.map (Output.pathOf outDir extension)) := by
  have hroot : SourceInput.ofRoot fs extension root = .ok inputs := by
    rw [SourceInput.ofRoots] at hinputs
    cases hfirst : SourceInput.ofRoot fs extension root with
    | error e =>
      rw [hfirst] at hinputs
      cases hinputs
    | ok first =>
      rw [hfirst] at hinputs
      obtain rfl := Except.ok.inj hinputs
      rw [List.append_nil]
  have happart : (g.runUnder fs inputs schedule).files.Pairwise
      fun o o' => o.input.logicalPath ≠ o'.input.logicalPath := by
    rw [runUnder_eq hg fs hschedule]
    refine ((List.mergeSort_perm _ _).pairwise_iff fun hne => hne.symm).2 ?_
    refine List.pairwise_map.2 ((SourceInput.pairwise_logicalPath_ofRoot hfs hroot).imp ?_)
    intro a b hab
    rwa [(input_process g fs a).1, (input_process g fs b).1]
  refine List.pairwise_map.2 (List.pairwise_flatMap.2 ⟨fun o ho => ?_, happart.imp_of_mem ?_⟩)
  · obtain ⟨input, hinput, rfl⟩ := exists_process_of_mem_files hg hschedule ho
    refine (List.pairwise_map.1 (nodup_names_process g fs input)).imp_of_mem ?_
    intro m m' hm hm' hne
    refine Bool.eq_false_iff.2 fun hsame => hne ?_
    exact (logicalPath_eq_of_same hg hfs hinputs hinput hinput hm' hm hsame).2.symm
  · intro o o' ho ho' hne m hm m' hm'
    obtain ⟨input, hinput, rfl⟩ := exists_process_of_mem_files hg hschedule ho
    obtain ⟨input', hinput', rfl⟩ := exists_process_of_mem_files hg hschedule ho'
    refine Bool.eq_false_iff.2 fun hsame => hne ?_
    rw [(input_process g fs input).1, (input_process g fs input').1]
    exact (logicalPath_eq_of_same hg hfs hinputs hinput' hinput hm' hm hsame).1.symm

/-- **Paths clash only across source roots.** For every generator of a configuration,
every file tree, all roots that can be scanned, every extension, every output directory
and every schedule in which each task has its three turns: two mutants of the run go to
one place only if their files have the same logical path, and then they have the same
name. So under a single root the mutants are never refused because one of them would be
written twice, whatever the files are called. -/
theorem paths_apart (hg : ofConfig config = .ok g) (hfs : fs.IsTree)
    (hinputs : SourceInput.ofRoots fs extension roots = .ok inputs)
    (hschedule : ∀ i < inputs.length, 3 ≤ schedule.count i) (outDir : Path) :
    (∀ o ∈ (g.runUnder fs inputs schedule).files, ∀ m ∈ o.mutants,
      ∀ o' ∈ (g.runUnder fs inputs schedule).files, ∀ m' ∈ o'.mutants,
        (Output.pathOf outDir extension m).same (Output.pathOf outDir extension m') = true →
          o.input.logicalPath = o'.input.logicalPath ∧ m.name = m'.name)
    ∧ ∀ root, roots = [root] → ∀ fs' path,
      (Output.write fs' outDir extension (g.runUnder fs inputs schedule).mutants).2
        ≠ .error (.write path
          "would be written twice; the same logical file exists under several source roots") := by
  constructor
  · intro o ho m hm o' ho' m' hm' hsame
    obtain ⟨input, hinput, rfl⟩ := exists_process_of_mem_files hg hschedule ho
    obtain ⟨input', hinput', rfl⟩ := exists_process_of_mem_files hg hschedule ho'
    rw [(input_process g fs input).1, (input_process g fs input').1]
    exact logicalPath_eq_of_same hg hfs hinputs hinput hinput' hm hm' hsame
  · rintro root rfl fs' path
    exact Output.ne_twice_of_unrepeated (unrepeated_of_ofRoots hg hfs hinputs hschedule outDir) path

/-- A file that is called like a mutant of the file beside it. -/
theorem paths_apart_generated_name :
    let fs : FileSystem := { entries := [(["src"], .directory),
      (["src", "A.java"], .file
        "@Mutate class A \x7b @Mutate boolean f() \x7b return a == b; \x7d \x7d".toUTF8.toList),
      (["src", "A_method0_flip_equality_0.java"],
        .file "@Mutate class B \x7b \x7d".toUTF8.toList)] }
    ∃ g inputs, ofConfig {} = .ok g ∧ SourceInput.ofRoots fs "java" [⟨"src"⟩] = .ok inputs
      ∧ inputs.Perm
        [⟨⟨"src"⟩, ⟨"src/A.java"⟩⟩, ⟨⟨"src"⟩, ⟨"src/A_method0_flip_equality_0.java"⟩⟩]
      ∧ ∀ fs' path, (Output.write fs' ⟨"out"⟩ "java"
          (g.runUnder fs inputs [0, 0, 0, 1, 1, 1]).mutants).2
        ≠ .error (.write path
          "would be written twice; the same logical file exists under several source roots") := by
  intro fs
  have hfs : fs.IsTree := ⟨by decide, by decide, by decide⟩
  have hdir : fs.directory? ⟨"src"⟩ = some ["src"] :=
    FileSystem.directory?_of_find <| by
      rw [show FileSystem.steps ⟨"src"⟩ = ["src"] by decide]
      exact FileSystem.find_of_name (.inl rfl) (by decide) ⟨by simp, by decide⟩
        (by decide) rfl true
  have hbelow : SourceInput.below fs ⟨"src"⟩ "java" ["src"]
      = [⟨⟨"src"⟩, ⟨"src/A.java"⟩⟩, ⟨⟨"src"⟩, ⟨"src/A_method0_flip_equality_0.java"⟩⟩] := by
    decide
  have hinputs : SourceInput.ofRoots fs "java" [⟨"src"⟩]
      = .ok ((SourceInput.below fs ⟨"src"⟩ "java" ["src"]).mergeSort SourceInput.notAfter) := by
    rw [SourceInput.ofRoots, SourceInput.ofRoot, hdir]
    exact congrArg Except.ok (List.append_nil _)
  have hschedule : ∀ i < ((SourceInput.below fs ⟨"src"⟩ "java" ["src"]).mergeSort
      SourceInput.notAfter).length, 3 ≤ [0, 0, 0, 1, 1, 1].count i := by
    rw [List.length_mergeSort, hbelow]
    decide
  have hg : ofConfig {} = .ok ⟨{}, .builtin, false⟩ := rfl
  exact ⟨_, _, hg, hinputs, hbelow ▸ List.mergeSort_perm _ _,
    (paths_apart hg hfs hinputs hschedule ⟨"out"⟩).2 ⟨"src"⟩ rfl⟩

end Generator

end JavaMutants
