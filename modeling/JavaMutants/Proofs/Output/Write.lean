import JavaMutants.Proofs.FileSystem.Changes
import JavaMutants.Proofs.Output.Place
import Mathlib.Data.List.Basic
import Mathlib.Data.List.Nodup

/-!
# Writing mutants, all of them or none

What is wrong with the places of the mutants is found before anything is
written: `Output.repeated?` gives the first path that is the same as one before
it (`Output.exists_of_repeated?_eq_some`). What is written after that changes the
files at the paths of the mutants and no others (`Output.changes_of_writeAll`),
and since they lie at different locations each keeps its text
(`Output.read_of_writeAll`).
-/

namespace JavaMutants.Output

open FileSystem (Changes)

/-! ## Paths that come twice -/

/-- Paths none of which is the same as one before it. -/
def Unrepeated (paths : List Path) : Prop := paths.Pairwise fun p q => q.same p = false

instance : DecidablePred Unrepeated := fun paths =>
  inferInstanceAs (Decidable (paths.Pairwise fun p q => q.same p = false))

variable {seen paths : List Path} {p : Path}

/-- Nothing is found if the paths are apart from those seen and from each other. -/
theorem repeated?_eq_none_iff :
    repeated? seen paths = none ↔
      Unrepeated paths ∧ ∀ p ∈ paths, ∀ q ∈ seen, p.same q = false := by
  induction paths generalizing seen with
  | nil => simp [repeated?, Unrepeated]
  | cons p paths ih =>
    rw [repeated?]
    split
    next hany =>
      obtain ⟨q, hq, hsame⟩ := List.any_eq_true.1 hany
      refine ⟨nofun, fun h => ?_⟩
      rw [h.2 p List.mem_cons_self q hq] at hsame
      cases hsame
    next hany =>
      rw [ih, Unrepeated, Unrepeated, List.pairwise_cons]
      have hp : ∀ q ∈ seen, p.same q = false := by simpa using hany
      constructor
      · rintro ⟨hrest, hseen⟩
        refine ⟨⟨fun q hq => hseen q hq p List.mem_cons_self, hrest⟩, ?_⟩
        intro q hq r hr
        rcases List.mem_cons.1 hq with rfl | hq
        · exact hp r hr
        · exact hseen q hq r (List.mem_cons_of_mem p hr)
      · rintro ⟨⟨hfirst, hrest⟩, hseen⟩
        refine ⟨hrest, fun q hq r hr => ?_⟩
        rcases List.mem_cons.1 hr with rfl | hr
        · exact hfirst q hq
        · exact hseen q (List.mem_cons_of_mem p hq) r hr

/-- **What is found is the first path that comes again.** -/
theorem exists_of_repeated?_eq_some (h : repeated? seen paths = some p) :
    ∃ before after, paths = before ++ p :: after ∧ repeated? seen before = none
      ∧ ∃ q, (q ∈ seen ∨ q ∈ before) ∧ p.same q = true := by
  induction paths generalizing seen with
  | nil => cases h
  | cons first paths ih =>
    rw [repeated?] at h
    split at h
    next hany =>
      cases h
      obtain ⟨q, hq, hsame⟩ := List.any_eq_true.1 hany
      exact ⟨[], paths, rfl, rfl, q, .inl hq, hsame⟩
    next hany =>
      obtain ⟨before, after, rfl, hbefore, q, hq, hsame⟩ := ih h
      refine ⟨first :: before, after, rfl, ?_, q, ?_, hsame⟩
      · rw [repeated?, if_neg hany, hbefore]
      · rcases hq with hq | hq
        · rcases List.mem_cons.1 hq with rfl | hq
          · exact .inr List.mem_cons_self
          · exact .inl hq
        · exact .inr (List.mem_cons_of_mem first hq)

/-! ## Writing one text after the other -/

variable {fs fs' : FileSystem} {path : Path} {text : String} {files : List (Path × String)}

/-- Room for a file is made before it is written, and that changes no file. -/
theorem exists_of_writeOne (h : writeOne fs path text = .ok fs') :
    ∃ made, Changes [] fs made ∧ made.write path (Text.encode text) = .ok fs' := by
  unfold writeOne makeRoom at h
  cases hparent : path.parent? with
  | none =>
    rw [hparent] at h
    dsimp only at h
    split at h
    next hwrite =>
      cases h
      exact ⟨fs, .refl fs, hwrite⟩
    next => cases h
  | some dir =>
    rw [hparent] at h
    dsimp only at h
    cases hmade : fs.makeDirectories dir with
    | error fault =>
      rw [hmade] at h
      cases h
    | ok made =>
      rw [hmade] at h
      dsimp only at h
      split at h
      next hwrite =>
        cases h
        exact ⟨made, FileSystem.changes_of_makeDirectoriesUpTo hmade, hwrite⟩
      next => cases h

/-- What writing one file does: that file can be read, and nothing else has
changed. -/
theorem changes_of_writeOne (hplain : fs.IsPlain) (h : writeOne fs path text = .ok fs') :
    Changes [path.location fs.here] fs fs' ∧ fs'.read path = .ok (Text.encode text) := by
  obtain ⟨made, hmade, hwrite⟩ := exists_of_writeOne h
  obtain ⟨hchanges, hread⟩ := FileSystem.changes_of_write (hmade.isPlain hplain) hwrite
  rw [hmade.here] at hchanges
  exact ⟨hmade.trans hchanges, hread⟩

theorem exists_of_writeAll_cons (h : writeAll fs ((path, text) :: files) = (fs', none)) :
    ∃ next, writeOne fs path text = .ok next ∧ writeAll next files = (fs', none) := by
  rw [writeAll] at h
  split at h
  next next hone => exact ⟨next, hone, h⟩
  next => cases h

/-- **Writing files changes only these files.** -/
theorem changes_of_writeAll (hplain : fs.IsPlain) (h : writeAll fs files = (fs', none)) :
    Changes (files.map fun x => x.1.location fs.here) fs fs' := by
  induction files generalizing fs with
  | nil =>
    cases h
    exact .refl _
  | cons x files ih =>
    obtain ⟨next, hone, hrest⟩ := exists_of_writeAll_cons h
    obtain ⟨hchanges, -⟩ := changes_of_writeOne hplain hone
    have hnext := ih (hchanges.isPlain hplain) hrest
    rw [hchanges.here] at hnext
    exact hchanges.trans hnext

/-- **Files at different locations keep what is written to them.** -/
theorem read_of_writeAll (hplain : fs.IsPlain) (h : writeAll fs files = (fs', none))
    (hapart : files.Pairwise fun x y => x.1.location fs.here ≠ y.1.location fs.here) :
    ∀ x ∈ files, fs'.read x.1 = .ok (Text.encode x.2) := by
  induction files generalizing fs with
  | nil => simp
  | cons x files ih =>
    obtain ⟨next, hone, hrest⟩ := exists_of_writeAll_cons h
    obtain ⟨hchanges, hread⟩ := changes_of_writeOne hplain hone
    have hplain' := hchanges.isPlain hplain
    obtain ⟨hfirst, hothers⟩ := List.pairwise_cons.1 hapart
    refine List.forall_mem_cons.2 ⟨?_, ih hplain' hrest (by rwa [hchanges.here])⟩
    refine (changes_of_writeAll hplain' hrest).read hplain' hread fun hmem => ?_
    rw [hchanges.here] at hmem
    obtain ⟨y, hy, heq⟩ := List.mem_map.1 hmem
    exact hfirst y hy heq.symm

/-- Where writing stops, the file system has said why. -/
theorem exists_fault_of_writeOne {e : Error} (h : writeOne fs path text = .error e) :
    ∃ p, ∃ fault : FileSystem.Fault, e = .write p fault.text := by
  unfold writeOne at h
  split at h
  next hroom =>
    cases h
    unfold makeRoom at hroom
    split at hroom
    next dir _ =>
      split at hroom
      · cases hroom
      next fault _ =>
        cases hroom
        exact ⟨dir, fault, rfl⟩
    next => cases hroom
  next =>
    split at h
    · cases h
    next fault _ =>
      cases h
      exact ⟨path, fault, rfl⟩

theorem exists_fault_of_writeAll {e : Error} (h : writeAll fs files = (fs', some e)) :
    ∃ p, ∃ fault : FileSystem.Fault, e = .write p fault.text := by
  induction files generalizing fs with
  | nil => cases h
  | cons x files ih =>
    rw [writeAll] at h
    split at h
    next => exact ih h
    next hone =>
      cases h
      exact exists_fault_of_writeOne hone

/-- The path of a file that is written does not end with dots. -/
theorem ne_dots_of_writeAll (hplain : fs.IsPlain) (h : writeAll fs files = (fs', none)) :
    ∀ x ∈ files, ∀ ps n, x.1.pieces = ps ++ [n] → n ≠ "." ∧ n ≠ ".." := by
  induction files generalizing fs with
  | nil => simp
  | cons x files ih =>
    obtain ⟨next, hone, hrest⟩ := exists_of_writeAll_cons h
    obtain ⟨hchanges, -⟩ := changes_of_writeOne hplain hone
    refine List.forall_mem_cons.2 ⟨fun ps n hpieces => ?_, ih (hchanges.isPlain hplain) hrest⟩
    obtain ⟨made, hmade, hwrite⟩ := exists_of_writeOne hone
    exact FileSystem.ne_dots_of_write (hmade.isPlain hplain) hwrite hpieces

/-! ## Writing mutants -/

variable {outDir : Path} {extension : String} {mutants : List Mutant}

theorem exists_of_write_eq_ok (h : write fs outDir extension mutants = (fs', .ok paths)) :
    paths = mutants.map (pathOf outDir extension)
      ∧ Unrepeated (mutants.map (pathOf outDir extension))
      ∧ writeAll fs (mutants.map fun m => (pathOf outDir extension m, m.text)) = (fs', none) := by
  unfold write at h
  split at h
  · cases h
  dsimp only at h
  split at h
  · cases h
  next hnone =>
    rw [List.zip_map'] at h
    split at h
    next hall =>
      cases h
      exact ⟨rfl, (repeated?_eq_none_iff.1 hnone).1, hall⟩
    next => cases h

/-- The file names of mutants that have been written are names. -/
theorem isName_of_writeAll (hplain : fs.IsPlain) (hextension : '/' ∉ extension.toList)
    (hnames : ∀ m ∈ mutants, '/' ∉ m.name.toList)
    (h : writeAll fs (mutants.map fun m => (pathOf outDir extension m, m.text)) = (fs', none)) :
    ∀ m ∈ mutants, IsName (m.name ++ "." ++ extension) := by
  intro m hm
  have hslash : '/' ∉ (m.name ++ "." ++ extension).toList := by
    simp [String.toList_append, hnames m hm, hextension]
  obtain ⟨ps, hpieces⟩ := exists_pieces_outputPath outDir m.origin hslash
  obtain ⟨hdot, hup⟩ := ne_dots_of_writeAll hplain h _ (List.mem_map_of_mem hm) ps _ hpieces
  refine ⟨fun hempty => ?_, hdot, hup, hslash⟩
  simp at hempty

/-- **Mutants are written to different locations.** -/
theorem pairwise_location_of_write (here : Location)
    (horigins : ∀ m ∈ mutants, ∃ ns : List String, m.origin.components = ns.map Component.normal)
    (hnames : ∀ m ∈ mutants, IsName (m.name ++ "." ++ extension))
    (hpaths : Unrepeated (mutants.map (pathOf outDir extension))) :
    mutants.Pairwise fun m m' =>
      (pathOf outDir extension m).location here ≠ (pathOf outDir extension m').location here := by
  refine (List.pairwise_map.1 hpaths).imp_of_mem fun {m m'} hm hm' hsame heq => ?_
  obtain ⟨ns, hns⟩ := horigins m hm
  obtain ⟨ns', hns'⟩ := horigins m' hm'
  have hsame' := same_of_location_eq hns' hns (hnames m' hm') (hnames m hm) heq.symm
  rw [hsame] at hsame'
  cases hsame'

/-- **Mutants whose paths are apart are not taken for twice the same.** -/
theorem ne_twice_of_unrepeated (h : Unrepeated (mutants.map (pathOf outDir extension)))
    (path : Path) :
    (write fs outDir extension mutants).2 ≠ .error (.write path
      "would be written twice; the same logical file exists under several source roots") := by
  intro htwice
  unfold write at htwice
  split at htwice
  · exact absurd (Error.write.inj (Except.error.inj htwice)).2 (by decide)
  have hnone : repeated? [] (mutants.map (pathOf outDir extension)) = none :=
    repeated?_eq_none_iff.2 ⟨h, fun _ _ _ hq => absurd hq List.not_mem_nil⟩
  dsimp only at htwice
  rw [hnone] at htwice
  dsimp only at htwice
  split at htwice
  · cases htwice
  next hall =>
    cases htwice
    obtain ⟨p, fault, heq⟩ := exists_fault_of_writeAll hall
    have htext := (Error.write.inj heq).2
    revert htext
    cases fault <;> decide

/-- **Mutants are written all or not at all, and to files of their own.** If the
output directory is something else, or if a path comes again, then nothing has
changed, and the error names the output directory or the first path that comes
again. If the mutants are written, each path leads to the text of its mutant, and
the files to which none of them leads are as they were. -/
theorem write_all_or_nothing (hplain : fs.IsPlain) (outDir : Path)
    (hextension : '/' ∉ extension.toList)
    (hmutants : ∀ m ∈ mutants, '/' ∉ m.name.toList
      ∧ ∃ ns : List String, m.origin.components = ns.map Component.normal) :
    (fs.contains outDir = true → fs.isDirectory outDir = false →
      write fs outDir extension mutants
        = (fs, .error (.write outDir "output path exists and is not a directory"))) ∧
    ((fs.contains outDir = true → fs.isDirectory outDir = true) →
      ¬ Unrepeated (mutants.map (pathOf outDir extension)) →
      ∃ before path after, mutants.map (pathOf outDir extension) = before ++ path :: after
        ∧ Unrepeated before ∧ (∃ q ∈ before, path.same q = true)
        ∧ write fs outDir extension mutants = (fs, .error (.write path
          "would be written twice; the same logical file exists under several source roots"))) ∧
    ∀ fs' paths, write fs outDir extension mutants = (fs', .ok paths) →
      paths = mutants.map (pathOf outDir extension)
        ∧ (∀ m ∈ mutants, fs'.read (pathOf outDir extension m) = .ok (Text.encode m.text))
        ∧ ∀ l content, fs.get? l = some (.file content) →
          fs'.get? l = some (.file content) ∨ ∃ m ∈ mutants,
            fs'.find true (pathOf outDir extension m)
                (FileSystem.steps (pathOf outDir extension m))
              = .ok (.occupied l (.file (Text.encode m.text))) := by
  refine ⟨fun hcontains hdir => ?_, fun hdir hrepeated => ?_, fun fs' paths h => ?_⟩
  · rw [write, if_pos (by rw [hcontains, hdir]; rfl)]
  · have hgo : ¬ (fs.contains outDir && !fs.isDirectory outDir) = true := by
      intro hstop
      obtain ⟨hcontains, hnot⟩ := Bool.and_eq_true_iff.1 hstop
      rw [hdir hcontains] at hnot
      cases hnot
    cases hfound : repeated? [] (mutants.map (pathOf outDir extension)) with
    | none => exact absurd (repeated?_eq_none_iff.1 hfound).1 hrepeated
    | some path =>
      obtain ⟨before, after, hpaths, hbefore, q, hq, hsame⟩ := exists_of_repeated?_eq_some hfound
      refine ⟨before, path, after, hpaths, (repeated?_eq_none_iff.1 hbefore).1,
        ⟨q, hq.resolve_left List.not_mem_nil, hsame⟩, ?_⟩
      rw [write, if_neg hgo]
      dsimp only
      rw [hfound]
  · obtain ⟨rfl, hunrepeated, hall⟩ := exists_of_write_eq_ok h
    have hnames := isName_of_writeAll hplain hextension (fun m hm => (hmutants m hm).1) hall
    have hapart := pairwise_location_of_write fs.here (fun m hm => (hmutants m hm).2)
      hnames hunrepeated
    have hchanges := changes_of_writeAll hplain hall
    have hread : ∀ m ∈ mutants,
        fs'.read (pathOf outDir extension m) = .ok (Text.encode m.text) := fun m hm =>
      read_of_writeAll hplain hall (List.pairwise_map.2 hapart) _ (List.mem_map_of_mem hm)
    refine ⟨rfl, hread, fun l content hfile => ?_⟩
    by_cases hl : ∃ m ∈ mutants, (pathOf outDir extension m).location fs.here = l
    · obtain ⟨m, hm, rfl⟩ := hl
      have hfind := FileSystem.find_of_read (hchanges.isPlain hplain).linkFree (hread m hm)
      rw [hchanges.here] at hfind
      exact .inr ⟨m, hm, hfind⟩
    · refine .inl (hchanges.file l content (fun hmem => hl ?_) hfile)
      rw [List.map_map] at hmem
      exact List.mem_map.1 hmem

/-- One mutant is written beside what is there, and the same mutant twice is refused. -/
theorem write_all_or_nothing_one_file :
    let fs := FileSystem.empty.set ["old"] (.file [1])
    let m : Mutant :=
      { origin := ⟨"A.java"⟩, name := "A_method0", text := "x;", kind := .method, ordinal := 0,
        operator := "", start := 0, stop := 0, replacementSize := 2 }
    (∃ fs', write fs ⟨""⟩ "java" [m] = (fs', .ok [⟨"A_method0.java"⟩])
      ∧ fs'.read ⟨"A_method0.java"⟩ = .ok (Text.encode "x;"))
      ∧ ∃ before path after, [m, m].map (pathOf ⟨""⟩ "java") = before ++ path :: after
        ∧ Unrepeated before ∧ (∃ q ∈ before, path.same q = true)
        ∧ write fs ⟨""⟩ "java" [m, m] = (fs, .error (.write path
          "would be written twice; the same logical file exists under several source roots")) := by
  intro fs m
  have hplain : fs.IsPlain :=
    (FileSystem.changes_set (List.cons_ne_nil _ _) (by simp) (by decide) rfl).isPlain
      FileSystem.isPlain_empty
  have hm : '/' ∉ m.name.toList
      ∧ ∃ ns : List String, m.origin.components = ns.map Component.normal :=
    ⟨by decide, ["A.java"], by decide⟩
  have hmm : ∀ n ∈ [m, m], '/' ∉ n.name.toList
      ∧ ∃ ns : List String, n.origin.components = ns.map Component.normal := by simpa using hm
  have hextension : '/' ∉ "java".toList := by decide
  have hpath : pathOf ⟨""⟩ "java" m = ⟨"A_method0.java"⟩ := by decide
  have hfree : fs.find true ⟨"A_method0.java"⟩ ["A_method0.java"]
      = .ok (.free ["A_method0.java"]) := by
    have hsize : Text.size "A_method0.java" = 14
        ∧ Path.isAbsolute ⟨"A_method0.java"⟩ = false := by decide
    have hget : fs.get? ["A_method0.java"] = none ∧ fs.here = [] := by decide
    simp [FileSystem.find, FileSystem.walk, FileSystem.origin, FileSystem.longestName,
      FileSystem.longestPath, hget, hsize]
  have hwrite : fs.write ⟨"A_method0.java"⟩ (Text.encode "x;")
      = .ok (fs.set ["A_method0.java"] (.file (Text.encode "x;"))) := by
    have hpieces : (Path.pieces ⟨"A_method0.java"⟩).filter (· != "") = ["A_method0.java"] := by
      decide
    unfold FileSystem.write
    rw [hpieces, hfree]
    rfl
  have hroom : makeRoom fs ⟨"A_method0.java"⟩ = .ok fs := by
    have hparent : Path.parent? ⟨"A_method0.java"⟩ = some ⟨""⟩ := by decide
    rw [makeRoom, hparent]
    rfl
  have hcontains : fs.contains ⟨""⟩ = false := by simp [FileSystem.contains, FileSystem.find]
  have hok : write fs ⟨""⟩ "java" [m]
      = (fs.set ["A_method0.java"] (.file (Text.encode "x;")), .ok [⟨"A_method0.java"⟩]) := by
    simp [write, hcontains, repeated?, hpath, writeAll, writeOne, hroom, hwrite, m]
  constructor
  · obtain ⟨-, -, hwritten⟩ := write_all_or_nothing hplain ⟨""⟩ hextension (List.forall_mem_singleton.2 hm)
    obtain ⟨-, hread, -⟩ := hwritten _ _ hok
    exact ⟨_, hok, hpath ▸ hread m List.mem_cons_self⟩
  · obtain ⟨-, hrepeated, -⟩ := write_all_or_nothing hplain ⟨""⟩ hextension hmm
    exact hrepeated (by simp [hcontains]) (by decide)

end JavaMutants.Output
