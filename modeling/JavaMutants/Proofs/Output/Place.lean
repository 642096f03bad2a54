import JavaMutants.Output
import JavaMutants.Proofs.FileSystem.Tree

/-!
# The places of mutants

A mutant of a file whose path is made of names lies below the output directory,
after the directories of the file, under its own name with the extension
(`components_outputPath`). So two mutants whose paths lead to one location have
the same path (`Output.same_of_location_eq`): however the output directory is
spelled, it is the same for both.
-/

namespace JavaMutants

namespace Path

variable {here : Location} {p base : Path} {ns : List String}

/-- From a location, names lead to what they name there. -/
theorem location_of_components (h : p.components = base.components ++ ns.map Component.normal) :
    p.location here = base.location here ++ ns := by
  have hnames : ∀ (ms : List String) (l : Location),
      (ms.map Component.normal).foldl Component.goFrom l = l ++ ms := by
    intro ms
    induction ms with
    | nil => exact fun l => (List.append_nil l).symm
    | cons n ms ih => exact fun l => (ih (l ++ [n])).trans (List.append_assoc l [n] ms)
  rw [location, h, List.foldl_append, hnames, location]

theorem isAbsolute_of_components (h : p.components = ns.map Component.normal) :
    p.isAbsolute = false := by
  refine Bool.eq_false_iff.2 fun habsolute => ?_
  have hroot := root_mem_components habsolute
  rw [h] at hroot
  obtain ⟨n, -, hn⟩ := List.mem_map.1 hroot
  cases hn

end Path

section OutputPath

variable {outDir origin : Path} {name extension : String} {ns : List String}

/-- **The last piece of the path of a mutant** is its name with the extension. -/
theorem exists_pieces_outputPath (outDir origin : Path)
    (h : '/' ∉ (name ++ "." ++ extension).toList) :
    ∃ ps, (outputPath outDir origin name extension).pieces = ps ++ [name ++ "." ++ extension] := by
  have hpieces : Path.pieces ⟨name ++ "." ++ extension⟩ = [name ++ "." ++ extension] := by
    have hone := Path.pieces_intercalate (List.cons_ne_nil _ []) (List.forall_mem_singleton.2 h)
    rwa [String.intercalate_singleton] at hone
  have habsolute : Path.isAbsolute ⟨name ++ "." ++ extension⟩ = false := by
    refine Bool.eq_false_iff.2 fun habsolute => ?_
    obtain ⟨n, ps, heq⟩ := Path.isAbsolute_iff.1 habsolute
    rw [hpieces] at heq
    exact List.cons_ne_nil n ps (List.cons.inj heq).2.symm
  have hjoin : ∀ dir : Path,
      ∃ ps, (dir.join ⟨name ++ "." ++ extension⟩).pieces = ps ++ [name ++ "." ++ extension] := by
    intro dir
    by_cases hdir : dir.text = ""
    · refine ⟨[], ?_⟩
      have heq : dir.join ⟨name ++ "." ++ extension⟩ = ⟨name ++ "." ++ extension⟩ := by
        simp [Path.join, hdir]
      rw [heq, hpieces, List.nil_append]
    · obtain ⟨ps, -, heq, -⟩ := Path.exists_pieces_join hdir habsolute
      exact ⟨ps, heq.trans (by rw [hpieces])⟩
  exact hjoin _

/-- **Where the mutants of a file lie**: below the output directory, where the file
lies under its root. -/
theorem components_outputPath (horigin : origin.components = ns.map Component.normal)
    (hname : IsName (name ++ "." ++ extension)) :
    (outputPath outDir origin name extension).components
      = outDir.components ++ (ns.dropLast ++ [name ++ "." ++ extension]).map Component.normal := by
  have hfile : Path.ofNames [name ++ "." ++ extension] = ⟨name ++ "." ++ extension⟩ :=
    congrArg Path.mk String.intercalate_singleton
  have hjoin : ∀ dir : Path, (dir.join ⟨name ++ "." ++ extension⟩).components
      = dir.components ++ [.normal (name ++ "." ++ extension)] := by
    intro dir
    rw [← hfile, Path.components_join_ofNames dir (List.forall_mem_singleton.2 hname)]
    rfl
  have hdrop : origin.components.dropLast = ns.dropLast.map Component.normal := by
    rw [horigin, List.map_dropLast]
  unfold outputPath
  rw [hjoin, List.map_append, ← List.append_assoc]
  refine congrArg (· ++ [Component.normal (name ++ "." ++ extension)]) ?_
  cases hparent : origin.parent? with
  | none =>
    have hnil : origin.components = [] := by
      rw [Path.components_of_parent?_eq_none hparent, Path.isAbsolute_of_components horigin]
      rfl
    rw [hnil] at hdrop
    rw [← hdrop]
    exact (List.append_nil _).symm
  | some parent =>
    have hcomponents := (Path.components_of_parent? hparent).trans hdrop
    dsimp only
    split
    next hempty =>
      rw [Path.components_of_text_eq_empty (String.isEmpty_iff.1 hempty)] at hcomponents
      rw [← hcomponents, List.append_nil]
    next =>
      have hhere : Component.here ∉ parent.components := by
        rw [hcomponents]
        simp only [List.mem_map, not_exists, not_and]
        exact fun _ _ => nofun
      rw [Path.components_join (Path.isAbsolute_of_components hcomponents) hhere, hcomponents]

/-- **Where the mutants of a file with a path of names lie**: the output directory, with
the names put after it. -/
theorem outputPath_ofNames {n : String} (outDir : Path) (hns : ∀ m ∈ ns ++ [n], IsName m)
    (hname : IsName (name ++ "." ++ extension)) :
    outputPath outDir (.ofNames (ns ++ [n])) name extension
      = outDir.join (.ofNames (ns ++ [name ++ "." ++ extension])) := by
  have hfile : Path.ofNames [name ++ "." ++ extension] = ⟨name ++ "." ++ extension⟩ :=
    congrArg Path.mk String.intercalate_singleton
  have hdirs : ∀ m ∈ ns, IsName m := fun m hm => hns m (List.mem_append_left _ hm)
  unfold outputPath
  rw [Path.parent?_ofNames hns, ← hfile]
  dsimp only
  by_cases hne : ns = []
  · subst hne
    rfl
  · have hparent : (Path.ofNames ns).text.isEmpty = false := by
      simpa using Path.text_ofNames_ne_empty hne hdirs
    rw [hparent]
    exact Path.join_ofNames_append outDir hne (List.cons_ne_nil _ [])
      (List.forall_mem_append.2 ⟨hdirs, List.forall_mem_singleton.2 hname⟩)

/-- **Mutants at one location have the same path.** -/
theorem Output.same_of_location_eq {here : Location} {m m' : Mutant} {ns' : List String}
    (horigin : m.origin.components = ns.map Component.normal)
    (horigin' : m'.origin.components = ns'.map Component.normal)
    (hname : IsName (m.name ++ "." ++ extension)) (hname' : IsName (m'.name ++ "." ++ extension))
    (h : (pathOf outDir extension m).location here = (pathOf outDir extension m').location here) :
    (pathOf outDir extension m).same (pathOf outDir extension m') = true := by
  have hcomponents : (pathOf outDir extension m).components = _ :=
    components_outputPath horigin hname
  have hcomponents' : (pathOf outDir extension m').components = _ :=
    components_outputPath horigin' hname'
  rw [Path.location_of_components hcomponents, Path.location_of_components hcomponents'] at h
  rw [Path.same, hcomponents, hcomponents', List.append_cancel_left h]
  exact beq_self_eq_true _

end OutputPath

end JavaMutants
