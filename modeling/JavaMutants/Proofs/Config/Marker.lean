import JavaMutants.Proofs.Config
import JavaMutants.Proofs.Fragment.Annotated
import JavaMutants.Proofs.Text.Cut

/-!
# Which markers can match

A valid configuration has an identifier for its marker, but that need not be the name of
an annotation. Where it is, the class that carries it is found, whatever the other
marker is; where it is not, no file that carries it can be parsed, so the
configuration finds nothing (`Config.marker_matches`).

Two kinds of identifiers are lost: those with a letter or a number that is not part of a
word, and those that begin with *interface*. There are no others of ASCII
(`isAnnotationName_of_ascii`).
-/

namespace JavaMutants

open Syntax Text Tree

/-- **Of the identifiers in ASCII** only those that begin with *interface* cannot name an
annotation. -/
theorem isAnnotationName_of_ascii {name : String} (hid : isIdentifier name = true)
    (hascii : ∀ c ∈ name.toList, c.toNat < 128) (hplain : ¬ "interface".toList <+: name.toList) :
    IsAnnotationName name := by
  obtain ⟨c, cs, hcs, hstart, hpart⟩ := isIdentifier_iff.1 hid
  have hword : ∀ d ∈ name.toList, isWordPart d = true ∧ (isWordStart d = true ∨ d.isDigit = true) :=
    fun d hd => isWordPart_of_isIdentifierPart (hascii d hd) (hpart d (hcs ▸ hd))
  refine ⟨⟨c, by rw [hcs]; rfl, ?_⟩, fun d hd => (hword d hd).1, hplain⟩
  have hdigit := isDigit_eq_false_of_isIdentifierStart hstart
  exact (hword c (hcs ▸ List.mem_cons_self)).2.resolve_right (by rw [hdigit]; nofun)

/-! ## The annotated class -/

namespace IsAnnotationName

variable {name : String} {tree : Tree}

/-- The class is the one declaration with modifiers. -/
theorem declarations_eq (hlabel : tree.label = .named .program)
    (hchildren : tree.children = [classNode (size name)]) :
    Target.declarations tree = [(classNode (size name), modifiers (size name))] := by
  obtain ⟨l, f, s, b, cs⟩ := tree
  obtain rfl : l = .named .program := hlabel
  obtain rfl : cs = [classNode (size name)] := hchildren
  rfl

/-- The name of the annotation is the only one among the modifiers. -/
theorem annotationNames_eq (name : String) :
    Target.annotationNames (annotatedClass name) (modifiers (size name)) = [name] := by
  have hslice : slice? (annotatedClass name) 1 (1 + size name) = some name :=
    slice?_eq_some_iff.2 ⟨"@", " class A \x7b\x7d", rfl, rfl, rfl⟩
  show [(slice? (annotatedClass name) 1 (1 + size name)).getD ""] = [name]
  rw [hslice]
  rfl

theorem size_annotatedClass (name : String) : size (annotatedClass name) = 1 + size name + 11 := by
  rw [annotatedClass, size_append, size_append]
  rfl

/-- The name that the class declares. -/
theorem slice?_className (name : String) :
    slice? (annotatedClass name) (1 + size name + 7) (1 + size name + 8) = some "A" := by
  refine slice?_eq_some_iff.2 ⟨"@" ++ name ++ " class ", " \x7b\x7d", ?_, ?_, rfl⟩
  · rw [annotatedClass, ← String.toList_inj]
    simp [String.toList_append]
  · rw [size_append, size_append]
    rfl

/-- **The target that the class is**, if its annotation is the one marker. -/
theorem ofDeclaration?_eq {markers : Markers} (hmutate : markers.mutate = name)
    (hdeprecated : markers.deprecated ≠ name) :
    Target.ofDeclaration? markers (annotatedClass name) (classNode (size name))
      (modifiers (size name)) = some
        { kind := .typeDeclaration, name := "A", start := 0, stop := size (annotatedClass name),
          ordinal := 0, marked := true, deprecated := false } := by
  have hcontains : [name].contains markers.deprecated = false := by
    simpa using hdeprecated
  unfold Target.ofDeclaration?
  rw [annotationNames_eq, hmutate, size_annotatedClass]
  show (if [name].contains name = true then some (Target.mk .typeDeclaration
    ((slice? (annotatedClass name) (1 + size name + 7) (1 + size name + 8)).getD "") 0
    (1 + size name + 11) 0 true ([name].contains markers.deprecated && markers.deprecated != name))
    else none) = _
  rw [slice?_className, hcontains, if_pos (by simp)]
  rfl

/-- **The class is the one target of its file.** -/
theorem locate_eq (h : IsAnnotationName name) {markers : Markers} (hmutate : markers.mutate = name)
    (hdeprecated : markers.deprecated ≠ name) (path : Path) :
    ∃ file, SourceFile.parse path (annotatedClass name) = .ok file
      ∧ Target.locate markers file =
        [{ kind := .typeDeclaration, name := "A", start := 0, stop := size (annotatedClass name),
           ordinal := 0, marked := true, deprecated := false }] := by
  obtain ⟨tree, hparse, hlabel, hchildren⟩ := h.parseSound
  refine ⟨⟨path, annotatedClass name, tree⟩, ?_, ?_⟩
  · unfold SourceFile.parse
    rw [hparse]
  · unfold Target.locate Target.ofDeclarations
    simp only
    rw [declarations_eq hlabel hchildren]
    show Target.number [] (List.mergeSort ([(classNode (size name),
      modifiers (size name))].filterMap fun d =>
        Target.ofDeclaration? markers (annotatedClass name) d.1 d.2) _) = _
    simp only [List.filterMap_cons, List.filterMap_nil, ofDeclaration?_eq hmutate hdeprecated,
      List.mergeSort_singleton]
    rfl

/-- **With any other identifier the file is malformed.** -/
theorem exists_malformed_of_not (hid : isIdentifier name = true) (h : ¬ IsAnnotationName name)
    (path : Path) :
    ∃ reason, SourceFile.parse path (annotatedClass name) = .error (.malformed path reason) := by
  unfold SourceFile.parse
  cases hparse : JavaMutants.parseSound (annotatedClass name) with
  | error reason => exact ⟨reason, rfl⟩
  | ok tree => exact absurd (of_isParse hid (isParse_of_parseSound hparse)) h

/-- A superscript two is a number, but goes on no word. -/
theorem not_superscript : ¬ IsAnnotationName "A²" := by
  intro h
  have hpart : isWordPart '²' = false := by decide
  rw [h.part '²' (by decide)] at hpart
  cases hpart

end IsAnnotationName

/-! ## Valid markers -/

namespace Config

/-- The markers of a valid configuration are identifiers, and they differ. -/
theorem markers_of_problems_eq_nil {c : Config} {known : List String} (h : c.problems known = []) :
    isIdentifier c.markers.mutate = true ∧ isIdentifier c.markers.deprecated = true
      ∧ c.markers.mutate ≠ c.markers.deprecated := by
  rw [problems_eq, settingProblems] at h
  simp only [List.append_eq_nil_iff, List.map_eq_nil_iff, List.filter_eq_nil_iff] at h
  obtain ⟨⟨⟨hmarkers, hequal⟩, -⟩, -⟩ := h
  refine ⟨?_, ?_, fun heq => ?_⟩
  · simpa using hmarkers ("markers.mutate", c.markers.mutate) List.mem_cons_self
  · simpa using hmarkers ("markers.deprecated", c.markers.deprecated)
      (List.mem_cons_of_mem _ List.mem_cons_self)
  · rw [if_pos heq] at hequal
    cases hequal

/-- **Which markers of valid configurations can match.** -/
theorem marker_matches (c : Config) (known : List String) (h : c.problems known = [])
    (path : Path) :
    (IsAnnotationName c.markers.mutate → ∃ file,
        SourceFile.parse path (annotatedClass c.markers.mutate) = .ok file
          ∧ Target.locate c.markers file =
            [{ kind := .typeDeclaration, name := "A", start := 0,
               stop := size (annotatedClass c.markers.mutate),
               ordinal := 0, marked := true, deprecated := false }])
      ∧ (¬ IsAnnotationName c.markers.mutate → ∃ reason,
        SourceFile.parse path (annotatedClass c.markers.mutate)
          = .error (.malformed path reason)) := by
  obtain ⟨hid, -, hne⟩ := markers_of_problems_eq_nil h
  exact ⟨fun hname => hname.locate_eq rfl hne.symm path,
    fun hname => IsAnnotationName.exists_malformed_of_not hid hname path⟩

/-- The marker of the default configuration, and one with a superscript two. -/
theorem marker_matches_default :
    problems {} Registry.builtin.tags = []
      ∧ problems { markers := ⟨"A²", "Deprecated"⟩ } Registry.builtin.tags = []
      ∧ (∃ file, SourceFile.parse ⟨"C.java"⟩ (annotatedClass "Mutate") = .ok file
        ∧ Target.locate {} file =
          [{ kind := .typeDeclaration, name := "A", start := 0, stop := 18,
             ordinal := 0, marked := true, deprecated := false }])
      ∧ ∃ reason, SourceFile.parse ⟨"C.java"⟩ (annotatedClass "A²")
        = .error (.malformed ⟨"C.java"⟩ reason) := by
  have hdefault : problems {} Registry.builtin.tags = [] := by decide
  have hother : problems { markers := ⟨"A²", "Deprecated"⟩ } Registry.builtin.tags = [] := by
    decide
  refine ⟨hdefault, hother, ?_, ?_⟩
  · have hascii : "Mutate".toList.all (fun c => c.toNat < 128) = true := by decide
    exact (marker_matches {} _ hdefault _).1 (isAnnotationName_of_ascii (by decide)
      (fun c hc => of_decide_eq_true (List.all_eq_true.1 hascii c hc)) (by decide))
  · exact (marker_matches { markers := ⟨"A²", "Deprecated"⟩ } _ hother _).2
      IsAnnotationName.not_superscript

/-- **A superscript two** may be part of a marker, but not of the name of an annotation. -/
theorem superscript_marker :
    problems { markers := ⟨"A²", "Deprecated"⟩ } Registry.builtin.tags = []
      ∧ ¬ ∃ file target, SourceFile.parse ⟨"C.java"⟩ (annotatedClass "A²") = .ok file
        ∧ Target.locate ⟨"A²", "Deprecated"⟩ file = [target] := by
  refine ⟨by decide, ?_⟩
  rintro ⟨file, target, hfile, -⟩
  obtain ⟨reason, herror⟩ := IsAnnotationName.exists_malformed_of_not (by decide)
    IsAnnotationName.not_superscript ⟨"C.java"⟩
  cases hfile.symm.trans herror

end Config

end JavaMutants
