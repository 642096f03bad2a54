import JavaMutants.Proofs.Fragment.Program
import JavaMutants.Proofs.Syntax.Identifier

/-!
# A class with an annotation

A class without members and with one annotation (`annotatedClass`) is read if the name of
the annotation is a word. Not every word will do: scanning takes the longest mark there is,
and `@interface` is one, so a word that begins with *interface* is cut there
(`IsAnnotationName`).

Of the identifiers of a configuration these are the only names with which the class is
read (`IsAnnotationName.of_parseSound`). One that is not a word has a character that begins
nothing, and one that begins with *interface* is read as the beginning of an annotation
type, which has neither its name nor its body in place.
-/

namespace JavaMutants

open Syntax Text Tree Grammar Rule

/-! ## The text -/

/-- **A class with an annotation.** -/
def annotatedClass (name : String) : String := "@" ++ name ++ " class A \x7b\x7d"

/-- The class without the annotation. -/
def bareClass : List Char := ['c', 'l', 'a', 's', 's', ' ', 'A', ' ', '\x7b', '\x7d']

theorem toList_annotatedClass (name : String) :
    (annotatedClass name).toList = '@' :: (name.toList ++ ' ' :: bareClass) := by
  have hat : "@".toList = ['@'] := by decide
  have hclass : " class A \x7b\x7d".toList = ' ' :: bareClass := by decide
  rw [annotatedClass, String.toList_append, String.toList_append, hat, hclass]
  rfl

theorem head?_annotatedClass (name : String) :
    (annotatedClass name).toList.head? ≠ some '\ufeff' := by
  rw [toList_annotatedClass]
  show some '@' ≠ some '\ufeff'
  decide

/-- The tokens of the class, if the blank before it is at an offset. -/
def classTokens (n : Nat) : List Token :=
  [⟨.word (some .class_), ⟨n + 1, n + 6⟩⟩, ⟨.word none, ⟨n + 7, n + 8⟩⟩,
    ⟨.punct .braceOpen, ⟨n + 9, n + 10⟩⟩, ⟨.punct .braceClose, ⟨n + 10, n + 11⟩⟩,
    ⟨.finish, ⟨n + 11, n + 11⟩⟩]

theorem scans_classTokens (before : List Char) :
    Token.Scans .code [] before (' ' :: bareClass) (classTokens (byteLength before)) := by
  have n₁ : Token.next .code [] (' ' :: bareClass) = (none, 1, .code, []) := rfl
  have n₂ : Token.next .code [] bareClass = (some (.word (some .class_)), 5, .code, []) := rfl
  have n₃ : Token.next .code [] (bareClass.drop 5) = (none, 1, .code, []) := rfl
  have n₄ : Token.next .code [] (bareClass.drop 6) = (some (.word none), 1, .code, []) := rfl
  have n₅ : Token.next .code [] (bareClass.drop 7) = (none, 1, .code, []) := rfl
  have n₆ : Token.next .code [] (bareClass.drop 8)
      = (some (.punct .braceOpen), 1, .code, []) := rfl
  have n₇ : Token.next .code [] (bareClass.drop 9)
      = (some (.punct .braceClose), 1, .code, []) := rfl
  have hscans : Token.Scans .code [] before (' ' :: bareClass) _ :=
    .skip n₁ nofun (.token n₂ nofun (.skip n₃ nofun (.token n₄ nofun (.skip n₅ nofun
      (.token n₆ nofun (.token n₇ nofun .done))))))
  simp only [bareClass, List.drop, List.take, byteLength_append, byteLength_cons,
    byteLength_nil] at hscans
  exact hscans

/-! ## Names of annotations -/

/-- **A name that an annotation can have.** -/
structure IsAnnotationName (name : String) : Prop where
  /-- It begins a word. -/
  start : ∃ c ∈ name.toList.head?, isWordStart c = true
  /-- It is one word. -/
  part : ∀ c ∈ name.toList, isWordPart c = true
  /-- No longer mark is taken for that of the annotation. -/
  plain : ¬ "interface".toList <+: name.toList

namespace IsAnnotationName

variable {name : String}

theorem exists_cons (h : IsAnnotationName name) :
    ∃ c cs, name.toList = c :: cs ∧ isWordStart c = true := by
  obtain ⟨c, hc, hstart⟩ := h.start
  obtain ⟨cs, hcs⟩ := List.head?_eq_some_iff.1 hc
  exact ⟨c, cs, hcs, hstart⟩

theorem size_pos (h : IsAnnotationName name) : 0 < size name := by
  obtain ⟨c, cs, hcs, -⟩ := h.exists_cons
  exact byteLength_pos (hcs ▸ List.cons_ne_nil c cs)

/-- The tokens of an annotated class, if the annotation has a name of some bytes. -/
def tokens (w : Option Keyword) (n : Nat) : List Token :=
  ⟨.punct .at, ⟨0, 1⟩⟩ :: ⟨.word w, ⟨1, 1 + n⟩⟩ :: classTokens (1 + n)

/-- **The name is scanned to one word.** -/
theorem scan_eq (h : IsAnnotationName name) :
    ∃ w, Token.scan (annotatedClass name).toList = tokens w (size name) := by
  obtain ⟨c, cs, hcs, hstart⟩ := h.exists_cons
  have hat : Token.next .code [] ('@' :: (name.toList ++ ' ' :: bareClass))
      = (some (.punct .at), 1, .code, []) :=
    Token.next_at (fun hp => h.plain ((prefix_append_iff (by decide)).1 hp)) []
  have hword : Token.next .code [] (c :: cs ++ ' ' :: bareClass) = (some (.word
      (Keyword.ofText? (String.ofList (c :: cs)))), (c :: cs).length, .code, []) :=
    Token.next_word_blank hstart (hcs ▸ h.part) []
  rw [← hcs] at hword
  have htake : (name.toList ++ ' ' :: bareClass).take name.toList.length = name.toList :=
    List.take_left
  have hname : Token.Scans .code [] ['@'] (name.toList ++ ' ' :: bareClass)
      (⟨.word (Keyword.ofText? (String.ofList name.toList)), ⟨1, 1 + size name⟩⟩
        :: classTokens (1 + size name)) := by
    have hstop : byteLength (['@'] ++ (name.toList ++ ' ' :: bareClass).take name.toList.length)
        = 1 + size name := by
      rw [htake, byteLength_append]
      rfl
    rw [← hstop]
    refine .token hword ?_ ?_
    · rw [htake, hcs]
      exact List.cons_ne_nil c cs
    · rw [htake, List.drop_left]
      exact scans_classTokens (['@'] ++ name.toList)
  have hscans : Token.Scans .code [] [] (annotatedClass name).toList
      (tokens (Keyword.ofText? (String.ofList name.toList)) (size name)) := by
    rw [toList_annotatedClass]
    exact .token hat nofun hname
  refine ⟨Keyword.ofText? (String.ofList name.toList), ?_⟩
  rw [Token.scan_eq_scanFrom (head?_annotatedClass name)]
  exact hscans.scanFrom_eq (Nat.le_refl _)

/-! ## Reading -/

/-- The annotation in the list of modifiers. -/
def modifiers (n : Nat) : Tree :=
  above (.named .modifiers) [above (.named .annotationPlain) [.leaf (.punct .at) ⟨0, 1⟩,
    (leaf (.named .identifier) ⟨1, 1 + n⟩).withField (some .name)]]

/-- The children of the class. -/
def classNodes (n : Nat) : List Tree :=
  [modifiers n, .leaf (.keyword .class_) ⟨1 + n + 1, 1 + n + 6⟩,
    (leaf (.named .identifier) ⟨1 + n + 7, 1 + n + 8⟩).withField (some .name),
    (above (.named .classBody) [.leaf (.punct .braceOpen) ⟨1 + n + 9, 1 + n + 10⟩,
      .leaf (.punct .braceClose) ⟨1 + n + 10, 1 + n + 11⟩]).withField (some .body)]

/-- The class. -/
def classNode (n : Nat) : Tree := above (.named .classDeclaration) (classNodes n)

/-- A leaf that has bytes is none for a token that is missing. -/
theorem tokenLeaf_of_lt {l : Label} {a b : Nat} (h : a < b) :
    tokenLeaf l ⟨a, b⟩ = .leaf l ⟨a, b⟩ := by
  rw [tokenLeaf, if_pos h]

theorem outcome_tokens (w : Option Keyword) {n : Nat} (hn : 0 < n) :
    outcome (body .program) [] (tokens w n) = some ([classNode n], []) := by
  have hp : (body .classDeclaration).isPaced isTaking = true := rfl
  have hclass : outcome (body .classDeclaration) [] (tokens w n)
      = some (classNodes n, [⟨.finish, ⟨1 + n + 11, 1 + n + 11⟩⟩]) := by
    unfold classNodes modifiers
    rw [outcome_eq_read hp, ← tokenLeaf_of_lt (by omega : 0 < 1),
      ← tokenLeaf_of_lt (by omega : 1 < 1 + n),
      ← tokenLeaf_of_lt (by omega : 1 + n + 1 < 1 + n + 6),
      ← tokenLeaf_of_lt (by omega : 1 + n + 7 < 1 + n + 8),
      ← tokenLeaf_of_lt (by omega : 1 + n + 9 < 1 + n + 10),
      ← tokenLeaf_of_lt (by omega : 1 + n + 10 < 1 + n + 11)]
    cases w <;> rfl
  exact outcome_program_of_type (by decide) (by decide) hclass

/-- **A class with such an annotation is read.** -/
theorem parseSound (h : IsAnnotationName name) :
    ∃ tree, JavaMutants.parseSound (annotatedClass name) = .ok tree
      ∧ tree.label = .named .program ∧ tree.children = [classNode (size name)] := by
  obtain ⟨w, hscan⟩ := h.scan_eq
  have hcode : Token.code (annotatedClass name).toList = tokens w (size name) := by
    rw [Token.code, hscan]
    rfl
  have hcomments : Token.comments (annotatedClass name).toList = [] := by
    rw [Token.comments, hscan]
    rfl
  have hread := outcome_tokens w h.size_pos
  rw [← hcode] at hread
  have hlt : ∀ t ∈ Token.code (annotatedClass name).toList, t.lexeme ≠ .finish →
      t.span.start < t.span.stop := by
    have hpos := h.size_pos
    rw [hcode]
    simp [tokens, classTokens]
    omega
  obtain ⟨tree, htree, -⟩ := exists_parseSound hread hlt
  obtain ⟨root, rest, hroot, rfl, -⟩ := exists_read_of_parseSound htree
  rw [readProgram_of_outcome hread] at hroot
  obtain ⟨hroot, -⟩ := Prod.mk.inj (Option.some.inj hroot)
  obtain rfl := (List.cons.inj hroot).1
  rw [hcomments] at htree
  exact ⟨_, htree, rfl, rfl⟩

end IsAnnotationName

/-! ## Names that are read -/

namespace Syntax.Grammar

/-- What is tried before an annotation type and does not begin with the mark of one. -/
def notAnnotationType : List Part :=
  (Part.node .classDeclaration :: notClass).erase (.node .annotationTypeDeclaration)
    ++ (List.range 10).map (Part.binary true) ++ [Part.expression true, .unary true, .operand true,
      .primary, .atom, .plainType .alone, .simpleType .alone, .string, .parenthesized,
      .node .parenthesizedExpression, .creation, .formalParameters, .node .formalParameters]

theorem isBlocked_notAnnotationType :
    isBlocked (.punct .atInterface) notAnnotationType = true := by decide +kernel

variable {s : Span} {us rest : List Token} {nodes : List Tree}

theorem topLevel_of_atInterface
    (h : Derives rules (part .topLevel) none (⟨.punct .atInterface, s⟩ :: us) nodes rest) :
    ∃ w s₁ s₂ vs, us = ⟨.word w, s₁⟩ :: ⟨.punct .braceOpen, s₂⟩ :: vs := by
  have htop : Derives rules (alt [stmt, the .methodDeclaration]) none _ nodes rest := h.of_part
  have hstmt : Derives rules stmt none _ nodes rest :=
    derives_of_alt isBlocked_notAnnotationType rfl rfl htop
  have hdecl : Derives rules (part .declaration) none _ nodes rest :=
    derives_of_alt isBlocked_notAnnotationType rfl rfl hstmt.of_part
  have htype : Derives rules (the .annotationTypeDeclaration) none _ nodes rest :=
    derives_of_alt isBlocked_notAnnotationType rfl rfl hdecl.of_part
  obtain ⟨_, -, h⟩ := htype.of_part.of_tree
  obtain ⟨_, _, _, -, hmods, h⟩ := h.of_both
  obtain ⟨-, rfl⟩ := nothing_of_opt isBlocked_notAnnotationType rfl rfl hmods
  obtain ⟨_, _, _, -, hmark, h⟩ := h.of_both
  obtain ⟨_, hts, -⟩ := hmark.of_mark
  cases hts
  obtain ⟨_, _, _, -, hname, hbody⟩ := h.of_both
  obtain ⟨_, -, hword⟩ := hname.of_field
  obtain ⟨w, s₁, rfl, -⟩ := hword.of_name
  obtain ⟨_, -, hpart⟩ := hbody.of_field
  obtain ⟨_, -, hbody⟩ := hpart.of_part.of_tree
  obtain ⟨_, _, _, -, hopen, -⟩ := hbody.of_both
  obtain ⟨s₂, rfl, -⟩ := hopen.of_mark
  exact ⟨w, s₁, s₂, _, rfl⟩

/-- **After the mark of an annotation type** come its name and its body. -/
theorem program_of_atInterface
    (h : Derives rules (body .program) none (⟨.punct .atInterface, s⟩ :: us) nodes rest) :
    ∃ w s₁ s₂ vs, us = ⟨.word w, s₁⟩ :: ⟨.punct .braceOpen, s₂⟩ :: vs := by
  obtain ⟨_, _, _, -, htops, hfinish⟩ := h.of_both
  obtain ⟨-, _, rfl⟩ := hfinish.of_finish
  rcases htops.of_many with ⟨-, hts⟩ | ⟨_, _, _, -, htop, -⟩
  · cases hts
  · exact topLevel_of_atInterface htop

end Syntax.Grammar

section

variable {name : String} {tree : Tree}

/-- **A name that begins with *interface* is not read** as that of an annotation. -/
theorem Syntax.IsParse.not_interface (hid : isIdentifier name = true)
    (h : IsParse (annotatedClass name) tree) : ¬ "interface".toList <+: name.toList := by
  rintro ⟨r, hr⟩
  have hstray := fun t => h.ne_stray (t := t)
  have hderives := h.derives
  have hscans := h.scans (head?_annotatedClass name)
  have hat : Token.next .code [] (annotatedClass name).toList
      = (some (.punct .atInterface), 10, .code, []) := by
    rw [toList_annotatedClass, ← hr, List.append_assoc]
    exact Token.next_atInterface (List.prefix_append _ _) []
  obtain ⟨us, hts, hus⟩ := hscans.of_token (by rw [toList_annotatedClass]; nofun) hat
  have hdrop : (annotatedClass name).toList.drop 10 = r ++ ' ' :: bareClass := by
    rw [toList_annotatedClass, ← hr]
    rfl
  rw [hdrop] at hus
  rw [Token.code, hts] at hderives
  rw [hts] at hstray
  obtain ⟨w, s₁, s₂, vs, hcode⟩ := program_of_atInterface hderives
  cases r with
  | nil =>
    obtain rfl := hus.unique (scans_classTokens _)
    cases hcode
  | cons d r =>
    have hpart : ∀ e ∈ d :: r, isIdentifierPart e = true := by
      obtain ⟨c, cs, hcs, -, hpart⟩ := isIdentifier_iff.1 hid
      intro e he
      refine hpart e (hcs ▸ ?_)
      rw [← hr]
      exact List.mem_append_right _ he
    rcases hus.of_identifier hpart (fun t ht => hstray t (List.mem_cons_of_mem _ ht)) with
      ⟨-, k, s, vs, rfl, hcomment⟩ | ⟨-, -, k, s, vs, rfl, hvs⟩
    · have hkeep : Token.isComment ⟨.piece k, s⟩ = false := hcomment
      have hfilter : (⟨.piece k, s⟩ :: vs).filter (fun t => !t.isComment)
          = ⟨.piece k, s⟩ :: vs.filter fun t => !t.isComment :=
        List.filter_cons_of_pos (by rw [hkeep]; rfl)
      cases hfilter.symm.trans hcode
    · obtain rfl := hvs.unique (scans_classTokens _)
      cases hcode

/-- **The identifiers with which the class is read** are the names of annotations. -/
theorem IsAnnotationName.of_isParse (hid : isIdentifier name = true)
    (h : IsParse (annotatedClass name) tree) : IsAnnotationName name := by
  have hplain := h.not_interface hid
  obtain ⟨c, cs, hcs, hstart, hpart⟩ := isIdentifier_iff.1 hid
  have hat : Token.next .code [] (annotatedClass name).toList
      = (some (.punct .at), 1, .code, []) := by
    rw [toList_annotatedClass]
    exact Token.next_at (fun hp => hplain ((prefix_append_iff (by decide)).1 hp)) []
  obtain ⟨us, hts, hus⟩ := (h.scans (head?_annotatedClass name)).of_token
    (by rw [toList_annotatedClass]; nofun) hat
  rw [toList_annotatedClass, hcs] at hus
  have hstray : ∀ t ∈ us, t.lexeme ≠ .stray := fun t ht =>
    h.ne_stray (hts ▸ List.mem_cons_of_mem _ ht)
  rcases Token.Scans.of_identifier hpart hus hstray with ⟨hdigit, -⟩ | ⟨hword, hall, -⟩
  · rw [isDigit_eq_false_of_isIdentifierStart hstart] at hdigit
    cases hdigit
  · exact ⟨⟨c, by rw [hcs]; rfl, hword⟩, hcs ▸ hall, hplain⟩

end

end JavaMutants
