import JavaMutants.Proofs.Syntax.Choice
import JavaMutants.Proofs.Target.Declaration

/-!
# Declarations that are read

A declaration that begins with a modifier is read as what it is wherever a
declaration of its kind may stand. A type is read where a file begins
(`outcome_topLevel`), and a method or a constructor among the members of a
class (`outcome_member`): whatever is tried before it cannot be read from
its tokens.
-/

namespace JavaMutants

open Syntax Tree Grammar Rule

/-! ## What comes after modifiers -/

/-- The parts that may come after modifiers. -/
def tailParts : List Part := [.plainType .body, .simpleType .body, .node .typeParameters]

/-- What does not come after modifiers: other modifiers, and brackets. -/
def notAfterModifiers : List Lexeme := .punct .parenOpen :: .punct .braceOpen :: modifierLexemes

theorem isBlocked_tailParts : ∀ x ∈ notAfterModifiers, isBlocked x tailParts = true := by decide

theorem refuses_afterModifiers {k : Kind} (hk : isDeclaration k = true) :
    ∀ x ∈ notAfterModifiers, refuses x tailParts (afterModifiers k) = true := by
  cases k with
  | classDeclaration | interfaceDeclaration | enumDeclaration | recordDeclaration
  | annotationTypeDeclaration | constructorDeclaration | compactConstructorDeclaration
  | methodDeclaration => decide
  | _ => cases hk

section Modifiers

variable {k : Kind} {t : Token} {ts rest : List Token} {nodes : List Tree}

/-- Modifiers that can be read are read. -/
theorem outcome_mods {x : List Tree × List Token} (h : outcome (part .modifiers) [] ts = some x) :
    outcome mods [] ts = some x := by
  have hp : (either (part Part.modifiers) nothing).isPaced isTaking = true := rfl
  show outcome (either (part .modifiers) nothing) [] ts = _
  rw [outcome_either hp, h, Option.some_or]

/-- **A declaration that begins with a modifier is made of modifiers and
what comes after them.** -/
theorem exists_modifiers (hk : isDeclaration k = true) (ht : t.lexeme ∈ modifierLexemes)
    (h : outcome (body k) [] (t :: ts) = some (nodes, rest)) :
    ∃ ns mid ms, outcome (part .modifiers) [] (t :: ts) = some (ns, mid)
      ∧ outcome (afterModifiers k) [] mid = some (ms, rest) := by
  have hp : (body k).isPaced isTaking = true := isPaced_rules (.node k)
  rw [body_eq_both hk] at h hp
  obtain ⟨ns, mid, ms, -, hmods, htail⟩ := (outcome_both_eq_some_iff hp).1 h
  have hpm : (either (part Part.modifiers) nothing).isPaced isTaking = true := rfl
  have hmem : t.lexeme ∈ notAfterModifiers := List.mem_cons_of_mem _ (List.mem_cons_of_mem _ ht)
  rcases (outcome_either_eq_some_iff hpm).1 hmods with hmods | ⟨-, hnone⟩
  · exact ⟨ns, mid, ms, hmods, htail⟩
  · -- a modifier is not what comes after modifiers
    rw [outcome_nothing] at hnone
    cases hnone
    rw [outcome_of_refuses (isBlocked_tailParts _ hmem) (refuses_afterModifiers hk _ hmem) rfl]
      at htail
    cases htail

/-- **What goes on as nothing can after its modifiers is not read.** -/
theorem outcome_the_eq_none {tail : Rules} (hbody : body k = both mods tail) {ns : List Tree}
    {mid : List Token} (hmods : outcome (part .modifiers) [] ts = some (ns, mid))
    (htail : outcome tail [] mid = none) : outcome (the k) [] ts = none := by
  have hp : (body k).isPaced isTaking = true := isPaced_rules (.node k)
  have hnone : outcome (body k) [] ts = none := by
    rw [hbody] at hp ⊢
    exact outcome_both_eq_none hp (outcome_mods hmods) htail
  show outcome (part (.node k)) [] ts = none
  rw [outcome_part]
  show outcome (tree k (body k)) [] ts = none
  rw [outcome_tree hp, hnone, Option.map_none]

/-- A declaration is one node over what its rule makes. -/
theorem outcome_the (h : outcome (body k) [] ts = some (nodes, rest)) :
    outcome (the k) [] ts = some ([above (.named k) nodes], rest) := by
  have hp : (body k).isPaced isTaking = true := isPaced_rules (.node k)
  show outcome (part (.node k)) [] ts = _
  rw [outcome_part]
  show outcome (tree k (body k)) [] ts = _
  rw [outcome_tree hp, h, Option.map_some]

/-- **After a modifier of one token there is no bracket.** -/
theorem second_notMem (hk : isDeclaration k = true) {u : Token} {us : List Token}
    (ht : t.lexeme ∈ modifierLexemes) (hat : t.lexeme ≠ .punct .at)
    (h : outcome (body k) [] (t :: u :: us) = some (nodes, rest)) :
    u.lexeme ≠ .punct .parenOpen ∧ u.lexeme ≠ .punct .braceOpen := by
  obtain ⟨ns, mid, ms, hmods, htail⟩ := exists_modifiers hk ht h
  have hd : Derives rules (part .modifiers) none (t :: u :: us) ns mid :=
    derives_of_outcome rfl hmods
  have hnot : ∀ x ∈ [.punct .parenOpen, .punct .braceOpen], u.lexeme ≠ x := by
    rintro x hx rfl
    rcases second_of_modifiers hd hat with hu | rfl
    · have hnotMem : ∀ x ∈ [.punct .parenOpen, .punct .braceOpen], x ∉ modifierLexemes := by decide
      exact hnotMem _ hx hu
    · have hmem : u.lexeme ∈ notAfterModifiers := List.mem_append_left _ hx
      rw [outcome_of_refuses (isBlocked_tailParts _ hmem) (refuses_afterModifiers hk _ hmem) rfl]
        at htail
      cases htail
  exact ⟨hnot _ List.mem_cons_self, hnot _ (List.mem_cons_of_mem _ List.mem_cons_self)⟩

end Modifiers

/-! ## Types -/

/-- The kinds of declarations that are types. -/
def typeKinds : List Kind := [
  .classDeclaration, .recordDeclaration, .interfaceDeclaration, .annotationTypeDeclaration,
  .enumDeclaration ]

/-- What comes after the modifiers of a type. -/
def introducer : Kind → Lexeme
  | .classDeclaration => .word (some .class_)
  | .recordDeclaration => .word (some .record_)
  | .interfaceDeclaration => .word (some .interface_)
  | .enumDeclaration => .word (some .enum_)
  | _ => .punct .atInterface

/-- The statements that are tried before declarations. -/
def statementParts : List Part :=
  [Part.block] ++ [
    Kind.block, .ifStatement, .whileStatement, .enhancedForStatement, .forStatement,
    .assertStatement, .doStatement, .breakStatement, .continueStatement, .returnStatement,
    .yieldStatement, .throwStatement, .tryStatement, .tryWithResourcesStatement,
    .switchExpression, .importDeclaration].map Part.node

theorem isBlocked_statementParts : ∀ x ∈ modifierLexemes, isBlocked x statementParts = true := by
  decide

section Types

variable {k : Kind} {t : Token} {ts mid rest : List Token} {nodes : List Tree}

theorem isDeclaration_of_mem_typeKinds : ∀ k ∈ typeKinds, isDeclaration k = true := by decide

/-- These are the declarations that become targets as types. -/
theorem mem_typeKinds_iff : k ∈ typeKinds ↔ TargetKind.ofKind? k = some .typeDeclaration := by
  cases k <;> decide

/-- **What comes after the modifiers of a type tells its kind.** -/
theorem head_of_type (hk : k ∈ typeKinds)
    (h : outcome (afterModifiers k) [] mid = some (nodes, rest)) :
    ∃ u us, mid = u :: us ∧ u.lexeme = introducer k := by
  have hplaced : ∀ k ∈ typeKinds, (afterModifiers k).isPlaced false = true := by decide
  have hd : Derives rules (afterModifiers k) none mid nodes rest := derives_of_outcome (hplaced k hk) h
  simp only [typeKinds, List.mem_cons, List.not_mem_nil, or_false] at hk
  rcases hk with rfl | rfl | rfl | rfl | rfl <;> obtain ⟨_, _, _, -, hfirst, -⟩ := hd.of_both
  · obtain ⟨s, rfl, -⟩ := hfirst.of_word
    exact ⟨_, _, rfl, rfl⟩
  · obtain ⟨s, rfl, -⟩ := hfirst.of_word
    exact ⟨_, _, rfl, rfl⟩
  · obtain ⟨s, rfl, -⟩ := hfirst.of_word
    exact ⟨_, _, rfl, rfl⟩
  · obtain ⟨s, rfl, -⟩ := hfirst.of_mark
    exact ⟨_, _, rfl, rfl⟩
  · obtain ⟨s, rfl, -⟩ := hfirst.of_word
    exact ⟨_, _, rfl, rfl⟩

/-- What begins with annotations and goes on as neither a modifier nor a
type can is not read. -/
theorem outcome_annotated_eq_none {k' : Kind}
    (hbody : body k' = both (part .annotations) (afterModifiers k'))
    (htail : ∀ x ∈ modifierLexemes ++ typeKinds.map introducer,
      refuses x [] (afterModifiers k') = true)
    (hk : k ∈ typeKinds) {ns : List Tree}
    (hmods : outcome (part .modifiers) [] ts = some (ns, mid))
    (h : outcome (afterModifiers k) [] mid = some (nodes, rest)) :
    outcome (the k') [] ts = none := by
  have hp : (body k').isPaced isTaking = true := isPaced_rules (.node k')
  obtain ⟨ms, mid', hann, hmid⟩ := outcome_annotations hmods
  have hnone : outcome (afterModifiers k') [] mid' = none := by
    rcases hmid with rfl | ⟨u, us, rfl, hu⟩
    · obtain ⟨u, us, rfl, hu⟩ := head_of_type hk h
      have hx := htail (introducer k) (List.mem_append_right _ (List.mem_map_of_mem hk))
      exact outcome_of_refuses rfl hx hu []
    · exact outcome_of_refuses rfl (htail _ (List.mem_append_left _ hu)) rfl []
  have hbodyNone : outcome (body k') [] ts = none := by
    rw [hbody] at hp ⊢
    exact outcome_both_eq_none hp hann hnone
  show outcome (part (.node k')) [] ts = none
  rw [outcome_part]
  show outcome (tree k' (body k')) [] ts = none
  rw [outcome_tree hp, hbodyNone, Option.map_none]

/-- **A type is read as a declaration.** -/
theorem outcome_declaration (hk : k ∈ typeKinds) (ht : t.lexeme ∈ modifierLexemes)
    (h : outcome (body k) [] (t :: ts) = some (nodes, rest)) :
    outcome (part .declaration) [] (t :: ts) = some ([above (.named k) nodes], rest) := by
  obtain ⟨ns, mid, ms, hmods, htail⟩ :=
    exists_modifiers (isDeclaration_of_mem_typeKinds k hk) ht h
  obtain ⟨u, us, rfl, hu⟩ := head_of_type hk htail
  obtain ⟨before, after, hsplit⟩ := List.append_of_mem hk
  have hnodup : typeKinds.Nodup := by decide
  rw [hsplit] at hnodup
  have halt : rules .declaration = alt (([Kind.moduleDeclaration, .packageDeclaration,
      .importDeclaration] ++ before).map the ++ the k :: after.map the) := by
    have hmap : before.map the ++ the k :: after.map the = typeKinds.map the := by
      rw [hsplit, List.map_append, List.map_cons]
    rw [List.map_append, List.append_assoc, hmap]
    rfl
  rw [outcome_part, halt]
  refine outcome_alt _ (fun r hr => ?_) (fun r hr => ?_) (outcome_the h)
  · simp only [List.mem_append, List.mem_cons, List.mem_map] at hr
    rcases hr with ⟨k', -, rfl⟩ | rfl | ⟨k', -, rfl⟩ <;> rfl
  · obtain ⟨k', hk', rfl⟩ := List.mem_map.1 hr
    rcases List.mem_append.1 hk' with hk' | hk'
    · simp only [List.mem_cons, List.not_mem_nil, or_false] at hk'
      rcases hk' with rfl | rfl | rfl
      · exact outcome_annotated_eq_none rfl (by decide) hk hmods htail
      · exact outcome_annotated_eq_none rfl (by decide) hk hmods htail
      · have himport : ∀ x ∈ modifierLexemes,
            refuses x statementParts (the .importDeclaration) = true := by decide
        exact outcome_of_refuses (isBlocked_statementParts _ ht) (himport _ ht) rfl []
    · -- another type begins with another word
      have hne : k' ≠ k := fun heq => by
        rw [heq] at hk'
        exact (List.nodup_append.1 hnodup).2.2 k hk' k List.mem_cons_self rfl
      have hk'' : k' ∈ typeKinds := by
        rw [hsplit]
        exact List.mem_append_left _ hk'
      have hrefuses : ∀ k ∈ typeKinds, ∀ k' ∈ typeKinds, k' ≠ k →
          refuses (introducer k) [] (afterModifiers k') = true := by decide
      exact outcome_the_eq_none (body_eq_both (isDeclaration_of_mem_typeKinds k' hk'')) hmods
        (outcome_of_refuses rfl (hrefuses k hk k' hk'' hne) hu [])

/-- The statements that are tried before declarations and do not begin with
modifiers. -/
def earlierStatements : List Rules × List Rules :=
  ([part .block, sym .semicolon, the .ifStatement, the .whileStatement, the .enhancedForStatement,
    the .forStatement, the .assertStatement, the .doStatement, the .breakStatement,
    the .continueStatement, the .returnStatement, the .yieldStatement],
   [the .throwStatement, the .tryStatement, the .tryWithResourcesStatement,
    both (the .switchExpression) (barring [
      .punct .question, .punct .dot, .word (some .instanceof_), .punct .lt, .punct .gt,
      .punct .le, .punct .ge, .punct .eq, .punct .ne, .punct .andAnd, .punct .orOr,
      .punct .star, .punct .slash, .punct .percent, .punct .amp, .punct .bar,
      .punct .caret, .punct .shl, .punct .shr, .punct .ushr ])])

theorem refuses_earlierStatements : ∀ x ∈ modifierLexemes,
    ∀ r ∈ earlierStatements.1 ++ earlierStatements.2, refuses x statementParts r = true := by
  intro x hx
  have hall : modifierLexemes.all (fun x => (earlierStatements.1 ++ earlierStatements.2).all
    (refuses x statementParts)) = true := by decide
  exact List.all_eq_true.1 (List.all_eq_true.1 hall x hx)

/-- A word that is both a modifier and the beginning of a statement is
followed by a bracket in the statement. -/
theorem derives_synchronized
    (h : Derives rules (the .synchronizedStatement) none ts nodes rest) :
    ∃ s s' us, ts = ⟨.word (some .synchronized_), s⟩ :: ⟨.punct .parenOpen, s'⟩ :: us := by
  obtain ⟨_, -, hbody⟩ := h.of_part.of_tree
  obtain ⟨_, _, _, -, hword, htail⟩ := hbody.of_both
  obtain ⟨s, rfl, -⟩ := hword.of_word
  obtain ⟨_, _, _, -, hpart, -⟩ := htail.of_both
  obtain ⟨_, -, hparens⟩ := hpart.of_part.of_part.of_tree
  obtain ⟨_, _, _, -, hopen, -⟩ := hparens.of_both
  obtain ⟨s', rfl, -⟩ := hopen.of_mark
  exact ⟨s, s', _, rfl⟩

/-- **A type is read where a file begins.** -/
theorem outcome_topLevel (hk : k ∈ typeKinds) (ht : t.lexeme ∈ modifierLexemes)
    (h : outcome (body k) [] (t :: ts) = some (nodes, rest)) :
    outcome (part .topLevel) [] (t :: ts) = some ([above (.named k) nodes], rest) := by
  have hsync : outcome (the .synchronizedStatement) [] (t :: ts) = none := by
    refine outcome_eq_none rfl fun _ _ hd => ?_
    obtain ⟨s, s', us, heq⟩ := derives_synchronized hd
    obtain ⟨rfl, rfl⟩ := List.cons.inj heq
    exact (second_notMem (isDeclaration_of_mem_typeKinds k hk) ht nofun h).1 rfl
  have hrefuses := refuses_earlierStatements _ ht
  have hstatement : outcome stmt [] (t :: ts) = some ([above (.named k) nodes], rest) := by
    show outcome (part .statement) [] (t :: ts) = _
    have halt : rules .statement = alt ((earlierStatements.1
        ++ the .synchronizedStatement :: earlierStatements.2) ++ part .declaration :: [
          the .labeledStatement, the .localVariableDeclaration, the .expressionStatement]) := rfl
    have hpaced : ((earlierStatements.1 ++ the .synchronizedStatement :: earlierStatements.2)
        ++ part .declaration :: [the .labeledStatement, the .localVariableDeclaration,
          the .expressionStatement]).all (isPaced isTaking) = true := rfl
    rw [outcome_part, halt]
    refine outcome_alt _ (List.all_eq_true.1 hpaced) (fun r hr => ?_) (outcome_declaration hk ht h)
    · rcases List.mem_append.1 hr with hr | hr
      · exact outcome_of_refuses (isBlocked_statementParts _ ht)
          (hrefuses r (List.mem_append_left _ hr)) rfl []
      · rcases List.mem_cons.1 hr with rfl | hr
        · exact hsync
        · exact outcome_of_refuses (isBlocked_statementParts _ ht)
            (hrefuses r (List.mem_append_right _ hr)) rfl []
  have hp : (either stmt (the .methodDeclaration)).isPaced isTaking = true := rfl
  rw [outcome_part]
  show outcome (either stmt (the .methodDeclaration)) [] (t :: ts) = _
  rw [outcome_either hp, hstatement, Option.some_or]

end Types

/-! ## Members -/

/-- The type of a member. -/
def memberType : Rules := field .type_ (part (.plainType .body))

/-- The parts that may come after the name of a type or of a variable. -/
def nameParts : List Part := [
  .typeArguments, .node .typeArguments, .dimensions, .node .dimensions, .annotations,
  .annotationAny, .node .annotationApplied, .node .annotationPlain, .declarators,
  .node .variableDeclarator, .declaratorId ]

/-- The brackets that come after the name of a constructor. -/
def afterName : List Lexeme := [.punct .parenOpen, .punct .braceOpen]

theorem isBlocked_nameParts : ∀ x ∈ afterName, isBlocked x nameParts = true := by decide

section Members

variable {k : Kind} {t p : Token} {ts us mid rest : List Token} {nodes : List Tree}
  {w : Option Keyword} {s : Span}

/-- What cannot begin with the token in front leaves it there. -/
theorem rest_eq_of_not_opens {rule : Rules} (hp : p.lexeme ∈ afterName)
    (ho : ∀ x ∈ afterName, rule.opens x isSilent (fun q => !nameParts.contains q) = false)
    {left : Option (List Tree)} (h : Derives rules rule left (p :: us) nodes rest) :
    rest = p :: us := by
  rcases opens_of_derives (isBlocked_nameParts _ hp) rfl h with ⟨-, hr, -⟩ | h
  · exact hr
  · rw [ho _ hp] at h
    cases h

/-- The primitive types. -/
def primitiveTypes : List Rules := [
  tree .integralType (alt [key .byte_, key .short_, key .int_, key .long_, key .char_]),
  tree .floatingPointType (either (key .float_) (key .double_)),
  word .boolean_ (.named .booleanType), word .void_ (.named .voidType) ]

/-- No primitive type is named by a word that can name a type. -/
theorem refuses_primitive (hw : ∀ k ∈ w, k ∉ Words.notTypeInBody) :
    ∀ r ∈ primitiveTypes, refuses (.word w) [] r = true := by
  have hall : primitiveTypes.all (refuses (.word w) []) = true := by
    cases w with
    | none => rfl
    | some k => cases k <;> first | rfl | exact absurd (by decide) (hw _ rfl)
  exact List.all_eq_true.1 hall

/-- **A name in front of a bracket is all there is of a type.** -/
theorem rest_of_memberType (hw : ∀ k ∈ w, k ∉ Words.notTypeInBody) (hp : p.lexeme ∈ afterName)
    (h : Derives rules memberType none (⟨.word w, s⟩ :: p :: us) nodes rest) :
    rest = p :: us := by
  obtain ⟨_, -, hpart⟩ := h.of_field
  have honto := hpart.of_part
  cases honto with
  | token hx => cases hx
  | @onto _ _ _ ns mid _ _ hsimple hstep =>
    have hmid : mid = p :: us := by
      obtain ⟨r, hr, hd⟩ := hsimple.of_part.of_alt (List.cons_ne_nil _ _)
      rcases List.mem_append.1 (show r ∈ primitiveTypes ++ [_] from hr) with hr | hr
      · exact absurd hd (not_derives_of_refuses rfl (refuses_primitive hw r hr) rfl)
      · obtain rfl := List.mem_singleton.1 hr
        cases hd with
        | token hx => cases hx
        | onto hname hsteps =>
          obtain ⟨_, _, heq, -⟩ := hname.of_name
          obtain ⟨-, rfl⟩ := List.cons.inj heq
          exact rest_eq_of_not_opens hp (by decide) hsteps
    subst hmid
    exact rest_eq_of_not_opens hp (by decide) hstep

/-- Neither declarators nor a name can be read where a name is over. -/
theorem not_derives_of_afterName {rule : Rules} (hp : p.lexeme ∈ afterName)
    (hr : ∀ x ∈ afterName, refuses x nameParts rule = true) :
    ¬ Derives rules rule none (p :: us) nodes rest :=
  not_derives_of_refuses (isBlocked_nameParts _ hp) (hr _ hp) rfl

/-- **A name in front of a bracket declares no variables.** -/
theorem not_derives_declarators (hp : p.lexeme ∈ afterName) :
    ¬ Derives rules (both (part .declarators) (sym .semicolon)) none
      (⟨.word w, s⟩ :: p :: us) nodes rest := by
  intro h
  obtain ⟨_, mid, _, -, hdecls, hend⟩ := h.of_both
  obtain ⟨_, mid₁, _, -, hfirst, hothers⟩ := hdecls.of_part.of_both
  obtain ⟨_, -, hvar⟩ := hfirst.of_field
  obtain ⟨_, -, hvar⟩ := hvar.of_part.of_tree
  obtain ⟨_, mid₂, _, -, hid, hvalue⟩ := hvar.of_both
  obtain ⟨_, mid₃, _, -, hname, hdims⟩ := hid.of_part.of_both
  have hmid₃ : mid₃ = p :: us := by
    obtain ⟨_, -, hname⟩ := hname.of_field
    rcases hname.of_either with h | h
    · obtain ⟨_, heq, -⟩ := h.of_word
      exact (List.cons.inj heq).2.symm
    · obtain ⟨_, _, heq, -⟩ := h.of_name
      exact (List.cons.inj heq).2.symm
  subst hmid₃
  obtain rfl : mid₂ = p :: us := rest_eq_of_not_opens hp (by decide) hdims
  obtain rfl : mid₁ = p :: us := rest_eq_of_not_opens hp (by decide) hvalue
  obtain rfl : mid = p :: us := rest_eq_of_not_opens hp (by decide) hothers
  exact not_derives_of_afterName hp (by decide) hend

/-- Formal parameters begin with a bracket. -/
theorem head_of_formalParameters {f : Field}
    (h : Derives rules (field f (part .formalParameters)) none ts nodes rest) :
    ∃ p us, ts = p :: us ∧ p.lexeme = .punct .parenOpen := by
  obtain ⟨_, -, hpart⟩ := h.of_field
  obtain ⟨_, -, hparens⟩ := hpart.of_part.of_part.of_tree
  obtain ⟨_, _, _, -, hopen, -⟩ := hparens.of_both
  obtain ⟨s, rfl, -⟩ := hopen.of_mark
  exact ⟨_, _, rfl, rfl⟩

/-- What has type parameters in front does not begin with a type. -/
theorem memberType_eq_none {x : List Tree × List Token}
    (h : outcome (field .typeParameters (the .typeParameters)) [] mid = some x) :
    outcome memberType [] mid = none := by
  have hd : Derives rules (field .typeParameters (the .typeParameters)) none mid x.1 x.2 :=
    derives_of_outcome rfl h
  obtain ⟨_, -, hpart⟩ := hd.of_field
  obtain ⟨_, -, hbody⟩ := hpart.of_part.of_tree
  obtain ⟨_, _, _, -, hopen, -⟩ := hbody.of_both
  obtain ⟨s, rfl, -⟩ := hopen.of_mark
  have hblocked : isBlocked (.punct .lt) (tailParts.take 2) = true := by decide
  exact outcome_of_refuses hblocked (by decide) rfl []

/-- What is no type, or goes on as no variables do after it, is no
field. -/
theorem field_eq_none (h : ∀ ns mid', outcome memberType [] mid = some (ns, mid') →
      ∀ nodes rest, ¬ Derives rules (both (part .declarators) (sym .semicolon)) none mid' nodes
        rest) :
    outcome (afterModifiers .fieldDeclaration) [] mid = none := by
  have hp : (both memberType (both (part .declarators) (sym .semicolon))).isPaced isTaking = true :=
    rfl
  show outcome (both memberType (both (part .declarators) (sym .semicolon))) [] mid = none
  cases htype : outcome memberType [] mid with
  | none => rw [outcome_both hp, htype, Option.bind_none]
  | some x =>
    exact outcome_both_eq_none hp htype (outcome_eq_none rfl (h x.1 x.2 htype))

/-- **A method is no field.** -/
theorem field_eq_none_of_method
    (h : outcome (afterModifiers .methodDeclaration) [] mid = some (nodes, rest)) :
    outcome (afterModifiers .fieldDeclaration) [] mid = none := by
  have hp : (afterModifiers .methodDeclaration).isPaced isTaking = true := rfl
  obtain ⟨ns, mid₁, ms, -, hopt, htype⟩ := (outcome_both_eq_some_iff hp).1 h
  obtain ⟨ns', mid₂, ms', -, htype, htail⟩ := (outcome_both_eq_some_iff rfl).1 htype
  -- after the type there are a name and a bracket
  obtain ⟨_, mid₃, _, -, hname, hd⟩ :=
    (derives_of_outcome rfl htail : Derives rules _ none mid₂ ms' rest).of_both
  obtain ⟨_, _, _, -, hparams, -⟩ := hd.of_both
  obtain ⟨p, us, rfl, hparen⟩ := head_of_formalParameters hparams
  obtain ⟨_, -, hname⟩ := hname.of_field
  obtain ⟨w, s, rfl, -⟩ := hname.of_name
  refine field_eq_none fun ns'' mid' htype' nodes rest hd => ?_
  rcases (outcome_either_eq_some_iff rfl).1 hopt with hparams | ⟨-, hnothing⟩
  · obtain ⟨_, _, _, -, hparams, -⟩ := (outcome_both_eq_some_iff rfl).1 hparams
    rw [memberType_eq_none hparams] at htype'
    cases htype'
  · rw [outcome_nothing] at hnothing
    cases hnothing
    have htype : outcome memberType [] mid = some (ns', ⟨.word w, s⟩ :: p :: us) := htype
    rw [htype] at htype'
    cases htype'
    exact not_derives_declarators (by rw [hparen]; exact List.mem_cons_self) hd

/-- **What comes after the modifiers of a constructor**: type parameters,
if there are any, a name and a bracket. -/
def BeginsConstructor (mid : List Token) : Prop :=
  ∃ ns w s p us, outcome typeParams? [] mid = some (ns, ⟨.word w, s⟩ :: p :: us)
    ∧ (∀ k ∈ w, k ∉ Words.notTypeInBody) ∧ p.lexeme ∈ afterName

theorem beginsConstructor_of_constructor
    (h : outcome (afterModifiers .constructorDeclaration) [] mid = some (nodes, rest)) :
    BeginsConstructor mid := by
  have hp : (afterModifiers .constructorDeclaration).isPaced isTaking = true := rfl
  obtain ⟨ns, mid₁, ms, -, hparams, htail⟩ := (outcome_both_eq_some_iff hp).1 h
  obtain ⟨_, mid₂, _, -, hname, hd⟩ :=
    (derives_of_outcome rfl htail : Derives rules _ none mid₁ ms rest).of_both
  obtain ⟨_, _, _, -, hformal, -⟩ := hd.of_both
  obtain ⟨p, us, rfl, hparen⟩ := head_of_formalParameters hformal
  obtain ⟨_, -, hname⟩ := hname.of_field
  obtain ⟨w, s, rfl, hw, -⟩ := hname.of_name
  exact ⟨ns, w, s, p, us, hparams, hw, by rw [hparen]; exact List.mem_cons_self⟩

/-- Before a word there are no type parameters to read. -/
theorem outcome_typeParams?_word (w : Option Keyword) (s : Span) (us : List Token) :
    outcome typeParams? [] (⟨.word w, s⟩ :: us) = some ([], ⟨.word w, s⟩ :: us) :=
  have hblocked : isBlocked (.word w) [.node .typeParameters] = true := rfl
  outcome_opt_of_refuses rfl hblocked rfl rfl []

/-- A constructor without parameters has a name and a brace. -/
theorem head_of_compact
    (h : outcome (afterModifiers .compactConstructorDeclaration) [] mid = some (nodes, rest)) :
    ∃ w s r us, mid = ⟨.word w, s⟩ :: ⟨.punct .braceOpen, r⟩ :: us
      ∧ ∀ k ∈ w, k ∉ Words.notTypeInBody := by
  have hd : Derives rules (afterModifiers .compactConstructorDeclaration) none mid nodes rest :=
    derives_of_outcome rfl h
  obtain ⟨_, mid₁, _, -, hname, hbody⟩ := hd.of_both
  obtain ⟨_, -, hpart⟩ := hbody.of_field
  obtain ⟨_, -, hbraces⟩ := hpart.of_part.of_part.of_tree
  obtain ⟨_, _, _, -, hopen, -⟩ := hbraces.of_both
  obtain ⟨r, rfl, -⟩ := hopen.of_mark
  obtain ⟨_, -, hname⟩ := hname.of_field
  obtain ⟨w, s, rfl, hw, -⟩ := hname.of_name
  exact ⟨w, s, r, _, rfl, hw⟩

theorem beginsConstructor_of_compact
    (h : outcome (afterModifiers .compactConstructorDeclaration) [] mid = some (nodes, rest)) :
    BeginsConstructor mid := by
  obtain ⟨w, s, r, us, rfl, hw⟩ := head_of_compact h
  exact ⟨[], w, s, _, us, outcome_typeParams?_word w s _, hw,
    List.mem_cons_of_mem _ List.mem_cons_self⟩

/-- **A constructor without parameters is not read with them.** -/
theorem constructor_eq_none_of_compact
    (h : outcome (afterModifiers .compactConstructorDeclaration) [] mid = some (nodes, rest)) :
    outcome (afterModifiers .constructorDeclaration) [] mid = none := by
  obtain ⟨w, s, r, us, rfl, -⟩ := head_of_compact h
  have hp : (afterModifiers .constructorDeclaration).isPaced isTaking = true := rfl
  refine outcome_both_eq_none hp (outcome_typeParams?_word w s _)
    (outcome_eq_none rfl fun _ _ hd => ?_)
  obtain ⟨_, mid', _, -, hname, htail⟩ := hd.of_both
  obtain ⟨_, -, hname⟩ := hname.of_field
  obtain ⟨_, _, heq, -⟩ := hname.of_name
  obtain ⟨-, rfl⟩ := List.cons.inj heq
  obtain ⟨_, _, _, -, hformal, -⟩ := htail.of_both
  obtain ⟨p, vs, heq, hp⟩ := head_of_formalParameters hformal
  obtain ⟨rfl, -⟩ := List.cons.inj heq
  cases hp

/-- **A constructor is no field.** -/
theorem BeginsConstructor.field_eq_none (h : BeginsConstructor mid) :
    outcome (afterModifiers .fieldDeclaration) [] mid = none := by
  obtain ⟨ns, w, s, p, us, hparams, hw, hp⟩ := h
  refine JavaMutants.field_eq_none fun ns' mid' htype nodes rest hd => ?_
  rcases (outcome_either_eq_some_iff rfl).1 hparams with hparams | ⟨-, hnothing⟩
  · rw [memberType_eq_none hparams] at htype
    cases htype
  · rw [outcome_nothing] at hnothing
    cases hnothing
    obtain rfl := rest_of_memberType hw hp (derives_of_outcome rfl htype)
    obtain ⟨_, _, _, -, hdecls, -⟩ := hd.of_both
    exact not_derives_of_afterName hp (by decide) hdecls

/-- The type parameters of a constructor are those that a method would
have. -/
theorem outcome_methodParams {ns : List Tree} {mid' : List Token}
    (h : outcome typeParams? [] mid = some (ns, mid'))
    (hann : outcome (part .annotations) [] mid' = some ([], mid')) :
    ∃ ms, outcome (opt (both (field .typeParameters (the .typeParameters)) (part .annotations)))
      [] mid = some (ms, mid') := by
  have hpb : (both (field .typeParameters (the .typeParameters))
    (part Part.annotations)).isPaced isTaking = true := rfl
  have hpo : (either (both (field .typeParameters (the .typeParameters))
    (part Part.annotations)) nothing).isPaced isTaking = true := rfl
  rcases (outcome_either_eq_some_iff rfl).1 h with h | ⟨hnone, h⟩
  · exact ⟨_, (outcome_either_eq_some_iff hpo).2
      (.inl ((outcome_both_eq_some_iff hpb).2 ⟨ns, mid', [], rfl, h, hann⟩))⟩
  · refine ⟨ns, (outcome_either_eq_some_iff hpo).2 (.inr ⟨?_, h⟩)⟩
    rw [outcome_both hpb, hnone, Option.bind_none]

/-- **A constructor is no method.** -/
theorem BeginsConstructor.method_eq_none (h : BeginsConstructor mid) :
    outcome (afterModifiers .methodDeclaration) [] mid = none := by
  obtain ⟨ns, w, s, p, us, hparams, hw, hp⟩ := h
  have hann : outcome (part .annotations) [] (⟨.word w, s⟩ :: p :: us)
      = some ([], ⟨.word w, s⟩ :: p :: us) := by
    have hpm : (many (part Part.annotationAny)).isPaced isTaking = true := rfl
    have hblocked : isBlocked (.word w) [.annotationAny, .node .annotationApplied,
      .node .annotationPlain] = true := rfl
    have hnone : outcome (part .annotationAny) [] (⟨.word w, s⟩ :: p :: us) = none :=
      outcome_of_refuses hblocked rfl rfl []
    rw [outcome_part]
    show outcome (many (part .annotationAny)) [] _ = _
    rw [outcome_many hpm, hnone, Option.bind_none, Option.none_or]
  obtain ⟨ms, hopt⟩ := outcome_methodParams hparams hann
  have hpm : (afterModifiers .methodDeclaration).isPaced isTaking = true := rfl
  refine outcome_both_eq_none hpm hopt (outcome_eq_none rfl fun _ _ hd => ?_)
  -- the name would be a type, and a name would have to follow
  obtain ⟨_, mid', _, -, htype, htail⟩ := hd.of_both
  obtain rfl := rest_of_memberType hw hp htype
  obtain ⟨_, _, _, -, hname, -⟩ := htail.of_both
  exact not_derives_of_afterName hp (by decide) hname

/-- **A constructor is no type.** -/
theorem BeginsConstructor.type_eq_none (h : BeginsConstructor mid) {k : Kind}
    (hk : k ∈ typeKinds) : outcome (afterModifiers k) [] mid = none := by
  obtain ⟨ns, w, s, p, us, hparams, hw, -⟩ := h
  refine Option.eq_none_iff_forall_ne_some.2 fun ⟨nodes, rest⟩ hy => ?_
  obtain ⟨u, vs, rfl, hu⟩ := head_of_type hk hy
  rcases (outcome_either_eq_some_iff rfl).1 hparams with hparams | ⟨-, hnothing⟩
  · have hrefuses : ∀ k ∈ typeKinds, refuses (introducer k) [.node .typeParameters]
        (field .typeParameters (the .typeParameters)) = true := by decide
    have hblocked : ∀ k ∈ typeKinds,
        isBlocked (introducer k) [.node .typeParameters] = true := by decide
    rw [outcome_of_refuses (hblocked k hk) (hrefuses k hk) hu] at hparams
    cases hparams
  · rw [outcome_nothing] at hnothing
    cases hnothing
    have hword : ∀ k ∈ typeKinds, ∀ w, introducer k = .word w →
        ∃ k' ∈ w, k' ∈ Words.notTypeInBody := by
      intro k hk
      simp only [typeKinds, List.mem_cons, List.not_mem_nil, or_false] at hk
      rcases hk with rfl | rfl | rfl | rfl | rfl <;> rintro w ⟨⟩ <;> exact ⟨_, rfl, by decide⟩
    obtain ⟨k', hk', hmem⟩ := hword k hk w hu.symm
    exact hw k' hk' hmem

/-- The word that begins an initializer is followed by a brace. -/
theorem derives_staticInitializer
    (h : Derives rules (the .staticInitializer) none ts nodes rest) :
    ∃ s s' us, ts = ⟨.word (some .static_), s⟩ :: ⟨.punct .braceOpen, s'⟩ :: us := by
  obtain ⟨_, -, hbody⟩ := h.of_part.of_tree
  obtain ⟨_, _, _, -, hword, hblock⟩ := hbody.of_both
  obtain ⟨s, rfl, -⟩ := hword.of_word
  obtain ⟨_, -, hbraces⟩ := hblock.of_part.of_part.of_tree
  obtain ⟨_, _, _, -, hopen, -⟩ := hbraces.of_both
  obtain ⟨s', rfl, -⟩ := hopen.of_mark
  exact ⟨s, s', _, rfl⟩

/-- The types among members, as they are tried. -/
def memberTypes : List Kind := [
  .classDeclaration, .interfaceDeclaration, .annotationTypeDeclaration, .enumDeclaration,
  .recordDeclaration ]

/-- The members that are tried before constructors. -/
def earlierMembers : List Rules :=
  [the .fieldDeclaration, the .methodDeclaration] ++ memberTypes.map the
    ++ [part .block, the .staticInitializer]

/-- **Nothing that is tried before constructors can be read** where one
begins. -/
theorem earlierMembers_eq_none (hk : isDeclaration k = true) (ht : t.lexeme ∈ modifierLexemes)
    (h : outcome (body k) [] (t :: ts) = some (nodes, rest)) {ns : List Tree}
    (hmods : outcome (part .modifiers) [] (t :: ts) = some (ns, mid))
    (hbegins : BeginsConstructor mid) :
    ∀ r ∈ earlierMembers, outcome r [] (t :: ts) = none := by
  intro r hr
  rcases List.mem_append.1 hr with hr | hr
  · rcases List.mem_append.1 hr with hr | hr
    · simp only [List.mem_cons, List.not_mem_nil, or_false] at hr
      rcases hr with rfl | rfl
      · exact outcome_the_eq_none rfl hmods hbegins.field_eq_none
      · exact outcome_the_eq_none rfl hmods hbegins.method_eq_none
    · obtain ⟨k', hk', rfl⟩ := List.mem_map.1 hr
      have hsub : ∀ k ∈ memberTypes, k ∈ typeKinds := by decide
      have hk' := hsub k' hk'
      exact outcome_the_eq_none (body_eq_both (isDeclaration_of_mem_typeKinds k' hk')) hmods
        (hbegins.type_eq_none hk')
  · simp only [List.mem_cons, List.not_mem_nil, or_false] at hr
    rcases hr with rfl | rfl
    · exact outcome_of_refuses (isBlocked_statementParts _ ht)
        (refuses_earlierStatements _ ht _ List.mem_cons_self) rfl []
    · refine outcome_eq_none rfl fun _ _ hd => ?_
      obtain ⟨s, s', us, heq⟩ := derives_staticInitializer hd
      obtain ⟨rfl, rfl⟩ := List.cons.inj heq
      exact (second_notMem hk ht nofun h).2 rfl

/-- **A method or a constructor is read among the members of a class.** -/
theorem outcome_member (hk : isDeclaration k = true) (htype : k ∉ typeKinds)
    (ht : t.lexeme ∈ modifierLexemes)
    (h : outcome (body k) [] (t :: ts) = some (nodes, rest)) :
    outcome (part .member) [] (t :: ts) = some ([above (.named k) nodes], rest) := by
  obtain ⟨ns, mid, ms, hmods, htail⟩ := exists_modifiers hk ht h
  have hpaced : ∀ r ∈ earlierMembers ++ [the .constructorDeclaration,
      the .compactConstructorDeclaration, sym .semicolon], r.isPaced isTaking = true :=
    List.all_eq_true.1 rfl
  have hcases : k = .methodDeclaration ∨ k = .constructorDeclaration
      ∨ k = .compactConstructorDeclaration := by
    cases k with
    | methodDeclaration => exact .inl rfl
    | constructorDeclaration => exact .inr (.inl rfl)
    | compactConstructorDeclaration => exact .inr (.inr rfl)
    | classDeclaration | interfaceDeclaration | enumDeclaration | recordDeclaration
    | annotationTypeDeclaration => exact absurd (by decide) htype
    | _ => cases hk
  rw [outcome_part]
  rcases hcases with rfl | rfl | rfl
  · exact outcome_alt [the .fieldDeclaration] hpaced (fun r hr => by
      rw [List.mem_singleton.1 hr]
      exact outcome_the_eq_none rfl hmods (field_eq_none_of_method htail)) (outcome_the h)
  · exact outcome_alt earlierMembers hpaced
      (earlierMembers_eq_none hk ht h hmods (beginsConstructor_of_constructor htail))
      (outcome_the h)
  · refine outcome_alt (earlierMembers ++ [the .constructorDeclaration]) hpaced
      (fun r hr => ?_) (outcome_the h)
    rcases List.mem_append.1 hr with hr | hr
    · exact earlierMembers_eq_none hk ht h hmods (beginsConstructor_of_compact htail) r hr
    · rw [List.mem_singleton.1 hr]
      exact outcome_the_eq_none rfl hmods (constructor_eq_none_of_compact htail)

end Members

end JavaMutants
