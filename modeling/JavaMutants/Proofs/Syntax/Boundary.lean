import JavaMutants.Proofs.Syntax.Ending
import JavaMutants.Proofs.Syntax.Grammar
import JavaMutants.Proofs.Syntax.Opening

/-!
# Beginnings and ends in the grammar

What the analyses of beginnings and ends say of the grammar. Parts that
cannot begin with a lexeme are given as a list that is closed: the rules
of its parts begin with others of the list only (`isBlocked`). The same
is done for the parts that always end in a semicolon or a closing brace
(`closedParts`), which a whole program does (`endsIn_program`).
-/

namespace JavaMutants.Syntax.Grammar

open Rule Syntax.Tree

/-! ## Beginnings -/

/-- The parts that can be nothing. -/
def isSilent (p : Part) : Bool := p == .annotations

theorem isSilent_of_passes (x : Lexeme) (p : Part)
    (h : (rules p).passes x isSilent = true) : isSilent p = true := by
  have h' := forall_part (fun p => isSilent p || !(rules p).passes x isSilent)
    (fun k => by cases k <;> rfl) (by rfl) (fun l n => by rw [rules_binary_high]; rfl) p
  simpa [h] using h'

/-- **Whether no rule of some parts can begin with a lexeme**, which the
list of the parts shows by itself. -/
def isBlocked (x : Lexeme) (blocked : List Part) : Bool :=
  blocked.all fun p => !(rules p).opens x isSilent fun q => !blocked.contains q

/-- **A rule reads nothing or begins with the token in front**, and does
not begin with a blocked part. -/
theorem opens_of_derives {x : Lexeme} {blocked : List Part} (hb : isBlocked x blocked = true)
    {rule : Rules} {t : Token} (ht : t.lexeme = x) {left : Option (List Tree)}
    {ts rest : List Token} {nodes : List Tree}
    (h : Derives rules rule left (t :: ts) nodes rest) :
    (nodes = left.getD [] ∧ rest = t :: ts ∧ rule.passes x isSilent = true)
      ∨ rule.opens x isSilent (fun q => !blocked.contains q) = true := by
  refine h.opens (isSilent_of_passes x) (fun p hp => ?_) rfl ht
  by_contra hmem
  have hmem : p ∈ blocked := by simpa using hmem
  have hclosed := List.all_eq_true.1 hb p hmem
  rw [hp] at hclosed
  cases hclosed

/-- **Of several rules one is read**, if the others can neither be nothing
nor begin with the token in front. -/
theorem derives_of_alt {x : Lexeme} {blocked : List Part} (hb : isBlocked x blocked = true)
    {rs : List Rules} {r : Rules}
    (hr : rs.filter (fun r => r.passes x isSilent
      || r.opens x isSilent fun q => !blocked.contains q) = [r])
    {t : Token} (ht : t.lexeme = x) {ts rest : List Token} {nodes : List Tree}
    (h : Derives rules (alt rs) none (t :: ts) nodes rest) :
    Derives rules r none (t :: ts) nodes rest := by
  have hne : rs ≠ [] := by
    rintro rfl
    cases hr
  obtain ⟨r', hr', h'⟩ := h.of_alt hne
  have hmem : r' ∈ [r] := by
    rw [← hr]
    refine List.mem_filter.2 ⟨hr', Bool.or_eq_true_iff.2 ?_⟩
    rcases opens_of_derives hb ht h' with ⟨-, -, hp⟩ | ho
    · exact .inl hp
    · exact .inr ho
  rwa [List.mem_singleton.1 hmem] at h'

/-! ## Fields -/

/-- No part gives a node that is known as a condition or as a body. -/
theorem knows_rules {f : Field} (hf : f = .condition ∨ f = .body) (p : Part) :
    (rules p).knows f (fun _ => false) = false := by
  rcases hf with rfl | rfl
  · have h := forall_part (fun p => !(rules p).knows .condition fun _ => false)
      (fun k => rfl) (by rfl) (fun l n => by rw [rules_binary_high]) p
    simpa using h
  · have h := forall_part (fun p => !(rules p).knows .body fun _ => false)
      (fun k => rfl) (by rfl) (fun l n => by rw [rules_binary_high]) p
    simpa using h

/-- **What is derived is known as a condition or as a body only if the
rule says so itself.** -/
theorem field_ne_of_derives {f : Field} (hf : f = .condition ∨ f = .body) {rule : Rules}
    (hr : rule.knows f (fun _ => false) = false) {ts rest : List Token} {nodes : List Tree}
    (h : Derives rules rule none ts nodes rest) : ∀ n ∈ nodes, n.field ≠ some f :=
  h.knows (fun p hp => (knows_rules hf p).symm.trans hp) hr nofun

/-! ## Ends -/

/-- The labels that statements and declarations end in. -/
def isStop (l : Label) : Bool := l == .punct .semicolon || l == .punct .braceClose

/-- **The parts that end in a semicolon or a brace.** -/
def closedParts : List Part :=
  [Part.topLevel, .statement, .declaration, .block, .classBody] ++ [
    Kind.block, .ifStatement, .whileStatement, .enhancedForStatement, .forStatement,
    .assertStatement, .doStatement, .breakStatement, .continueStatement, .returnStatement,
    .yieldStatement, .synchronizedStatement, .throwStatement, .tryStatement, .catchClause,
    .finallyClause, .tryWithResourcesStatement, .switchExpression, .switchBlock,
    .labeledStatement, .localVariableDeclaration, .expressionStatement, .moduleDeclaration,
    .moduleBody, .packageDeclaration, .importDeclaration, .classDeclaration, .classBody,
    .recordDeclaration, .interfaceDeclaration, .interfaceBody, .annotationTypeDeclaration,
    .annotationTypeBody, .enumDeclaration, .enumBody, .methodDeclaration ].map Part.node

theorem trails_of_mem_closedParts (p : Part) (h : closedParts.contains p = true) :
    (rules p).trails isStop closedParts.contains count = true := by
  have hall : closedParts.all
      (fun p => (rules p).trails isStop closedParts.contains count) = true := by decide
  exact List.all_eq_true.1 hall p (by simpa using h)

/-- **A program ends in a semicolon or a brace.** -/
theorem endsIn_program {ts rest : List Token} {nodes : List Tree}
    (h : Derives rules (body .program) none ts nodes rest) : EndsIn isStop nodes :=
  h.trails trails_of_mem_closedParts count_le (by decide) (endsIn_nil isStop)

end JavaMutants.Syntax.Grammar
