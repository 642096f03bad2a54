import JavaMutants.Proofs.Fragment.Enclosure
import JavaMutants.Proofs.Syntax.Comment

/-!
# The tree of an enclosed member

A text in the body of a class that is put around it is parsed to that
class first, whatever the text is: its name and its opening brace are
those that were put in front (`derives_around`).
-/

namespace JavaMutants.Syntax

open Text Syntax.Tree Grammar Rule

/-! ## The class -/

/-- The body of the class, as it was put around some nodes and ended. -/
def bodyAround (members : List Tree) (close : Span) : Tree :=
  (above (.named .classBody) (tokenLeaf (.punct .braceOpen) ⟨17, 18⟩
    :: (members ++ [tokenLeaf (.punct .braceClose) close]))).withField (some .body)

/-- The class around some nodes. -/
def classAround (members : List Tree) (close : Span) : Tree :=
  above (.named .classDeclaration) [tokenLeaf (.keyword .class_) ⟨0, 5⟩,
    (tokenLeaf (.named .identifier) ⟨6, 16⟩).withField (some .name), bodyAround members close]

/-- The tokens that are put in front of a member. -/
def opening (ts : List Token) : List Token :=
  ⟨.word (some .class_), ⟨0, 5⟩⟩ :: ⟨.word none, ⟨6, 16⟩⟩ :: ⟨.punct .braceOpen, ⟨17, 18⟩⟩ :: ts

/-- The parts that do not begin with the word `class`. -/
def notClass : List Part :=
  [Part.block, .modifiers, .annotations, .annotationAny, .plainType .statement,
    .simpleType .statement, .plainType .body, .simpleType .body] ++ [
    Kind.block, .ifStatement, .whileStatement, .enhancedForStatement, .forStatement,
    .assertStatement, .doStatement, .breakStatement, .continueStatement, .returnStatement,
    .yieldStatement, .synchronizedStatement, .throwStatement, .tryStatement,
    .tryWithResourcesStatement, .switchExpression, .labeledStatement,
    .localVariableDeclaration, .expressionStatement, .moduleDeclaration, .packageDeclaration,
    .importDeclaration, .recordDeclaration, .interfaceDeclaration,
    .annotationTypeDeclaration, .enumDeclaration, .methodDeclaration, .annotationApplied,
    .annotationPlain, .typeParameters].map Part.node

/-- What may come between the name of a class and its body. -/
def notBrace : List Part :=
  [Kind.typeParameters, .superclass, .superInterfaces, .permits].map Part.node

theorem isBlocked_notClass : isBlocked (.word (some .class_)) notClass = true := by decide

theorem isBlocked_notBrace : isBlocked (.punct .braceOpen) notBrace = true := by decide

section Derivations

variable {ts rest : List Token} {nodes : List Tree}

/-- What is optional and does not begin with the token in front is left
out. -/
theorem nothing_of_opt {x : Lexeme} {blocked : List Part} (hb : isBlocked x blocked = true)
    {r : Rules} (hr : [r, nothing].filter (fun r => r.passes x isSilent
      || r.opens x isSilent fun q => !blocked.contains q) = [nothing])
    {t : Token} (ht : t.lexeme = x) (h : Derives rules (opt r) none (t :: ts) nodes rest) :
    nodes = [] ∧ rest = t :: ts :=
  (derives_of_alt hb hr ht h).of_nothing

/-- **What comes first is a class.** -/
theorem derives_class (h : Derives rules (part .topLevel) none (opening ts) nodes rest) :
    ∃ cs, nodes = [above (.named .classDeclaration) cs]
      ∧ Derives rules (body .classDeclaration) none (opening ts) cs rest := by
  have htop : Derives rules (alt [stmt, the .methodDeclaration]) none (opening ts) nodes rest :=
    h.of_part
  have hstmt : Derives rules stmt none (opening ts) nodes rest :=
    derives_of_alt isBlocked_notClass rfl rfl htop
  have hdecl : Derives rules (part .declaration) none (opening ts) nodes rest :=
    derives_of_alt isBlocked_notClass rfl rfl hstmt.of_part
  have hclass : Derives rules (the .classDeclaration) none (opening ts) nodes rest :=
    derives_of_alt isBlocked_notClass rfl rfl hdecl.of_part
  exact hclass.of_part.of_tree

/-- **The class has the name and the brace that were put in front.** -/
theorem derives_bodyAround (h : Derives rules (body .classDeclaration) none (opening ts) nodes rest) :
    ∃ members close, nodes = (classAround members close).children
      ∧ Derives rules (many (part .member)) none ts members (⟨.punct .braceClose, close⟩ :: rest) := by
  obtain ⟨_, _, _, rfl, hmods, h⟩ := h.of_both
  obtain ⟨rfl, rfl⟩ := nothing_of_opt isBlocked_notClass rfl rfl hmods
  obtain ⟨_, _, _, rfl, hclass, h⟩ := h.of_both
  obtain ⟨_, hts, rfl⟩ := hclass.of_word
  cases hts
  obtain ⟨_, _, _, rfl, hname, h⟩ := h.of_both
  obtain ⟨_, rfl, hword⟩ := hname.of_field
  obtain ⟨_, _, hts, -, rfl⟩ := hword.of_name
  cases hts
  -- nothing stands between the name and the brace
  obtain ⟨_, _, _, rfl, hparams, h⟩ := h.of_both
  obtain ⟨rfl, rfl⟩ := nothing_of_opt isBlocked_notBrace rfl rfl hparams
  obtain ⟨_, _, _, rfl, hsuper, h⟩ := h.of_both
  obtain ⟨rfl, rfl⟩ := nothing_of_opt isBlocked_notBrace rfl rfl hsuper
  obtain ⟨_, _, _, rfl, hinterfaces, h⟩ := h.of_both
  obtain ⟨rfl, rfl⟩ := nothing_of_opt isBlocked_notBrace rfl rfl hinterfaces
  obtain ⟨_, _, _, rfl, hpermits, h⟩ := h.of_both
  obtain ⟨rfl, rfl⟩ := nothing_of_opt isBlocked_notBrace rfl rfl hpermits
  obtain ⟨_, rfl, hpart⟩ := h.of_field
  obtain ⟨_, rfl, hbody⟩ := hpart.of_part.of_part.of_tree
  obtain ⟨_, _, _, rfl, hopen, hinner⟩ := hbody.of_both
  obtain ⟨_, hts, rfl⟩ := hopen.of_mark
  cases hts
  obtain ⟨members, _, _, rfl, hmembers, hclose⟩ := hinner.of_both
  obtain ⟨close, rfl, rfl⟩ := hclose.of_mark
  exact ⟨members, close, rfl, hmembers⟩

/-- **A program that begins with the class consists of it and what comes
after.** -/
theorem derives_around (h : Derives rules (body .program) none (opening ts) nodes []) :
    ∃ members close others mid fin, nodes = classAround members close :: others
      ∧ Derives rules (many (part .member)) none ts members (⟨.punct .braceClose, close⟩ :: mid)
      ∧ Derives rules (many (part .topLevel)) none mid others [⟨.finish, fin⟩] := by
  obtain ⟨_, _, _, rfl, htops, hfinish⟩ := h.of_both
  obtain ⟨rfl, fin, rfl⟩ := hfinish.of_finish
  rcases htops.of_many with ⟨-, hts⟩ | ⟨_, mid, others, rfl, htop, hothers⟩
  · cases hts
  · obtain ⟨cs, rfl, hclass⟩ := derives_class htop
    obtain ⟨members, close, rfl, hmembers⟩ := derives_bodyAround hclass
    exact ⟨members, close, others, mid, fin, by rw [List.append_nil]; rfl, hmembers, hothers⟩

end Derivations

/-! ## Leaves -/

/-- The leaves of what comes after the opening brace. -/
theorem takes_inner {ts mid : List Token} {members others : List Tree} {close fin : Span}
    (hm : Derives rules (many (part .member)) none ts members (⟨.punct .braceClose, close⟩ :: mid))
    (ho : Derives rules (many (part .topLevel)) none mid others [⟨.finish, fin⟩]) :
    Takes ts (leavesAll (members ++ tokenLeaf (.punct .braceClose) close :: others))
      [⟨.finish, fin⟩] := by
  obtain ⟨ls, hls, hmembers⟩ := hm.takes count_le isRegular_rules rfl
  obtain ⟨ks, hks, hothers⟩ := ho.takes count_le isRegular_rules rfl
  have hclose : Takes (⟨.punct .braceClose, close⟩ :: mid)
      ((leafLabel (.punct .braceClose) close, close) :: ks) [⟨.finish, fin⟩] := .token rfl hks
  have hall := hls.append hclose
  rw [leavesAll_append, leavesAll_cons, hmembers, hothers]
  exact hall

/-- The leaves of the class and of what comes after it. -/
theorem leavesAll_classAround (members others : List Tree) (close : Span) :
    leavesAll (classAround members close :: others)
      = (.keyword .class_, ⟨0, 5⟩) :: (.named .identifier, ⟨6, 16⟩)
        :: (.punct .braceOpen, ⟨17, 18⟩)
        :: leavesAll (members ++ tokenLeaf (.punct .braceClose) close :: others) := by
  have hbody : (bodyAround members close).leaves = (.punct .braceOpen, ⟨17, 18⟩)
      :: leavesAll (members ++ [tokenLeaf (.punct .braceClose) close]) := by
    unfold bodyAround
    rw [leaves_withField, leaves_above (List.cons_ne_nil _ _), leavesAll_cons]
    rfl
  have hclass : (classAround members close).leaves = (.keyword .class_, ⟨0, 5⟩)
      :: (.named .identifier, ⟨6, 16⟩) :: (bodyAround members close).leaves := by
    unfold classAround
    rw [leaves_above (List.cons_ne_nil _ _), leavesAll_cons, leavesAll_cons, leavesAll_cons,
      leavesAll_nil, leaves_withField, List.append_nil]
    rfl
  rw [leavesAll_cons, hclass, hbody]
  simp only [leavesAll_append, leavesAll_cons, leavesAll_nil, List.cons_append, List.append_nil,
    List.append_assoc]

/-! ## Sound enclosed texts -/

/-- A member with the class around it. -/
def around (span : String) : String := Fragment.before ++ span ++ Fragment.after

theorem toList_around (span : String) :
    (around span).toList = (Fragment.before.toList ++ span.toList) ++ closing := by
  unfold around
  rw [String.toList_append, String.toList_append]
  rfl

theorem byteLength_before (span : String) :
    byteLength (Fragment.before.toList ++ span.toList) = 19 + size span := by
  rw [byteLength_append]
  rfl

/-- The labels of what is put in front of a member. -/
def isOpening (l : Label) : Bool :=
  l == .keyword .class_ || l == .named .identifier || l == .punct .braceOpen

/-- **What an enclosed member of some size is parsed to**: the class that
was put around it, and what comes after. All leaves lie in the member but
those of the class. -/
structure Enclosed (n : Nat) (tree : Tree) (members others : List Tree) (close : Span) :
    Prop where
  /-- The class comes first. -/
  shape : bareAll tree.children = classAround members close :: others
  /-- What comes after its opening brace does not begin before the member. -/
  inner : ∀ x ∈ leavesAll (members ++ tokenLeaf (.punct .braceClose) close :: others),
    19 ≤ x.2.start
  /-- No other leaf begins before it. -/
  start : ∀ x ∈ leavesAll (bareAll tree.children), 19 ≤ x.2.start ∨ isOpening x.1 = true
  /-- No leaf ends after it but the closing brace. -/
  stop : ∀ x ∈ leavesAll (bareAll tree.children), x.2.stop ≤ 19 + n
    ∨ x = (.punct .braceClose, ⟨20 + n, 21 + n⟩)
  /-- Comments lie in it. -/
  comments : ∀ c ∈ tree.children, ∀ m ∈ c.preorder, m.isComment = true →
    19 ≤ m.start ∧ m.stop ≤ 19 + n
  /-- Nothing is known as a body. -/
  fields : ∀ c ∈ members ++ others, c.field ≠ some .body

/-- Only the brace stands for the brace. -/
theorem leaf_of_brace {s : Span} {label : Label}
    (hl : (Lexeme.punct .braceClose).standsAs label = true) (hs : s.start < s.stop) :
    leafLabel label s = .punct .braceClose := by
  rw [leafLabel_eq hs]
  cases label with
  | punct p => rw [← beq_iff_eq.1 hl]
  | _ => cases hl

section Sound

variable {span : String} {tree : Tree}

theorem head?_around (span : String) : (around span).toList.head? ≠ some '\ufeff' := by
  rw [toList_around, List.append_assoc]
  show some 'c' ≠ some '\ufeff'
  decide

/-- **The tokens of an enclosed member** are those in front and others that
do not begin before it. -/
theorem IsParse.tokens_around (h : IsParse (around span) tree) :
    ∃ us : List Token, Token.code (around span).toList = opening (us.filter fun t => !t.isComment)
      ∧ Token.comments (around span).toList = us.filter Token.isComment
      ∧ ∀ t ∈ us, 19 ≤ t.span.start := by
  have hscans := h.scans (head?_around span)
  rw [toList_around, List.append_assoc] at hscans
  obtain ⟨us, hus, hstarts⟩ := Token.scans_enclosed hscans
  rw [← List.append_assoc, ← toList_around] at hus
  refine ⟨us, ?_, ?_, hstarts⟩
  · rw [Token.code, hus]
    rfl
  · rw [Token.comments, hus]
    rfl

theorem IsParse.stop_around (h : IsParse (around span) tree) {t : Token}
    (ht : t ∈ Token.scan (around span).toList) (hfin : t.lexeme ≠ .finish) :
    t.span.stop ≤ 19 + size span
      ∨ t = ⟨.punct .braceClose, ⟨20 + size span, 21 + size span⟩⟩ := by
  have hstop := h.stop_of_mem_scan (toList_around span) (head?_around span) ht hfin
  rw [byteLength_before] at hstop
  convert hstop using 4 <;> omega

/-- No leaf of the code ends after an enclosed member but the brace. -/
theorem IsParse.stop_leaf_around (h : IsParse (around span) tree) {x : Label × Span}
    (hx : x ∈ leavesAll (bareAll tree.children)) :
    x.2.stop ≤ 19 + size span
      ∨ x = (.punct .braceClose, ⟨20 + size span, 21 + size span⟩) := by
  obtain ⟨u, hu, -, hxu, hcase⟩ := h.takes.exists_token hx
  have hfin : u.lexeme ≠ .finish := by
    rcases hcase with ⟨l, hl, -⟩ | ⟨p, q, hp, -⟩
    · intro hf
      rw [hf] at hl
      cases hl
    · rw [hp]
      nofun
  rcases h.stop_around (List.mem_filter.1 hu).1 hfin with hle | rfl
  · exact .inl (Nat.le_trans hxu hle)
  · rcases hcase with ⟨l, hl, rfl⟩ | ⟨p, q, hp, hq⟩
    · rw [leaf_of_brace hl (Nat.add_lt_add_right (by decide) _)]
      exact .inr rfl
    · cases hp
      cases hq

/-- A comment of an enclosed member lies in it. -/
theorem IsParse.comment_around (h : IsParse (around span) tree) {t : Token}
    (ht : t ∈ Token.comments (around span).toList) :
    19 ≤ t.span.start ∧ t.span.stop ≤ 19 + size span := by
  have hcomment := Token.isComment_of_mem_comments _ t ht
  constructor
  · obtain ⟨us, -, hcomments, hstarts⟩ := h.tokens_around
    rw [hcomments] at ht
    exact hstarts t (List.mem_filter.1 ht).1
  · have hfin : t.lexeme ≠ .finish := by
      intro hf
      simp [Token.isComment, hf] at hcomment
    rcases h.stop_around (List.mem_filter.1 ht).1 hfin with hle | rfl
    · exact hle
    · cases hcomment

/-- **An enclosed member that is sound is parsed to the class around it.** -/
theorem IsParse.enclosed (h : IsParse (around span) tree) :
    ∃ members others close, Enclosed (size span) tree members others close := by
  obtain ⟨us, hcode, -, hstarts⟩ := h.tokens_around
  have hderives := h.derives
  rw [hcode] at hderives
  obtain ⟨members, close, others, mid, fin, hshape, hmembers, hothers⟩ :=
    derives_around hderives
  have hinner : ∀ x ∈ leavesAll (members ++ tokenLeaf (.punct .braceClose) close :: others),
      19 ≤ x.2.start := by
    intro x hx
    obtain ⟨t, ht, hle, -⟩ := (takes_inner hmembers hothers).exists_token hx
    exact Nat.le_trans (hstarts t (List.mem_filter.1 ht).1) hle
  refine ⟨members, others, close, hshape, hinner, fun x hx => ?_,
    fun x hx => h.stop_leaf_around hx, fun c hc m hm hcomment => ?_, fun c hc => ?_⟩
  · rw [hshape, leavesAll_classAround] at hx
    simp only [List.mem_cons] at hx
    rcases hx with rfl | rfl | rfl | hx
    · exact .inr rfl
    · exact .inr rfl
    · exact .inr rfl
    · exact .inl (hinner x hx)
  · obtain ⟨t, ht, hspan⟩ := h.exists_comment hc hm hcomment
    unfold Tree.start Tree.stop
    rw [hspan]
    exact h.comment_around ht
  · rcases List.mem_append.1 hc with hc | hc
    · exact field_ne_of_derives (.inr rfl) rfl hmembers c hc
    · exact field_ne_of_derives (.inr rfl) rfl hothers c hc

end Sound

end JavaMutants.Syntax
