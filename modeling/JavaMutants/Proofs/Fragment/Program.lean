import JavaMutants.Proofs.Fragment.Reading
import JavaMutants.Proofs.Fragment.Shape

/-!
# Programs of one declaration

What is read from the tokens of a fragment. A type is a program by itself
(`outcome_program_of_type`), and a method or a constructor is the one member
of the class that is put around it (`outcome_program_of_member`).
-/

namespace JavaMutants

open Syntax Tree Grammar Rule

variable {k : Kind} {t : Token} {ts us : List Token} {nodes : List Tree} {close fin : Span}

/-- Of a program nothing is left. -/
theorem outcome_program (h : outcome (part .topLevel) [] ts = some (nodes, [⟨.finish, fin⟩])) :
    outcome (body .program) [] ts = some (nodes, []) := by
  have hp : (both (many (part Part.topLevel)) finish).isPaced isTaking = true := rfl
  have hpm : (many (part Part.topLevel)).isPaced isTaking = true := rfl
  have hnone : outcome (part .topLevel) [] [⟨.finish, fin⟩] = none :=
    outcome_eq_none_of_cross? rfl rfl rfl rfl []
  have hend : outcome (many (part .topLevel)) [] [⟨.finish, fin⟩] = some ([], [⟨.finish, fin⟩]) :=
    (outcome_many_eq_some_iff hpm).2 (.inr ⟨hnone, rfl, rfl⟩)
  have hmany : outcome (many (part .topLevel)) [] ts = some (nodes, [⟨.finish, fin⟩]) :=
    (outcome_many_eq_some_iff hpm).2 (.inl ⟨nodes, _, [], (List.append_nil nodes).symm, h, hend⟩)
  have hfinish : outcome (finish : Rules) [] [⟨.finish, fin⟩] = some ([], []) := by
    rw [outcome_eq_read rfl]
    rfl
  exact (outcome_both_eq_some_iff hp).2 ⟨nodes, _, [], (List.append_nil nodes).symm, hmany, hfinish⟩

/-- **A type is a program.** -/
theorem outcome_program_of_type (hk : k ∈ typeKinds) (ht : t.lexeme ∈ modifierLexemes)
    (h : outcome (body k) [] (t :: ts) = some (nodes, [⟨.finish, fin⟩])) :
    outcome (body .program) [] (t :: ts) = some ([above (.named k) nodes], []) :=
  outcome_program (outcome_topLevel hk ht h)

/-! ## The class around a member -/

/-- **The one alternative that does not refuse a token is read.** -/
theorem outcome_alt_of_refuses (rs : List Rules) {rs' : List Rules} {r : Rules} {x : Lexeme}
    {blocked : List Part} (hb : isBlocked x blocked = true) (hp : (rs ++ r :: rs').all (isPaced isTaking) = true)
    (hr : rs.all (refuses x blocked) = true) (ht : t.lexeme = x) {y : List Tree × List Token}
    (h : outcome r [] (t :: ts) = some y) : outcome (alt (rs ++ r :: rs')) [] (t :: ts) = some y :=
  outcome_alt rs (List.all_eq_true.1 hp)
    (fun r' hr' => outcome_of_refuses hb (List.all_eq_true.1 hr r' hr') ht []) h

/-- The body of the class has the members that can be read. -/
theorem outcome_bodyAround
    (h : outcome (many (part .member)) [] ts = some (nodes, ⟨.punct .braceClose, close⟩ :: us)) :
    outcome (field .body (part .classBody)) [] (⟨.punct .braceOpen, ⟨17, 18⟩⟩ :: ts)
      = some ([bodyAround nodes close], us) := by
  have hp : (part Part.classBody).isPaced isTaking = true := rfl
  have hpb : (braces (many (part Part.member))).isPaced isTaking = true := rfl
  have hopen : outcome (sym .braceOpen : Rules) [] (⟨.punct .braceOpen, ⟨17, 18⟩⟩ :: ts)
      = some ([tokenLeaf (.punct .braceOpen) ⟨17, 18⟩], ts) := outcome_token rfl []
  have hclose : outcome (sym .braceClose : Rules) [] (⟨.punct .braceClose, close⟩ :: us)
      = some ([tokenLeaf (.punct .braceClose) close], us) := outcome_token rfl []
  have hbraces : outcome (braces (many (part .member))) []
      (⟨.punct .braceOpen, ⟨17, 18⟩⟩ :: ts) = some (tokenLeaf (.punct .braceOpen) ⟨17, 18⟩
        :: (nodes ++ [tokenLeaf (.punct .braceClose) close]), us) :=
    (outcome_both_eq_some_iff hpb).2 ⟨_, _, _, rfl, hopen,
      (outcome_both_eq_some_iff rfl).2 ⟨_, _, _, rfl, h, hclose⟩⟩
  refine (outcome_field_eq_some_iff hp).2 ⟨[_], rfl, ?_⟩
  rw [outcome_part]
  show outcome (part (.node .classBody)) [] _ = _
  rw [outcome_part]
  exact (outcome_tree_eq_some_iff hpb).2 ⟨_, rfl, hbraces⟩

/-- **The class that is put around members is read.** -/
theorem outcome_classAround
    (h : outcome (many (part .member)) [] ts = some (nodes, ⟨.punct .braceClose, close⟩ :: us)) :
    outcome (the .classDeclaration) [] (opening ts) = some ([classAround nodes close], us) := by
  have hmods : outcome mods [] (opening ts) = some ([], opening ts) :=
    outcome_opt_of_refuses rfl isBlocked_notClass rfl rfl []
  have hclass : outcome (key .class_ : Rules) [] (opening ts)
      = some ([tokenLeaf (.keyword .class_) ⟨0, 5⟩],
          ⟨.word none, ⟨6, 16⟩⟩ :: ⟨.punct .braceOpen, ⟨17, 18⟩⟩ :: ts) := outcome_token rfl []
  have hname : outcome declName [] (⟨.word none, ⟨6, 16⟩⟩ :: ⟨.punct .braceOpen, ⟨17, 18⟩⟩ :: ts)
      = some ([(tokenLeaf (.named .identifier) ⟨6, 16⟩).withField (some .name)],
          ⟨.punct .braceOpen, ⟨17, 18⟩⟩ :: ts) :=
    (outcome_field_eq_some_iff rfl).2 ⟨[_], rfl, outcome_token rfl []⟩
  -- nothing stands between the name and the brace
  have hopt : ∀ r : Rules, r.isPaced isTaking = true → refuses (.punct .braceOpen) notBrace r = true →
      outcome (opt r) [] (⟨.punct .braceOpen, ⟨17, 18⟩⟩ :: ts)
        = some ([], ⟨.punct .braceOpen, ⟨17, 18⟩⟩ :: ts) :=
    fun r hp hr => outcome_opt_of_refuses hp isBlocked_notBrace hr rfl []
  refine outcome_the (k := .classDeclaration) ?_
  refine (outcome_both_eq_some_iff rfl).2 ⟨_, _, _, rfl, hmods, ?_⟩
  refine (outcome_both_eq_some_iff rfl).2 ⟨_, _, _, rfl, hclass, ?_⟩
  refine (outcome_both_eq_some_iff rfl).2 ⟨_, _, _, rfl, hname, ?_⟩
  refine (outcome_both_eq_some_iff rfl).2 ⟨_, _, _, rfl, hopt _ rfl rfl, ?_⟩
  refine (outcome_both_eq_some_iff rfl).2 ⟨_, _, _, rfl, hopt _ rfl rfl, ?_⟩
  refine (outcome_both_eq_some_iff rfl).2 ⟨_, _, _, rfl, hopt _ rfl rfl, ?_⟩
  refine (outcome_both_eq_some_iff rfl).2 ⟨_, _, _, rfl, hopt _ rfl rfl, outcome_bodyAround h⟩

/-- **A member with the class around it is a program.** -/
theorem outcome_program_of_member (hk : isDeclaration k = true) (htype : k ∉ typeKinds)
    (ht : t.lexeme ∈ modifierLexemes)
    (h : outcome (body k) [] (t :: ts)
      = some (nodes, [⟨.punct .braceClose, close⟩, ⟨.finish, fin⟩])) :
    outcome (body .program) [] (opening (t :: ts))
      = some ([classAround [above (.named k) nodes] close], []) := by
  have hp : (many (part Part.member)).isPaced isTaking = true := rfl
  have hnone : outcome (part .member) [] [⟨.punct .braceClose, close⟩, ⟨.finish, fin⟩] = none :=
    outcome_eq_none_of_cross? rfl rfl rfl rfl []
  have hmembers : outcome (many (part .member)) [] (t :: ts)
      = some ([above (.named k) nodes], [⟨.punct .braceClose, close⟩, ⟨.finish, fin⟩]) :=
    (outcome_many_eq_some_iff hp).2 (.inl ⟨[_], _, [], rfl, outcome_member hk htype ht h,
      (outcome_many_eq_some_iff hp).2 (.inr ⟨hnone, rfl, rfl⟩)⟩)
  have hclass := outcome_classAround hmembers
  -- neither a declaration nor a statement that comes earlier begins as a class does
  have hdeclaration : outcome (part .declaration) [] (opening (t :: ts))
      = some ([classAround [above (.named k) nodes] close], [⟨.finish, fin⟩]) := by
    rw [outcome_part]
    exact outcome_alt_of_refuses
      [the .moduleDeclaration, the .packageDeclaration, the .importDeclaration]
      isBlocked_notClass rfl rfl rfl hclass
  have hstatement : outcome stmt [] (opening (t :: ts))
      = some ([classAround [above (.named k) nodes] close], [⟨.finish, fin⟩]) := by
    show outcome (part .statement) [] _ = _
    rw [outcome_part]
    exact outcome_alt_of_refuses
      (earlierStatements.1 ++ the .synchronizedStatement :: earlierStatements.2)
      isBlocked_notClass rfl rfl rfl hdeclaration
  have hpt : (either stmt (the .methodDeclaration)).isPaced isTaking = true := rfl
  have htop : outcome (part .topLevel) [] (opening (t :: ts))
      = some ([classAround [above (.named k) nodes] close], [⟨.finish, fin⟩]) := by
    rw [outcome_part]
    show outcome (either stmt (the .methodDeclaration)) [] _ = _
    rw [outcome_either hpt, hstatement, Option.some_or]
  exact outcome_program htop

end JavaMutants
