import JavaMutants.Proofs.Operator.Version
import JavaMutants.Proofs.Syntax.Member
import JavaMutants.Proofs.Syntax.Visit

/-!
# Which returns are negated

Negating returned values goes through the body of a method and enters neither
lambda expressions nor the bodies of classes, for what is returned there is
returned from something else. It enters the bodies of interfaces and of enums,
though, and negates what their methods return (`negateReturn_foreign`).

That is all: in document order there is one version for each return statement with
something named in it that is below no lambda expression, no body of a class and no
other return statement, and those of them that belong to another method or to a
constructor stand in the body of an interface or after the constants of an enum
(`negateReturn_exact`).
-/

namespace JavaMutants

open Syntax Text Tree

/-- **Whether returns below a node return from it.** -/
def isReturnedFrom (node : Tree) : Bool :=
  node.isA .methodDeclaration || node.isA .constructorDeclaration
    || node.isA .compactConstructorDeclaration || node.isA .lambdaExpression

/-- **The return statements of a body that are changed.** -/
def changedReturns (body : Tree) : List Tree :=
  (body.visit sameMethod).filter fun n => n.isA .returnStatement && !n.namedChildren.isEmpty

section Returns

variable {body : Tree}

theorem sameMethod_eq_false_of_changed {n : Tree}
    (h : (n.isA .returnStatement && !n.namedChildren.isEmpty) = true) : sameMethod n = false := by
  simp [sameMethod, (Bool.and_eq_true_iff.1 h).1]

/-- Every changed return has a returned value. -/
theorem forall₂_changedReturns (body : Tree) :
    List.Forall₂ (fun r value => r.namedChildren.head? = some value) (changedReturns body)
      (returnedValues body) := by
  have h := forall₂_filterMap (·.namedChildren.head?)
    ((body.visit sameMethod).filter (·.isA .returnStatement))
  rw [List.filter_filter] at h
  have heq : changedReturns body = (body.visit sameMethod).filter
      fun n => (n.namedChildren.head?).isSome && n.isA .returnStatement := by
    refine List.filter_congr fun n _ => ?_
    cases n.namedChildren <;> simp
  rw [heq]
  exact h

/-- **Which return statements are changed.** -/
theorem Syntax.Tree.Nested.mem_changedReturns_iff (h : Nested body) {r : Tree} :
    r ∈ changedReturns body ↔ r ∈ body.preorder ∧ r.isA .returnStatement = true
      ∧ r.namedChildren ≠ [] ∧ ∀ n ∈ body.preorder, Below r n → n.isA .returnStatement = false
        ∧ n.isA .lambdaExpression = false ∧ n.isA .classBody = false := by
  unfold changedReturns
  rw [List.mem_filter, h.mem_visit_iff]
  simp only [sameMethod, Bool.and_eq_true, Bool.not_eq_true', Bool.or_eq_false_iff,
    List.isEmpty_eq_false_iff, and_assoc]
  exact ⟨fun ⟨hr, hall, hl, hne⟩ => ⟨hr, hl, hne, hall⟩,
    fun ⟨hr, hl, hne, hall⟩ => ⟨hr, hall, hl, hne⟩⟩

end Returns

section Members

variable {span : String} {fragment : Fragment} {body : Tree}

/-- The body of a declaration is nested, and below the root. -/
theorem Fragment.IsOf.exists_child_body (hof : fragment.IsOf span)
    (hbody : fragment.declaration.child? .body = some body) :
    ∃ c ∈ fragment.tree.children, body ∈ c.preorder ∧ Nested body := by
  obtain ⟨c, hc, hbc⟩ := Fragment.exists_child_of_child (Fragment.declaration_mem fragment)
    (List.mem_of_find?_eq_some hbody)
  exact ⟨c, hc, hbc, (hof.parse.laid.nested c hc).of_mem_preorder hbc⟩

/-- A node below a tree is right below one of its nodes. -/
theorem Syntax.Tree.Below.exists_parent {n t : Tree} (h : Below n t) :
    ∃ parent ∈ t.preorder, n ∈ parent.children := by
  induction t using induction with
  | node l f s b cs ih =>
    obtain ⟨c, hc, hn⟩ := h
    rcases mem_preorder_iff.1 hn with rfl | hbelow
    · exact ⟨_, mem_preorder_self _, hc⟩
    · obtain ⟨parent, hparent, hmem⟩ := ih c hc hbelow
      exact ⟨parent, mem_preorder_of_child hc hparent, hmem⟩

/-- **A changed return that returns from something else in the body** stands in the body
of an interface or after the constants of an enum. -/
theorem Fragment.IsOf.exists_house (hof : fragment.IsOf span)
    (hbody : fragment.declaration.child? .body = some body) {r m : Tree}
    (hr : r ∈ changedReturns body) (hm : Below m body) (hfrom : isReturnedFrom m = true)
    (hrm : Below r m) :
    ∃ n ∈ body.preorder, Below m n
      ∧ (n.isA .interfaceBody = true ∨ n.isA .enumBodyDeclarations = true) := by
  obtain ⟨c, hc, hbc, hnested⟩ := hof.exists_child_body hbody
  obtain ⟨-, -, -, hall⟩ := hnested.mem_changedReturns_iff.1 hr
  obtain ⟨parent, hparent, hmem⟩ := hm.exists_parent
  have hmparent : Below m parent := ⟨m, hmem, mem_preorder_self m⟩
  refine ⟨parent, hparent, hmparent, ?_⟩
  -- it is a member, for lambda expressions are not entered
  have hmember : ∃ k ∈ Grammar.memberKinds, m.label = .named k := by
    unfold isReturnedFrom at hfrom
    rw [(hall m hm.mem_preorder hrm).2.1, Bool.or_false] at hfrom
    simp only [Bool.or_eq_true, isA, beq_iff_eq] at hfrom
    rcases hfrom with (h | h) | h <;> exact ⟨_, by decide, h⟩
  obtain ⟨k, hk, hl⟩ := hmember
  obtain ⟨house, hhouse, his⟩ :=
    hof.parse.isHouse_of_member hc (mem_preorder_trans hparent hbc) hmem hk hl
  -- the bodies of classes are not entered either
  have hclass := (hall parent hparent ⟨m, hmem, hrm.mem_preorder⟩).2.2
  simp only [Grammar.isHouse, List.contains_cons, List.contains_nil, Bool.or_false,
    Bool.or_eq_true, beq_iff_eq] at his
  rcases his with rfl | rfl | rfl
  · simp [isA, hhouse] at hclass
  · exact .inl (beq_iff_eq.2 hhouse)
  · exact .inr (beq_iff_eq.2 hhouse)

end Members

/-- **Negating what a method of type `boolean` returns** gives one version for each of
some return statements of its body, in their order and none of them in another. They are
those with something named in them that are below no other return statement, no lambda
expression and no body of a class. So what they return from is the method itself, unless
that is a member of an interface or of an enum. -/
theorem negateReturn_exact {target : Target} {span : String} {fragment : Fragment} {body : Tree}
    (hparse : Fragment.parse? span (target.kind != .typeDeclaration) = some fragment)
    (htype : ReturnType.ofDeclaration fragment.declaration = .boolean)
    (hbody : fragment.declaration.child? .body = some body) :
    ∃ returns versions, negateReturn target span = some versions
      ∧ List.Forall₂ (fun r version => ∃ value old, r.namedChildren.head? = some value
          ∧ fragment.Exchanged span value old ("!(" ++ old ++ ")") version) returns versions
      ∧ returns.Pairwise (fun r r' => r.stop ≤ r'.start)
      ∧ (∀ r, r ∈ returns ↔ r ∈ body.preorder ∧ r.isA .returnStatement = true
          ∧ r.namedChildren ≠ [] ∧ ∀ n ∈ body.preorder, Below r n →
            n.isA .returnStatement = false ∧ n.isA .lambdaExpression = false
              ∧ n.isA .classBody = false)
      ∧ ∀ r ∈ returns, ∀ m, Below m body → isReturnedFrom m = true → Below r m →
          ∃ n ∈ body.preorder, Below m n
            ∧ (n.isA .interfaceBody = true ∨ n.isA .enumBodyDeclarations = true) := by
  have hof := Fragment.isOf_of_parse? hparse
  obtain ⟨c, hc, hbc, hnested⟩ := hof.exists_child_body hbody
  obtain ⟨versions, hversions, hall⟩ := versions_negateReturn hparse htype hbody
  refine ⟨changedReturns body, versions, hversions, ?_,
    hnested.pairwise_apart fun _ => sameMethod_eq_false_of_changed,
    fun r => hnested.mem_changedReturns_iff,
    fun r hr m hm hfrom hrm => hof.exists_house hbody hr hm hfrom hrm⟩
  refine (forall₂_comp (forall₂_changedReturns body) hall).imp ?_
  rintro r version ⟨value, hvalue, old, -, hexchanged⟩
  exact ⟨value, old, hvalue, hexchanged⟩

/-- A return in a lambda expression is left alone. -/
theorem negateReturn_exact_lambda :
    let span := "boolean f() \x7b g(() -> \x7b return a; \x7d); return b; \x7d"
    let versions := ["boolean f() \x7b g(() -> \x7b return a; \x7d); return !(b); \x7d"]
    let target : Target := ⟨.method, "f", 0, Text.size span, 0, true, false⟩
    ∃ fragment body, Fragment.parse? span true = some fragment
      ∧ ReturnType.ofDeclaration fragment.declaration = .boolean
      ∧ fragment.declaration.child? .body = some body
      ∧ negateReturn target span = some versions
      ∧ ∃ returns, (∀ r ∈ returns, r ∈ body.preorder ∧ r.isA .returnStatement = true)
        ∧ List.Forall₂ (fun r version => ∃ value old, r.namedChildren.head? = some value
          ∧ fragment.Exchanged span value old ("!(" ++ old ++ ")") version) returns versions := by
  intro span versions target
  have hall : ((Fragment.parse? span true).bind fun f => if ReturnType.ofDeclaration f.declaration
      = .boolean then f.declaration.child? .body else none).isSome = true
      ∧ negateReturn target span = some versions := by decide +kernel
  obtain ⟨hsome, hversions⟩ := hall
  obtain ⟨body, hsome⟩ := Option.isSome_iff_exists.1 hsome
  obtain ⟨fragment, hparse, hsome⟩ := Option.bind_eq_some_iff.1 hsome
  obtain ⟨htype, hbody⟩ := Option.ite_none_right_eq_some.1 hsome
  obtain ⟨returns, vs, hvs, hforall, -, hiff, -⟩ :=
    @negateReturn_exact target span fragment body hparse htype hbody
  rw [Option.some.inj (hvs.symm.trans hversions)] at hforall
  exact ⟨fragment, body, hparse, htype, hbody, hversions, returns,
    fun r hr => ⟨((hiff r).1 hr).1, ((hiff r).1 hr).2.1⟩, hforall⟩

/-- **What a method of a local enum returns is negated**: the first version for `f` is
its text with another text for `g`, and the second one is for its own return. -/
theorem negateReturn_foreign :
    let span := "boolean f() \x7b enum E \x7b A; boolean g() \x7b return true; \x7d \x7d return false; \x7d"
    let target : Target := ⟨.method, "f", 0, Text.size span, 0, true, false⟩
    ∃ fragment body g, Fragment.parse? span true = some fragment
      ∧ fragment.declaration.isA .methodDeclaration = true
      ∧ ReturnType.ofDeclaration fragment.declaration = .boolean
      ∧ fragment.declaration.child? .body = some body
      ∧ Below g body ∧ g.isA .methodDeclaration = true
      ∧ fragment.textOf? g = some "boolean g() \x7b return true; \x7d"
      ∧ negateReturn target span = some [
        "boolean f() \x7b enum E \x7b A; boolean g() \x7b return !(true); \x7d \x7d return false; \x7d",
        "boolean f() \x7b enum E \x7b A; boolean g() \x7b return true; \x7d \x7d return !(false); \x7d" ] := by
  intro span target
  have hall : ((Fragment.parse? span true).bind fun f =>
      if f.declaration.isA .methodDeclaration = true
        ∧ ReturnType.ofDeclaration f.declaration = .boolean then
        (f.declaration.child? .body).bind fun body =>
          ((body.children.flatMap preorder).find? (·.isA .methodDeclaration)).bind f.textOf?
      else none) = some "boolean g() \x7b return true; \x7d"
      ∧ negateReturn target span = some [
        "boolean f() \x7b enum E \x7b A; boolean g() \x7b return !(true); \x7d \x7d return false; \x7d",
        "boolean f() \x7b enum E \x7b A; boolean g() \x7b return true; \x7d \x7d return !(false); \x7d" ] := by
    decide +kernel
  obtain ⟨hsome, hversions⟩ := hall
  obtain ⟨fragment, hparse, hsome⟩ := Option.bind_eq_some_iff.1 hsome
  obtain ⟨⟨hmethod, htype⟩, hsome⟩ := Option.ite_none_right_eq_some.1 hsome
  obtain ⟨body, hbody, hsome⟩ := Option.bind_eq_some_iff.1 hsome
  obtain ⟨g, hg, htext⟩ := Option.bind_eq_some_iff.1 hsome
  have hmember : g.isA .methodDeclaration = true := by simpa using List.find?_some hg
  exact ⟨fragment, body, g, hparse, hmethod, htype, hbody,
    List.mem_flatMap.1 (List.mem_of_find?_eq_some hg), hmember, htext, hversions⟩

end JavaMutants
