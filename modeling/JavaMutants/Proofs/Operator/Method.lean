import JavaMutants.Proofs.Fragment.Type
import JavaMutants.Proofs.Operator.Return

/-!
# The operators on the body of a method

Which versions a method has is told by the text of its type (`Fragment.Returns`): its
body is emptied if the type is `void`, and else it is made to return a default value, of
which `boolean` has two. Each of the operators reads the declaration by itself, and
dimensions after the parameters make an array of any type for all of them. All that is
around the body stays as it is, byte for byte (`bodyOperators_exact`).
-/

namespace JavaMutants

open Syntax Text Tree

/-! ## What a method returns -/

/-- **A declaration returns a type** that is written as some word, with no dimensions after
its parameters. -/
def Fragment.Returns (fragment : Fragment) (word : String) : Prop :=
  (fragment.declaration.child? .type_).bind fragment.textOf? = some word
    ∧ fragment.declaration.child? .dimensions = none

instance (fragment : Fragment) (word : String) : Decidable (fragment.Returns word) :=
  inferInstanceAs (Decidable (_ ∧ _))

namespace ReturnType

variable {declaration type : Tree}

theorem ofDeclaration_eq_iff (h : declaration.child? .type_ = some type) :
    (ofDeclaration declaration = .void
      ↔ type.isA .voidType = true ∧ declaration.child? .dimensions = none)
    ∧ (ofDeclaration declaration = .boolean
      ↔ type.isA .booleanType = true ∧ declaration.child? .dimensions = none) := by
  rw [Target.isA_iff_kind?, Target.isA_iff_kind?]
  unfold ofDeclaration
  rw [h]
  cases declaration.child? .dimensions with
  | some d => simp
  | none =>
    simp only [Option.isSome_none, Bool.false_eq_true, if_false, and_true]
    split
    next hk => simp [hk]
    next hk => simp [hk]
    next hk => split <;> simp [hk]
    next hk => simp [hk]
    next hvoid _ _ hboolean =>
      exact ⟨⟨nofun, fun hk => absurd hk hvoid⟩, nofun, fun hk => absurd hk hboolean⟩

/-- **There is no default for nothing**, there are two for a truth value, and one for all
else. -/
theorem defaults_cases (r : ReturnType) :
    (r.defaults = [] ↔ r = .void) ∧ (r.defaults = ["false", "true"] ↔ r = .boolean)
      ∧ (r ≠ .void → r ≠ .boolean → ∃ value, r.defaults = [value]) := by
  cases r <;> simp [defaults]

end ReturnType

/-- **What a method returns is told by the text of its type.** -/
theorem Fragment.returns_iff {span : String} {fragment : Fragment}
    (hparse : Fragment.parse? span true = some fragment)
    (hmethod : fragment.declaration.isA .methodDeclaration = true) :
    (ReturnType.ofDeclaration fragment.declaration = .void ↔ fragment.Returns "void")
      ∧ (ReturnType.ofDeclaration fragment.declaration = .boolean
        ↔ fragment.Returns "boolean") := by
  have hsound := Fragment.parseSound_of_parse? hparse
  have hsource := isParse_of_parseSound hsound
  have hl : fragment.declaration.label = .named .methodDeclaration := beq_iff_eq.1 hmethod
  obtain ⟨c, hc, hn⟩ := hsource.exists_child (Fragment.declaration_mem fragment) (by
    rw [hl]
    nofun)
  obtain ⟨type, ts, rest, htype, hfollows, hderives⟩ := exists_type_of_method hsound hc hn hl
  have hmem := mem_preorder_trans (mem_preorder_of_child (List.mem_of_find?_eq_some htype)
    (mem_preorder_self type)) hn
  have hcomment := isComment_of_field hsource hc hmem (by simpa using List.find?_some htype)
  have htext := fun {k : Keyword} {kind : Kind} (hk : (k, kind) ∈ wordTypes) =>
    isA_iff_slice? hsource hc hmem hcomment hfollows hderives hk
  unfold Fragment.Returns
  rw [htype, (ReturnType.ofDeclaration_eq_iff htype).1, (ReturnType.ofDeclaration_eq_iff htype).2,
    htext (List.mem_cons_of_mem _ List.mem_cons_self), htext List.mem_cons_self]
  exact ⟨Iff.rfl, Iff.rfl⟩

/-! ## Versions of a method -/

namespace Fragment

variable {span : String} {fragment : Fragment} {node body : Tree}

/-- **A node is exchanged for one text after the other**, always in the same place. -/
theorem Editable.exists_exchangeEach (h : fragment.Editable node) (hof : fragment.IsOf span) :
    ∃ before old after : String, span = before ++ old ++ after
      ∧ fragment.localRange? node = some (Text.size before, Text.size before + Text.size old)
      ∧ ∀ news : List String, exchangeEach fragment span (news.map fun new => (node, new))
        = some (news.map fun new => before ++ new ++ after) := by
  obtain ⟨before, old, after, hspan, -, hrange, hedit⟩ := h.exists_parts hof
  refine ⟨before, old, after, hspan, hrange, fun news => ?_⟩
  induction news with
  | nil => rfl
  | cons new news ih =>
    unfold exchangeEach at ih ⊢
    rw [List.map_cons, List.mapM_cons, ih]
    exact congrArg (Option.bind · _) (hedit new)

/-- **What is exchanged in a node leaves all around it as it is.** -/
theorem Exchanged.within {old new version before text after : String}
    (h : fragment.Exchanged span node old new version) (hstart : body.start ≤ node.start)
    (hstop : node.stop ≤ body.stop) (hspan : span = before ++ text ++ after)
    (hrange : fragment.localRange? body
      = some (Text.size before, Text.size before + Text.size text)) :
    ∃ inner, version = before ++ inner ++ after := by
  obtain ⟨front, behind, hparts, hnode, rfl⟩ := h.parts
  unfold localRange? at hrange hnode
  split at hrange
  next =>
    split at hnode
    next =>
      simp only [Option.some.injEq, Prod.mk.injEq] at hrange hnode
      have hwhole : before ++ (text ++ after) = front ++ (old ++ behind) := by
        rw [← String.append_assoc, ← hspan, hparts, String.append_assoc]
      -- the node begins and ends in the body
      obtain ⟨p, rfl, -⟩ := exists_of_append_eq hwhole (by omega)
      obtain ⟨q, -, rfl⟩ := exists_of_append_eq
        (show (before ++ p ++ old) ++ behind = (before ++ text) ++ after by
          rw [← hspan, hparts]) (by simp only [size_append] at *; omega)
      exact ⟨p ++ new ++ q, by simp only [String.append_assoc]⟩
    next => cases hnode
  next => cases hrange

end Fragment

theorem blockOf_return (value : String) :
    blockOf ("return " ++ value ++ ";") = "\x7b return " ++ value ++ "; \x7d" := by
  rw [← String.toList_inj]
  simp [blockOf]

/-- **The versions of a method with a body**, of which some text comes before and some after
it. -/
structure Fragment.BodyVersions (fragment : Fragment) (before after : String)
    (empties defaults negations : List String) : Prop where
  /-- If it returns nothing its body is emptied. -/
  void : fragment.Returns "void" → empties = [before ++ "\x7b\x7d" ++ after] ∧ defaults = []
  /-- If it returns something it is made to return a default value. -/
  value : ¬ fragment.Returns "void" → empties = [] ∧ defaults ≠ []
  /-- There are two such values exactly for a truth value, and one for all else. -/
  values : ∃ values : List String,
    defaults = values.map (fun v => before ++ ("\x7b return " ++ v ++ "; \x7d") ++ after)
      ∧ (values = ["false", "true"] ↔ fragment.Returns "boolean")
      ∧ (¬ fragment.Returns "void" → ¬ fragment.Returns "boolean" → ∃ v, values = [v])
  /-- Only a truth value is negated. -/
  boolean : negations ≠ [] → fragment.Returns "boolean"
  /-- That is done in the body. -/
  negations : ∀ version ∈ negations, ∃ inner, version = before ++ inner ++ after

section Generators

variable {target : Target} {span : String} {fragment : Fragment} {body : Tree}

/-- **A method without a body has no versions.** -/
theorem bodyOperators_eq_nil
    (hparse : Fragment.parse? span (target.kind != .typeDeclaration) = some fragment)
    (hbody : fragment.declaration.child? .body = none) :
    emptyBody target span = some [] ∧ defaultReturn target span = some []
      ∧ negateReturn target span = some [] := by
  unfold emptyBody defaultReturn negateReturn
  simp only [withDeclaration_eq hparse, hbody]
  exact ⟨trivial, trivial, ite_self _⟩

/-- **Negated values stand in the body.** -/
theorem negateReturn_within {before old after : String}
    (hparse : Fragment.parse? span (target.kind != .typeDeclaration) = some fragment)
    (hbody : fragment.declaration.child? .body = some body) (hspan : span = before ++ old ++ after)
    (hrange : fragment.localRange? body = some (Text.size before, Text.size before + Text.size old)) :
    ∃ negations, negateReturn target span = some negations
      ∧ (negations ≠ [] → ReturnType.ofDeclaration fragment.declaration = .boolean)
      ∧ ∀ version ∈ negations, ∃ inner, version = before ++ inner ++ after := by
  by_cases htype : ReturnType.ofDeclaration fragment.declaration = .boolean
  · obtain ⟨negations, hnegations, hall⟩ := versions_negateReturn hparse htype hbody
    obtain ⟨-, -, -, hnested⟩ := (Fragment.isOf_of_parse? hparse).exists_child_body hbody
    refine ⟨negations, hnegations, fun _ => htype, fun version hversion => ?_⟩
    obtain ⟨value, hvalue, text, -, hexchanged⟩ := exists_mem_left hall hversion
    obtain ⟨hstart, hstop⟩ := hnested.bounds (mem_of_mem_returnedValues hvalue)
    exact hexchanged.within hstart hstop hspan hrange
  · refine ⟨[], ?_, fun hne => absurd rfl hne, fun _ hv => absurd hv List.not_mem_nil⟩
    unfold negateReturn
    rw [withDeclaration_eq hparse]
    simp [htype]

/-- **The versions of a method with a body.** -/
theorem exists_bodyVersions (hkind : target.kind = .method)
    (hparse : Fragment.parse? span true = some fragment)
    (hmethod : fragment.declaration.isA .methodDeclaration = true)
    (hbody : fragment.declaration.child? .body = some body) :
    ∃ before old after empties defaults negations, span = before ++ old ++ after
      ∧ fragment.localRange? body = some (Text.size before, Text.size before + Text.size old)
      ∧ emptyBody target span = some empties ∧ defaultReturn target span = some defaults
      ∧ negateReturn target span = some negations
      ∧ fragment.BodyVersions before after empties defaults negations := by
  have hof := Fragment.isOf_of_parse? hparse
  have hmember : Fragment.parse? span (target.kind != .typeDeclaration) = some fragment := by
    rw [hkind]
    exact hparse
  obtain ⟨hvoid, hboolean⟩ := Fragment.returns_iff hparse hmethod
  obtain ⟨before, old, after, hspan, hrange, hexchange⟩ :=
    (hof.editable_body hbody (mem_preorder_self body)).exists_exchangeEach hof
  obtain ⟨negations, hnegations, hnegated, hwithin⟩ :=
    negateReturn_within hmember hbody hspan hrange
  have hempty : emptyBody target span
      = some ((if ReturnType.ofDeclaration fragment.declaration == .void then [emptyBlock]
        else []).map fun new => before ++ new ++ after) := by
    unfold emptyBody
    rw [withDeclaration_eq hmember]
    simp only [hbody, emptied?, hkind]
    exact hexchange _
  have hdefault : defaultReturn target span
      = some ((ReturnType.ofDeclaration fragment.declaration).defaults.map fun v =>
        before ++ ("\x7b return " ++ v ++ "; \x7d") ++ after) := by
    have hvalues := hexchange ((ReturnType.ofDeclaration fragment.declaration).defaults.map
      fun v => blockOf ("return " ++ v ++ ";"))
    unfold defaultReturn
    rw [withDeclaration_eq hmember]
    simpa only [hbody, List.map_map, Function.comp_def, blockOf_return] using hvalues
  obtain ⟨hnone, htwo, hone⟩ :=
    ReturnType.defaults_cases (ReturnType.ofDeclaration fragment.declaration)
  rw [hvoid] at hnone
  rw [hboolean] at htwo hnegated
  refine ⟨before, old, after, _, _, negations, hspan, hrange, hempty, hdefault, hnegations, ?_, ?_,
    ⟨_, rfl, htwo, fun hv hb => hone (mt hvoid.1 hv) (mt hboolean.1 hb)⟩, hnegated, hwithin⟩
  · intro hv
    rw [hnone.2 hv, hvoid.2 hv]
    exact ⟨rfl, rfl⟩
  · intro hv
    rw [if_neg (by simpa using mt hvoid.1 hv)]
    exact ⟨rfl, fun hnil => hv (hnone.1 (List.map_eq_nil_iff.1 hnil))⟩

end Generators

/-- **The operators on the body of a method** split methods by their return type, and leave
all but the body as it is. A method without a body has no versions. Of one with a body
either the body is emptied or a default value is returned, and only a method that returns
a truth value has two such values and has the values negated that it returns. -/
theorem bodyOperators_exact {target : Target} {span : String} {fragment : Fragment}
    (hkind : target.kind = .method) (hparse : Fragment.parse? span true = some fragment)
    (hmethod : fragment.declaration.isA .methodDeclaration = true) :
    (fragment.declaration.child? .body = none → emptyBody target span = some []
        ∧ defaultReturn target span = some [] ∧ negateReturn target span = some [])
      ∧ ∀ body, fragment.declaration.child? .body = some body →
        ∃ before old after empties defaults negations, span = before ++ old ++ after
          ∧ fragment.localRange? body = some (Text.size before, Text.size before + Text.size old)
          ∧ emptyBody target span = some empties ∧ defaultReturn target span = some defaults
          ∧ negateReturn target span = some negations
          ∧ fragment.BodyVersions before after empties defaults negations := by
  refine ⟨fun hbody => bodyOperators_eq_nil ?_ hbody,
    fun body hbody => exists_bodyVersions hkind hparse hmethod hbody⟩
  rw [hkind]
  exact hparse

/-- A method with annotations, type parameters, exceptions and a comment, of which only the
body changes. -/
theorem bodyOperators_exact_boolean :
    let span := "@M <T> boolean f(T a) throws E /* c */ \x7b return g(); \x7d"
    let target : Target := ⟨.method, "f", 0, Text.size span, 0, true, false⟩
    let defaults := ["@M <T> boolean f(T a) throws E /* c */ \x7b return false; \x7d",
      "@M <T> boolean f(T a) throws E /* c */ \x7b return true; \x7d"]
    let negations := ["@M <T> boolean f(T a) throws E /* c */ \x7b return !(g()); \x7d"]
    ∃ fragment body before old after, Fragment.parse? span true = some fragment
      ∧ fragment.declaration.isA .methodDeclaration = true
      ∧ fragment.declaration.child? .body = some body ∧ fragment.Returns "boolean"
      ∧ span = before ++ old ++ after
      ∧ fragment.localRange? body = some (Text.size before, Text.size before + Text.size old)
      ∧ emptyBody target span = some [] ∧ defaultReturn target span = some defaults
      ∧ negateReturn target span = some negations
      ∧ fragment.BodyVersions before after [] defaults negations := by
  intro span target defaults negations
  have hall : ((Fragment.parse? span true).bind fun f =>
      if f.declaration.isA .methodDeclaration = true ∧ f.Returns "boolean" then
        f.declaration.child? .body
      else none).isSome = true ∧ emptyBody target span = some []
      ∧ defaultReturn target span = some defaults
      ∧ negateReturn target span = some negations := by decide +kernel
  obtain ⟨hsome, hempty, hdefault, hnegate⟩ := hall
  obtain ⟨body, hsome⟩ := Option.isSome_iff_exists.1 hsome
  obtain ⟨fragment, hparse, hsome⟩ := Option.bind_eq_some_iff.1 hsome
  obtain ⟨⟨hmethod, hreturns⟩, hbody⟩ := Option.ite_none_right_eq_some.1 hsome
  obtain ⟨before, old, after, empties', defaults', negations', hspan, hrange, hempty', hdefault',
    hnegate', hversions⟩ := (@bodyOperators_exact target span fragment rfl hparse hmethod).2 body hbody
  obtain rfl := Option.some.inj (hempty.symm.trans hempty')
  obtain rfl := Option.some.inj (hdefault.symm.trans hdefault')
  obtain rfl := Option.some.inj (hnegate.symm.trans hnegate')
  exact ⟨fragment, body, before, old, after, hparse, hmethod, hbody, hreturns, hspan, hrange,
    hempty, hdefault, hnegate, hversions⟩

end JavaMutants
