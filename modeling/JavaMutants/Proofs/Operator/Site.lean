import JavaMutants.Proofs.Operator.Overlap
import JavaMutants.Proofs.Operator.Version

/-!
# Sites and their versions

Three operators change one spot of a declaration each: a comparison is moved across
its boundary, a test of equality is turned round, or a condition is negated. The
versions of each are those of its spots, one for one and in document order
(`exists_moved`, `exists_negated`), and all of them differ (`IsOf.nodup_moved`,
`IsOf.nodup_negated`).

That they differ is not plain, since two spots can begin at the same place, or one of
them can lie in the other. Versions of different operators differ in length. Two
comparisons are apart (`Swaps.ne_of_apart`). Two conditions can be apart, or nested, and
then the outer one goes on after the inner one with something else than closing brackets
(`Negates.ne_of_within`).
-/

namespace JavaMutants

open Syntax Text Tree

/-! ## Two exchanges in one text -/

namespace Fragment

section Pair

variable {span : String} {fragment : Fragment} {node node' : Tree}
  {old new version old' new' version' : String}

/-- **Where the parts of a version stand** in what was parsed. -/
theorem Exchanged.exists_offsets (h : fragment.Exchanged span node old new version) :
    ∃ before after : String, span = before ++ old ++ after ∧ version = before ++ new ++ after
      ∧ node.start = fragment.offset + Text.size before
      ∧ node.stop = fragment.offset + Text.size (before ++ old) := by
  obtain ⟨before, after, hspan, hrange, hversion⟩ := h.parts
  refine ⟨before, after, hspan, hversion, ?_⟩
  unfold localRange? at hrange
  split at hrange
  next hle =>
    obtain ⟨hstart, hstop⟩ := Prod.mk.inj (Option.some.inj hrange)
    obtain ⟨hle, hle'⟩ := Bool.and_eq_true_iff.1 hle
    have hle := of_decide_eq_true hle
    have hle' := of_decide_eq_true hle'
    rw [size_append]
    omega
  next => cases hrange

/-- How long a version is. -/
theorem Exchanged.length_eq (h : fragment.Exchanged span node old new version) :
    version.toList.length + old.toList.length = span.toList.length + new.toList.length := by
  obtain ⟨before, after, rfl, rfl, -⟩ := h.exists_offsets
  simp only [String.toList_append, List.length_append]
  omega

/-- The text itself comes out only of an exchange for the same. -/
theorem Exchanged.ne_span (h : fragment.Exchanged span node old new version) (hne : new ≠ old) :
    version ≠ span := by
  obtain ⟨before, after, rfl, rfl, -⟩ := h.exists_offsets
  intro heq
  have heq := congrArg String.toList heq
  simp only [String.toList_append] at heq
  exact hne (String.toList_inj.1 (List.append_cancel_left (List.append_cancel_right heq)))

/-- **Two nodes that are apart** have something between them, and the versions differ
from each other at the nodes only. -/
theorem Exchanged.exists_between (h : fragment.Exchanged span node old new version)
    (h' : fragment.Exchanged span node' old' new' version') (hle : node.stop ≤ node'.start) :
    ∃ before gap after : String,
      version = before ++ new ++ (gap ++ (old' ++ after))
        ∧ version' = before ++ old ++ (gap ++ (new' ++ after)) := by
  obtain ⟨before, after, hspan, rfl, -, hstop⟩ := h.exists_offsets
  obtain ⟨before', after', hspan', rfl, hstart, -⟩ := h'.exists_offsets
  have heq : before ++ old ++ after = before' ++ (old' ++ after') := by
    rw [← hspan, hspan', String.append_assoc]
  obtain ⟨gap, rfl, rfl⟩ := exists_of_append_eq heq (by omega)
  refine ⟨before, gap, after', rfl, ?_⟩
  simp only [String.append_assoc]

/-- **Two nodes of which one lies in the other.** -/
theorem Exchanged.exists_inside (h : fragment.Exchanged span node old new version)
    (h' : fragment.Exchanged span node' old' new' version') (hstart : node.start ≤ node'.start)
    (hstop : node'.stop ≤ node.stop) :
    ∃ before p q after : String, span = before ++ (p ++ old' ++ q) ++ after
      ∧ old = p ++ old' ++ q ∧ version = before ++ new ++ after
      ∧ version' = before ++ (p ++ new' ++ q) ++ after
      ∧ node'.stop = fragment.offset + Text.size (before ++ p ++ old')
      ∧ node.stop = fragment.offset + Text.size (before ++ (p ++ old' ++ q)) := by
  obtain ⟨before, after, hspan, rfl, hlo, hhi⟩ := h.exists_offsets
  obtain ⟨before', after', hspan', rfl, hlo', hhi'⟩ := h'.exists_offsets
  have heq : before ++ (old ++ after) = before' ++ (old' ++ after') := by
    rw [← String.append_assoc, ← hspan, hspan', String.append_assoc]
  obtain ⟨p, rfl, hp⟩ := exists_of_append_eq heq (by omega)
  obtain ⟨q, rfl, rfl⟩ := exists_of_append_eq
    (show (p ++ old') ++ after' = old ++ after by rw [hp, String.append_assoc])
    (by simp only [size_append] at hhi hhi' ⊢; omega)
  refine ⟨before, p, q, after, hspan, rfl, rfl, ?_, hhi', hhi⟩
  simp only [String.append_assoc]

end Pair

end Fragment

/-! ## Comparisons -/

/-- **How comparisons are moved across their boundary.** -/
def boundaryMoves : List (String × String) := [("<", "<="), ("<=", "<"), (">", ">="), (">=", ">")]

/-- **How tests of equality are turned round.** -/
def equalityMoves : List (String × String) := [("==", "!="), ("!=", "==")]

/-- A move across a boundary puts in an equals sign or takes one out. -/
theorem exists_of_mem_boundaryMoves {old new : String} (h : (old, new) ∈ boundaryMoves) :
    ∃ c, c ≠ '=' ∧ (old.toList = [c] ∧ new.toList = [c, '=']
      ∨ old.toList = [c, '='] ∧ new.toList = [c]) := by
  simp only [boundaryMoves, List.mem_cons, Prod.mk.injEq, List.not_mem_nil, or_false] at h
  rcases h with ⟨rfl, rfl⟩ | ⟨rfl, rfl⟩ | ⟨rfl, rfl⟩ | ⟨rfl, rfl⟩
  · exact ⟨'<', by decide, .inl ⟨rfl, rfl⟩⟩
  · exact ⟨'<', by decide, .inr ⟨rfl, rfl⟩⟩
  · exact ⟨'>', by decide, .inl ⟨rfl, rfl⟩⟩
  · exact ⟨'>', by decide, .inr ⟨rfl, rfl⟩⟩

theorem length_of_mem_equalityMoves {old new : String} (h : (old, new) ∈ equalityMoves) :
    new ≠ old ∧ old.toList.length = 2 ∧ new.toList.length = 2 := by
  simp only [equalityMoves, List.mem_cons, Prod.mk.injEq, List.not_mem_nil, or_false] at h
  rcases h with ⟨rfl, rfl⟩ | ⟨rfl, rfl⟩ <;> decide

theorem swaps_of_boundaryMoves {old new : String} (h : (old, new) ∈ boundaryMoves) :
    Swaps old.toList new.toList := by
  simp only [boundaryMoves, List.mem_cons, Prod.mk.injEq, List.not_mem_nil, or_false] at h
  rcases h with ⟨rfl, rfl⟩ | ⟨rfl, rfl⟩ | ⟨rfl, rfl⟩ | ⟨rfl, rfl⟩
  · exact .widened (.inl rfl)
  · exact .narrowed (.inl rfl)
  · exact .widened (.inr rfl)
  · exact .narrowed (.inr rfl)

theorem swaps_of_equalityMoves {old new : String} (h : (old, new) ∈ equalityMoves) :
    Swaps old.toList new.toList := by
  simp only [equalityMoves, List.mem_cons, Prod.mk.injEq, List.not_mem_nil, or_false] at h
  rcases h with ⟨rfl, rfl⟩ | ⟨rfl, rfl⟩
  · exact .turned (.inl rfl) (.inr rfl) (by decide)
  · exact .turned (.inr rfl) (.inl rfl) (by decide)

/-! ## Conditions -/

/-- A condition is negated by two marks before it and one after it. -/
theorem exists_of_negated (condition : Tree) (text : String) :
    ∃ a : List Char, a.length = 2 ∧ (negated condition text).toList = a ++ (text.toList ++ [')']) := by
  unfold negated
  split
  · exact ⟨['(', '!'], rfl, by simp⟩
  · exact ⟨['!', '('], rfl, by simp⟩

theorem length_negated (condition : Tree) (text : String) :
    (negated condition text).toList.length = text.toList.length + 3 := by
  obtain ⟨a, ha, h⟩ := exists_of_negated condition text
  rw [h]
  simp only [List.length_append, ha, List.length_singleton]
  omega

/-! ## The spots of a declaration -/

/-- Whether a node is a comparison with one of some operators. -/
def isComparison (marks : List Punct) (node : Tree) : Bool :=
  node.isA .binaryExpression && (node.child? .operator).any fun token =>
    match token.label with
    | .punct p => marks.contains p
    | _ => false

/-- Whether a node has a condition that can be negated. -/
def isConditioned (node : Tree) : Bool := isConditional node && (node.child? .condition).isSome

namespace Fragment

/-- **The operator of a node is moved** in a version, and nothing else is changed. -/
def Moved (fragment : Fragment) (span : String) (moves : List (String × String)) (node : Tree)
    (version : String) : Prop :=
  ∃ token old new, node.child? .operator = some token ∧ (old, new) ∈ moves
    ∧ fragment.Exchanged span token old new version

/-- **The condition of a node is negated** in a version, and nothing else is changed. -/
def Negated (fragment : Fragment) (span : String) (node : Tree) (version : String) : Prop :=
  ∃ condition old, node.child? .condition = some condition
    ∧ fragment.Exchanged span condition old
      (if condition.isA .parenthesizedExpression then "(!" ++ old ++ ")" else "!(" ++ old ++ ")")
      version

end Fragment

section Spots

variable {target : Target} {span : String} {fragment : Fragment} {swap : Punct → Option Punct}
  {marks : List Punct} {moves : List (String × String)}

theorem isSome_operatorSite? (h : ∀ p, (swap p).isSome = marks.contains p) (node : Tree) :
    (operatorSite? swap node).isSome = isComparison marks node := by
  unfold operatorSite? isComparison
  cases node.isA .binaryExpression with
  | false => rfl
  | true =>
    cases node.child? .operator with
    | none => rfl
    | some token =>
      cases hl : token.label with
      | punct p => simpa [hl] using h p
      | _ => simp [hl]

/-- **The versions of comparisons**, one for one and in document order. -/
theorem exists_moved
    (hparse : Fragment.parse? span (target.kind != .typeDeclaration) = some fragment)
    (hswap : swap = acrossBoundary? ∨ swap = otherEquality?)
    (hmarks : ∀ p, (swap p).isSome = marks.contains p)
    (hmoves : ∀ p q, swap p = some q → (p.text, q.text) ∈ moves) :
    ∃ versions, swapOperators swap target span = some versions
      ∧ List.Forall₂ (fragment.Moved span moves)
        (fragment.declaration.preorder.filter (isComparison marks)) versions := by
  have hof := Fragment.isOf_of_parse? hparse
  obtain ⟨versions, hversions, hall⟩ := versions_swapOperators hparse hswap
  refine ⟨versions, hversions, ?_⟩
  have hsites := forall₂_filterMap (operatorSite? swap) fragment.declaration.preorder
  rw [List.filter_congr fun node _ => isSome_operatorSite? hmarks node] at hsites
  have hboth := (List.forall₂_and_left _ _).2
    ⟨fun node hnode => (List.mem_filter.1 hnode).1, forall₂_comp hsites hall⟩
  refine hboth.imp ?_
  rintro node version ⟨hnode, ⟨token, new⟩, hsite, -, old, hexchanged⟩
  obtain ⟨hmem, p, q, hl, hpq, rfl⟩ := Fragment.exists_marks_of_operatorSite? hsite
  have htoken : node.child? .operator = some token := by
    unfold operatorSite? at hsite
    split at hsite
    next =>
      obtain ⟨found, hfound, h⟩ := Option.bind_eq_some_iff.1 hsite
      split at h
      next =>
        obtain ⟨q', -, heq⟩ := Option.map_eq_some_iff.1 h
        obtain ⟨rfl, -⟩ := Prod.mk.inj heq
        exact hfound
      next => cases h
    next => cases hsite
  -- the text of a mark is that mark
  obtain ⟨c, hc, htc⟩ := Fragment.exists_child_of_child
    (mem_preorder_trans hnode (Fragment.declaration_mem fragment)) hmem
  obtain rfl : old = p.text := Option.some.inj
    (hexchanged.text.symm.trans (hof.parse.slice?_of_mark hc htc hl))
  exact ⟨token, p.text, q.text, htoken, hmoves p q hpq, hexchanged⟩

/-- **The versions of conditions**, one for one and in document order. -/
theorem exists_negated
    (hparse : Fragment.parse? span (target.kind != .typeDeclaration) = some fragment) :
    ∃ versions, negateCondition target span = some versions
      ∧ List.Forall₂ (fragment.Negated span)
        (fragment.declaration.preorder.filter isConditioned) versions := by
  obtain ⟨versions, hversions, hall⟩ := versions_negateCondition hparse
  refine ⟨versions, hversions, ?_⟩
  have hsites := forall₂_filterMap condition? fragment.declaration.preorder
  have hcondition : ∀ node, (condition? node).isSome = isConditioned node := fun node => by
    unfold condition? isConditioned
    cases isConditional node <;> rfl
  rw [List.filter_congr fun node _ => hcondition node] at hsites
  refine (forall₂_comp hsites hall).imp ?_
  rintro node version ⟨condition, hsome, old, -, hexchanged⟩
  unfold condition? at hsome
  split at hsome
  next => exact ⟨condition, old, hsome, hexchanged⟩
  next => cases hsome

end Spots

/-! ## All versions differ -/

section Order

variable {text : String} {tree : Tree}

/-- **The nodes of a sound text come one after the other.** -/
theorem Syntax.IsParse.pairwise_later (h : IsParse text tree) {d : Tree} (hd : d ∈ tree.preorder) :
    d.preorder.Pairwise Later := by
  rcases mem_preorder_iff.1 hd with rfl | ⟨c, hc, hdc⟩
  · rw [preorder_eq]
    exact .cons (fun n hn => .inl (List.mem_flatMap.1 hn))
      (pairwise_later_flatMap h.laid.ordered h.laid.nested
        fun c hc => (h.laid.nested c hc).pairwise_later)
  · exact ((h.laid.nested c hc).of_mem_preorder hdc).pairwise_later

/-- Nothing but comments is below a mark. -/
theorem Syntax.IsParse.label_of_mem_mark (h : IsParse text tree) {c node n : Tree}
    (hc : c ∈ tree.children) (hnode : node ∈ c.preorder) {p : Punct} (hl : node.label = .punct p)
    (hn : n ∈ node.preorder) (hcomment : n.isComment = false) : n.label = .punct p := by
  have hnodeComment : node.isComment = false := by simp [isComment, isA, hl]
  obtain ⟨d, hd, hbare⟩ := h.bare_mem hc hnode hnodeComment
  have hnil : node.bare.children = [] :=
    h.derives.children_eq_nil hd hbare (by simp [label_bare, hl])
  obtain ⟨e, he, hne⟩ := bare_mem_preorder (List.mem_singleton_self node) hn
    (fun m hm hmc => (h.laid.tidy c hc m (mem_preorder_trans hm hnode) hmc).2) hcomment
  obtain ⟨m, hm, -, rfl⟩ := mem_bareAll_iff.1 he
  rw [List.mem_singleton.1 hm] at hne
  rcases mem_preorder_iff.1 hne with heq | ⟨b, hb, -⟩
  · rw [← label_bare n, heq, label_bare, hl]
  · rw [hnil] at hb
    cases hb

end Order

namespace Fragment

variable {span : String} {fragment : Fragment}

/-- Versions that differ at two nodes that are apart differ. -/
theorem Exchanged.ne_of_apart {node node' : Tree} {old new version old' new' version' : String}
    (h : fragment.Exchanged span node old new version)
    (h' : fragment.Exchanged span node' old' new' version') (hle : node.stop ≤ node'.start)
    (hne : ∀ g r : List Char, new.toList ++ (g ++ (old'.toList ++ r))
      ≠ old.toList ++ (g ++ (new'.toList ++ r))) : version ≠ version' := by
  obtain ⟨before, gap, after, rfl, rfl⟩ := h.exists_between h' hle
  intro heq
  have heq := congrArg String.toList heq
  simp only [String.toList_append, List.append_assoc] at heq
  exact hne gap.toList after.toList (List.append_cancel_left heq)

/-- **Two nodes of the declaration of which one comes after the other**, with children
of theirs: either the later is below the child of the earlier, or the children are
apart. -/
theorem IsOf.below_or_apart (hof : fragment.IsOf span) {a b c d : Tree}
    (ha : a ∈ fragment.declaration.preorder) (hb : b ∈ fragment.declaration.preorder)
    (hla : a.label ≠ .named .program) (hlb : b.label ≠ .named .program) (hlater : Later a b)
    (hc : c ∈ a.children) (hd : d ∈ b.children) :
    b ∈ c.preorder ∨ c.stop ≤ d.start ∨ d.stop ≤ c.start := by
  have hnested : ∀ n ∈ fragment.declaration.preorder, n.label ≠ .named .program → Nested n := by
    intro n hn hl
    obtain ⟨e, he, hne⟩ :=
      hof.parse.exists_child (mem_preorder_trans hn (declaration_mem fragment)) hl
    exact (hof.parse.laid.nested e he).of_mem_preorder hne
  exact hlater.below_or_apart (hnested a ha hla) (hnested b hb hlb) hc hd

/-- **The versions of comparisons differ.** -/
theorem IsOf.nodup_moved (hof : fragment.IsOf span) {marks : List Punct}
    {moves : List (String × String)} {versions : List String}
    (hswaps : ∀ {old new : String}, (old, new) ∈ moves → Swaps old.toList new.toList)
    (h : List.Forall₂ (fragment.Moved span moves)
      (fragment.declaration.preorder.filter (isComparison marks)) versions) :
    versions.Nodup := by
  have hlater := (hof.parse.pairwise_later (declaration_mem fragment)).filter (isComparison marks)
  refine (pairwise_of_forall₂ h hlater).imp ?_
  rintro v v' ⟨a, ha, b, hb, hab, ⟨token, old, new, htoken, hmove, hexchanged⟩,
    ⟨token', old', new', htoken', hmove', hexchanged'⟩⟩
  obtain ⟨ha, hcomparison⟩ := List.mem_filter.1 ha
  obtain ⟨hb, hcomparison'⟩ := List.mem_filter.1 hb
  obtain ⟨hla, hmark⟩ := Bool.and_eq_true_iff.1 hcomparison
  obtain ⟨hlb, -⟩ := Bool.and_eq_true_iff.1 hcomparison'
  have hla : a.label = .named .binaryExpression := beq_iff_eq.1 hla
  have hlb : b.label = .named .binaryExpression := beq_iff_eq.1 hlb
  have hmem : token ∈ a.children := List.mem_of_find?_eq_some htoken
  rcases hof.below_or_apart ha hb (by rw [hla]; nofun) (by rw [hlb]; nofun) hab hmem
    (List.mem_of_find?_eq_some htoken') with hbelow | hle | hle
  · -- no comparison is below an operator
    obtain ⟨c, hc, htc⟩ := exists_child_of_child
      (mem_preorder_trans ha (declaration_mem fragment)) hmem
    obtain ⟨p, hp⟩ : ∃ p, token.label = .punct p := by
      rw [htoken, Option.any_some] at hmark
      split at hmark
      next p hp => exact ⟨p, hp⟩
      next => cases hmark
    have hl := hof.parse.label_of_mem_mark hc htc hp hbelow (by simp [isComment, isA, hlb])
    rw [hlb] at hl
    cases hl
  · exact hexchanged.ne_of_apart hexchanged' hle ((hswaps hmove).ne_of_apart (hswaps hmove'))
  · exact (hexchanged'.ne_of_apart hexchanged hle ((hswaps hmove').ne_of_apart (hswaps hmove))).symm

/-- What is in the condition of a node, and what comes after it. -/
theorem IsOf.hasOther_of_isConditioned (hof : fragment.IsOf span) {a c : Tree}
    (ha : a ∈ fragment.declaration.preorder) (hcond : isConditioned a = true)
    (hc : a.child? .condition = some c) : a.label ≠ .named .program
      ∧ HasOther fragment.text c.start c.stop ∧ HasOther fragment.text c.stop a.stop := by
  obtain ⟨hcond, -⟩ := Bool.and_eq_true_iff.1 hcond
  obtain ⟨k, hl, hk⟩ := exists_conditionalKind hcond
  have hprogram : a.label ≠ .named .program := by
    rw [hl]
    rintro ⟨⟩
    cases hk
  obtain ⟨e, he, hae⟩ :=
    hof.parse.exists_child (mem_preorder_trans ha (declaration_mem fragment)) hprogram
  exact ⟨hprogram, hasOther_condition hof.parse he hae hcond hc⟩

/-- **The versions of conditions differ.** -/
theorem IsOf.nodup_negated (hof : fragment.IsOf span) {versions : List String}
    (h : List.Forall₂ (fragment.Negated span)
      (fragment.declaration.preorder.filter isConditioned) versions) : versions.Nodup := by
  have hlater := (hof.parse.pairwise_later (declaration_mem fragment)).filter isConditioned
  have hnegates : ∀ {a c : Tree} {old version : String}, a ∈ fragment.declaration.preorder →
      isConditioned a = true → a.child? .condition = some c →
      fragment.Exchanged span c old (negated c old) version →
      Negates old.toList (negated c old).toList := fun ha hcond hc hex =>
    negates_of_negated _ (exists_mem_of_hasOther hex.text
      (hof.hasOther_of_isConditioned ha hcond hc).2.1)
  refine (pairwise_of_forall₂ h hlater).imp ?_
  rintro v v' ⟨a, ha, b, hb, hab, ⟨c, old, hc, hex⟩, ⟨c', old', hc', hex'⟩⟩
  obtain ⟨ha, hconda⟩ := List.mem_filter.1 ha
  obtain ⟨hb, hcondb⟩ := List.mem_filter.1 hb
  obtain ⟨hprograma, -⟩ := hof.hasOther_of_isConditioned ha hconda hc
  obtain ⟨hprogramb, -, hafter⟩ := hof.hasOther_of_isConditioned hb hcondb hc'
  have hmem : c ∈ a.children := List.mem_of_find?_eq_some hc
  have hmem' : c' ∈ b.children := List.mem_of_find?_eq_some hc'
  have hx := hnegates ha hconda hc hex
  have hy := hnegates hb hcondb hc' hex'
  rcases hof.below_or_apart ha hb hprograma hprogramb hab hmem hmem' with hbelow | hle | hle
  · -- the later node is below the condition of the earlier
    obtain ⟨e, he, hce⟩ := exists_child_of_child
      (mem_preorder_trans ha (declaration_mem fragment)) hmem
    have hnested := (hof.parse.laid.nested e he).of_mem_preorder hce
    obtain ⟨-, hbstop⟩ := hnested.bounds hbelow
    obtain ⟨hstart, hstop⟩ := hnested.bounds
      (mem_preorder_trans (mem_preorder_of_child hmem' (mem_preorder_self c')) hbelow)
    obtain ⟨before, p, q, after, hspan, rfl, rfl, rfl, hinner, houter⟩ :=
      hex.exists_inside hex' hstart hstop
    have hspan' : span = (before ++ p ++ old') ++ q ++ after := by
      rw [hspan]
      simp only [String.append_assoc]
    have hq := hof.exists_mem hspan' hafter hinner (by
      simp only [size_append] at houter ⊢
      omega)
    intro heq
    have heq := congrArg String.toList heq
    simp only [String.toList_append] at heq
    simp only [String.toList_append] at hx
    refine hx.ne_of_within (.inr (.inl ⟨hy, hq⟩)) (List.append_assoc _ _ _) ?_
    rw [← List.append_assoc]
    exact List.append_cancel_left (List.append_cancel_right heq)
  · exact hex.ne_of_apart hex' hle
      (Rewording.ne_of_apart (.inr (.inl hx)) hx.changed (.inr (.inl hy)))
  · exact (hex'.ne_of_apart hex hle
      (Rewording.ne_of_apart (.inr (.inl hy)) hy.changed (.inr (.inl hx)))).symm

end Fragment

end JavaMutants
