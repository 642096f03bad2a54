import JavaMutants.Proofs.Fragment.Condition
import JavaMutants.Proofs.Traversal
import JavaMutants.Registry

/-!
# Generators never give up

The built-in generators exchange nodes of a text that is parsed on its
own. Whatever the text is, every node that they choose lies in it between
two of its characters (`Fragment.Editable`), so each exchange can be made
and every built-in operator gives its versions (`Registry.total_builtin`).

Only with a member is there something to show: it is parsed in a class
that is put around it, and an unbalanced text may end that class early.
The declaration is then the body of that class or the whole program, and
the nodes that are chosen lie in the member all the same.
-/

namespace JavaMutants

open Syntax Text Tree

namespace Fragment

/-- **A fragment of a text**: the text with something around it, parsed
without a fault. -/
structure IsOf (span : String) (fragment : Fragment) : Prop where
  /-- It is sound. -/
  parse : IsParse fragment.text fragment.tree
  /-- The text stands in it at its offset. -/
  text : ∃ a b, fragment.text = a ++ span ++ b ∧ Text.size a = fragment.offset
  /-- It has the size of the text. -/
  size : fragment.size = Text.size span
  /-- It is the text alone or with the class around it. -/
  cases : (fragment.offset = 0 ∧ fragment.text = span)
    ∨ (fragment.offset = 19 ∧ fragment.text = around span)

theorem parseSound_of_parse? {span : String} {isMember : Bool} {fragment : Fragment}
    (h : parse? span isMember = some fragment) :
    parseSound fragment.text = .ok fragment.tree := by
  unfold parse? at h
  cases isMember with
  | true =>
    simp only [if_pos] at h
    split at h
    next tree htree =>
      cases h
      exact htree
    next => cases h
  | false =>
    simp only [Bool.false_eq_true, if_false] at h
    split at h
    next tree htree =>
      cases h
      exact htree
    next => cases h

theorem isOf_of_parse? {span : String} {isMember : Bool} {fragment : Fragment}
    (h : parse? span isMember = some fragment) : fragment.IsOf span := by
  have hparse := isParse_of_parseSound (parseSound_of_parse? h)
  unfold parse? at h
  cases isMember with
  | true =>
    simp only [if_pos] at h
    split at h
    next =>
      cases h
      exact ⟨hparse, ⟨before, after, rfl, rfl⟩, rfl, .inr ⟨rfl, rfl⟩⟩
    next => cases h
  | false =>
    simp only [Bool.false_eq_true, if_false] at h
    split at h
    next =>
      cases h
      exact ⟨hparse, ⟨"", "", by simp, rfl⟩, rfl, .inl ⟨rfl, rfl⟩⟩
    next => cases h

/-- **A node that can be exchanged**: it lies in the text that was parsed,
between two of its characters. -/
structure Editable (fragment : Fragment) (node : Tree) : Prop where
  /-- It does not begin before the text. -/
  start : fragment.offset ≤ node.start
  /-- It is not turned around. -/
  le : node.start ≤ node.stop
  /-- It does not end after the text. -/
  stop : node.stop ≤ fragment.offset + fragment.size
  /-- It begins and ends between characters. -/
  cuts : IsCut fragment.text.toList node.start ∧ IsCut fragment.text.toList node.stop

section Edits

variable {span : String} {fragment : Fragment} {node : Tree}

/-- A cut of a fragment in the text that was parsed is a cut of it. -/
theorem IsOf.isCut (h : fragment.IsOf span) {n : Nat} (hcut : IsCut fragment.text.toList n)
    (hstart : fragment.offset ≤ n) (hstop : n ≤ fragment.offset + fragment.size) :
    IsCut span.toList (n - fragment.offset) := by
  obtain ⟨a, b, htext, hsize⟩ := h.text
  rw [htext, String.toList_append, String.toList_append] at hcut
  rw [h.size, ← hsize] at hstop
  rw [← hsize] at hstart ⊢
  have hfront := hcut.of_append (by rw [byteLength_append]; exact hstop)
  exact hfront.of_append_right hstart

/-- The text of a node that can be exchanged. -/
theorem Editable.exists_textOf? (h : Editable fragment node) :
    ∃ s, fragment.textOf? node = some s :=
  Text.exists_slice? h.le h.cuts.1 h.cuts.2

/-- **A node that can be exchanged is.** -/
theorem Editable.exists_applyTo? (h : Editable fragment node) (hof : fragment.IsOf span)
    (text : String) :
    ∃ edit version, Edit.ofNode? fragment node text = some edit
      ∧ edit.applyTo? span = some version := by
  have hle : fragment.offset ≤ node.stop := Nat.le_trans h.start h.le
  have hstart := hof.isCut h.cuts.1 h.start (Nat.le_trans h.le h.stop)
  have hstop := hof.isCut h.cuts.2 hle h.stop
  obtain ⟨version, hversion⟩ :=
    Text.exists_splice? (Nat.sub_le_sub_right h.le _) hstart hstop text
  refine ⟨⟨node.start - fragment.offset, node.stop - fragment.offset, text⟩, version, ?_, hversion⟩
  rw [Edit.ofNode?, Fragment.localRange?, if_pos (by simp [h.start, hle])]
  rfl

/-- **Sites that can be exchanged all are.** -/
theorem exists_exchangeEach (hof : fragment.IsOf span) {sites : List (Tree × String)}
    (h : ∀ site ∈ sites, Editable fragment site.1) :
    ∃ versions, exchangeEach fragment span sites = some versions := by
  refine exists_mapM_eq_some fun site hsite => ?_
  obtain ⟨edit, version, hedit, hversion⟩ := (h site hsite).exists_applyTo? hof site.2
  exact ⟨version, by simp [hedit, hversion]⟩

/-- **Sites whose new texts are made of their old ones all have one.** -/
theorem exists_textSites {nodes : List Tree} (h : ∀ n ∈ nodes, Editable fragment n)
    (change : Tree → String → String) :
    ∃ sites, nodes.mapM (fun n => (fragment.textOf? n).map fun text => (n, change n text))
        = some sites
      ∧ ∀ site ∈ sites, Editable fragment site.1 := by
  obtain ⟨sites, hsites⟩ := exists_mapM_eq_some
    (f := fun n => (fragment.textOf? n).map fun text => (n, change n text)) fun n hn => by
      obtain ⟨s, hs⟩ := (h n hn).exists_textOf?
      exact ⟨(n, change n s), by rw [hs]; rfl⟩
  refine ⟨sites, hsites, fun site hsite => ?_⟩
  obtain ⟨n, hn, hsome⟩ := exists_mem_left ((mapM_eq_some_iff _ _ _).1 hsites) hsite
  obtain ⟨text, -, rfl⟩ := Option.map_eq_some_iff.1 hsome
  exact h n hn

end Edits

/-! ## The nodes that are chosen -/

/-- A child of a node of a tree is below the root. -/
theorem exists_child_of_child {tree node n : Tree} (hnode : node ∈ tree.preorder)
    (hn : n ∈ node.children) : ∃ c ∈ tree.children, n ∈ c.preorder := by
  rcases mem_preorder_iff.1 hnode with rfl | ⟨c, hc, hnc⟩
  · exact ⟨n, hn, mem_preorder_self n⟩
  · exact ⟨c, hc, mem_preorder_trans (mem_preorder_of_child hn (mem_preorder_self n)) hnc⟩

section Choice

variable {span : String} {fragment : Fragment}

theorem declaration_mem (fragment : Fragment) :
    fragment.declaration ∈ fragment.tree.preorder :=
  (covering_spec _ _).1

/-- **A node below the root can be exchanged**, if it lies in the member
where there is a class around it. -/
theorem IsOf.editable (hof : fragment.IsOf span) {c n : Tree} (hc : c ∈ fragment.tree.children)
    (hn : n ∈ c.preorder)
    (hin : fragment.offset = 19 → fragment.text = around span →
      19 ≤ n.start ∧ n.stop ≤ 19 + Text.size span) : Editable fragment n := by
  obtain ⟨hlt, hcuts⟩ := hof.parse.cuts hc hn
  rcases hof.cases with ⟨hoff, htext⟩ | ⟨hoff, htext⟩
  · refine ⟨by omega, Nat.le_of_lt hlt, ?_, hcuts⟩
    have hle := hcuts.2.le
    rw [htext] at hle
    rw [hoff, hof.size, Nat.zero_add]
    exact hle
  · obtain ⟨hstart, hstop⟩ := hin hoff htext
    exact ⟨by omega, Nat.le_of_lt hlt, by rw [hoff, hof.size]; exact hstop, hcuts⟩

/-- **Everything in the body of the declaration can be exchanged.** -/
theorem IsOf.editable_body (hof : fragment.IsOf span) {body n : Tree}
    (hbody : fragment.declaration.child? .body = some body) (hn : n ∈ body.preorder) :
    Editable fragment n := by
  have hmem : body ∈ fragment.declaration.children := List.mem_of_find?_eq_some hbody
  obtain ⟨c, hc, hbc⟩ := exists_child_of_child (declaration_mem fragment) hmem
  refine hof.editable hc (mem_preorder_trans hn hbc) fun hoff htext => ?_
  have hparse := hof.parse
  rw [htext] at hparse
  obtain ⟨members, others, close, e⟩ := hparse.enclosed
  rcases e.declaration_cases hparse
      (show fragment.declaration = fragment.tree.covering ⟨19, 19 + Text.size span⟩ by
        rw [← hof.size, ← hoff]; rfl) with ⟨hstart, hstop⟩ | hnode
  · -- a declaration that lies in the member is below the root
    rcases mem_preorder_iff.1 (declaration_mem fragment) with htree | ⟨d, hd, hdd⟩
    · rw [htree] at hbody
      rw [e.child?_body hparse (mem_preorder_self _) (.inl rfl)] at hbody
      cases hbody
    · have hnested := (hparse.laid.nested d hd).of_mem_preorder hdd
      have hin := hnested.bounds (mem_preorder_of_child hmem hn)
      omega
  · rw [e.child?_body hparse (declaration_mem fragment) hnode] at hbody
    cases hbody

/-- **The operator of a comparison is a mark** that is swapped for another. -/
theorem exists_marks_of_operatorSite? {swap : Punct → Option Punct} {node token : Tree}
    {new : String} (h : operatorSite? swap node = some (token, new)) :
    token ∈ node.children ∧ ∃ p q, token.label = .punct p ∧ swap p = some q ∧ new = q.text := by
  unfold operatorSite? at h
  split at h
  next =>
    obtain ⟨found, hfound, h⟩ := Option.bind_eq_some_iff.1 h
    split at h
    next p hl =>
      obtain ⟨q, hq, heq⟩ := Option.map_eq_some_iff.1 h
      cases heq
      exact ⟨List.mem_of_find?_eq_some hfound, p, q, hl, hq, rfl⟩
    next => cases h
  next => cases h

/-- **The operator of a comparison can be exchanged.** -/
theorem IsOf.editable_operator (hof : fragment.IsOf span) {swap : Punct → Option Punct}
    (hswap : swap .braceOpen = none ∧ swap .braceClose = none) {node : Tree}
    (hnode : node ∈ fragment.declaration.preorder) {site : Tree × String}
    (hsite : operatorSite? swap node = some site) : Editable fragment site.1 := by
  obtain ⟨hmem, p, q, hl, hq, -⟩ := exists_marks_of_operatorSite? hsite
  obtain ⟨c, hc, htc⟩ := exists_child_of_child
    (mem_preorder_trans hnode (declaration_mem fragment)) hmem
  refine hof.editable hc htc fun hoff htext => ?_
  have hparse := hof.parse
  rw [htext] at hparse
  obtain ⟨members, others, close, e⟩ := hparse.enclosed
  refine e.punct_bounds hparse hc htc hl ?_ ?_
  · rintro rfl
    rw [hswap.1] at hq
    cases hq
  · rintro rfl
    rw [hswap.2] at hq
    cases hq

/-- **A condition can be exchanged.** -/
theorem IsOf.editable_condition (hof : fragment.IsOf span) {node condition : Tree}
    (hnode : node ∈ fragment.declaration.preorder) (hcond : condition? node = some condition) :
    Editable fragment condition := by
  unfold condition? at hcond
  split at hcond
  next hconditional =>
    have hmem : condition ∈ node.children := List.mem_of_find?_eq_some hcond
    have hroot := mem_preorder_trans hnode (declaration_mem fragment)
    obtain ⟨c, hc, htc⟩ := exists_child_of_child hroot hmem
    refine hof.editable hc htc fun hoff htext => ?_
    have hparse := hof.parse
    rw [htext] at hparse
    obtain ⟨members, others, close, e⟩ := hparse.enclosed
    obtain ⟨k, hl, hk⟩ := exists_conditionalKind hconditional
    obtain ⟨d, hd, hnd⟩ := hparse.exists_child hroot (by
      rw [hl]
      rintro ⟨⟩
      cases hk)
    exact condition_bounds hparse e hd hnd hconditional hcond
  next => cases hcond

end Choice

end Fragment

/-! ## The generators -/

section Generators

variable (target : Target) (span : String)

/-- What is generated from every fragment is generated from a text. -/
theorem exists_withDeclaration {generate : Fragment → Tree → Option (List String)}
    (h : ∀ fragment : Fragment, fragment.IsOf span →
      ∃ versions, generate fragment fragment.declaration = some versions) :
    ∃ versions, withDeclaration target span generate = some versions := by
  unfold withDeclaration
  split
  next fragment hfragment => exact h fragment (Fragment.isOf_of_parse? hfragment)
  next => exact ⟨[], rfl⟩

theorem exists_emptied? {fragment : Fragment} (hof : fragment.IsOf span) {body : Tree}
    (hbody : fragment.declaration.child? .body = some body) :
    ∃ bodies, emptied? target fragment fragment.declaration body = some bodies := by
  unfold emptied?
  cases target.kind with
  | constructor =>
    cases hhead : body.namedChildren.head? with
    | none => exact ⟨_, rfl⟩
    | some first =>
      have hmem : first ∈ body.children :=
        (List.mem_filter.1 (List.mem_of_mem_head? hhead)).1
      obtain ⟨s, hs⟩ := (hof.editable_body hbody
        (mem_preorder_of_child hmem (mem_preorder_self first))).exists_textOf?
      simp only [hs, Option.map_some]
      split
      next => exact ⟨_, rfl⟩
      next => exact ⟨_, rfl⟩
  | method => exact ⟨_, rfl⟩
  | typeDeclaration => exact ⟨_, rfl⟩

theorem exists_emptyBody : ∃ versions, emptyBody target span = some versions := by
  refine exists_withDeclaration target span fun fragment hof => ?_
  cases hbody : fragment.declaration.child? .body with
  | none => exact ⟨[], rfl⟩
  | some body =>
    obtain ⟨bodies, hbodies⟩ := exists_emptied? target span hof hbody
    have hedit : ∀ site ∈ bodies.map fun b => (body, b), fragment.Editable site.1 := by
      intro site hsite
      obtain ⟨b, -, rfl⟩ := List.mem_map.1 hsite
      exact hof.editable_body hbody (mem_preorder_self body)
    obtain ⟨versions, hversions⟩ := Fragment.exists_exchangeEach hof hedit
    exact ⟨versions, by simp [hbodies, hversions]⟩

theorem exists_defaultReturn : ∃ versions, defaultReturn target span = some versions := by
  refine exists_withDeclaration target span fun fragment hof => ?_
  cases hbody : fragment.declaration.child? .body with
  | none => exact ⟨[], rfl⟩
  | some body =>
    refine Fragment.exists_exchangeEach hof fun site hsite => ?_
    obtain ⟨value, -, rfl⟩ := List.mem_map.1 hsite
    exact hof.editable_body hbody (mem_preorder_self body)

/-- **A returned value is the value of a statement** of the body. -/
theorem exists_of_mem_returnedValues {body value : Tree} (h : value ∈ returnedValues body) :
    ∃ q ∈ body.preorder, q.label = .named .returnStatement ∧ value ∈ q.children
      ∧ value.label.isNamed = true := by
  obtain ⟨q, hq, hhead⟩ := List.mem_filterMap.1 h
  obtain ⟨hvisit, hl⟩ := List.mem_filter.1 hq
  obtain ⟨hmem, hnamed⟩ := List.mem_filter.1 (List.mem_of_mem_head? hhead)
  exact ⟨q, mem_preorder_of_mem_visit hvisit, beq_iff_eq.1 hl, hmem, hnamed⟩

theorem mem_of_mem_returnedValues {body value : Tree} (h : value ∈ returnedValues body) :
    value ∈ body.preorder := by
  obtain ⟨q, hq, -, hmem, -⟩ := exists_of_mem_returnedValues h
  exact mem_preorder_trans (mem_preorder_of_child hmem (mem_preorder_self value)) hq

theorem exists_negateReturn : ∃ versions, negateReturn target span = some versions := by
  refine exists_withDeclaration target span fun fragment hof => ?_
  split
  next => exact ⟨[], rfl⟩
  next =>
    cases hbody : fragment.declaration.child? .body with
    | none => exact ⟨[], rfl⟩
    | some body =>
      obtain ⟨sites, hsites, hedit⟩ := Fragment.exists_textSites
        (fun value hvalue => hof.editable_body hbody (mem_of_mem_returnedValues hvalue))
        fun _ text => "!(" ++ text ++ ")"
      obtain ⟨versions, hversions⟩ := Fragment.exists_exchangeEach hof hedit
      exact ⟨versions, by simp [hsites, hversions]⟩

theorem exists_swapOperators {swap : Punct → Option Punct}
    (hswap : swap .braceOpen = none ∧ swap .braceClose = none) :
    ∃ versions, swapOperators swap target span = some versions := by
  refine exists_withDeclaration target span fun fragment hof => ?_
  refine Fragment.exists_exchangeEach hof fun site hsite => ?_
  obtain ⟨node, hnode, hsome⟩ := List.mem_filterMap.1 hsite
  exact hof.editable_operator hswap hnode hsome

theorem exists_negateCondition : ∃ versions, negateCondition target span = some versions := by
  refine exists_withDeclaration target span fun fragment hof => ?_
  have hall : ∀ condition ∈ fragment.declaration.preorder.filterMap condition?,
      fragment.Editable condition := by
    intro condition hcondition
    obtain ⟨node, hnode, hsome⟩ := List.mem_filterMap.1 hcondition
    exact hof.editable_condition hnode hsome
  obtain ⟨sites, hsites, hedit⟩ := Fragment.exists_textSites hall negated
  obtain ⟨versions, hversions⟩ := Fragment.exists_exchangeEach hof hedit
  exact ⟨versions, by simp [hsites, hversions]⟩

end Generators

/-- **An operator that never gives up.** -/
def Operator.IsTotal (o : Operator) : Prop :=
  ∀ target span, ∃ versions, o.generate target span = some versions

/-- **No built-in operator ever gives up**, whatever the text is. -/
theorem Registry.isTotal_of_mem_builtin {o : Operator} (h : o ∈ builtin.operators) :
    o.IsTotal := by
  intro target span
  simp only [builtin, List.mem_cons, List.not_mem_nil, or_false] at h
  rcases h with rfl | rfl | rfl | rfl | rfl | rfl
  · exact exists_emptyBody target span
  · exact exists_defaultReturn target span
  · exact exists_negateReturn target span
  · exact exists_swapOperators target span ⟨rfl, rfl⟩
  · exact exists_negateCondition target span
  · exact exists_swapOperators target span ⟨rfl, rfl⟩

end JavaMutants
