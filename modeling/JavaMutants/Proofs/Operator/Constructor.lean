import JavaMutants.Proofs.Operator.Version
import JavaMutants.Proofs.Fragment.Call

/-!
# Emptied constructors

The body of a constructor is a brace, then a call of another constructor if there
is one, and then statements (`Begins`); a compact constructor calls none. Emptying
it gives one version, with the call as its only statement or with none at all
(`emptyBody_exact`). The call is looked for as the first thing in the body that has
a name, and comments have one. So a call is lost that a comment stands before
(`emptyBody_comment`).
-/

namespace JavaMutants

open Syntax Text Tree Grammar Rule

/-! ## The bodies of constructors -/

/-- **What a rule gives ends in a body**, of one kind, and nothing before it is known
as one. -/
def EndsInBody (kind : Kind) (rule : Rules) : Prop :=
  ∀ ts nodes rest, Derives rules rule none ts nodes rest → ∃ front us cs,
    nodes = front ++ [(above (.named kind) cs).withField (some .body)]
      ∧ (∀ n ∈ front, n.field ≠ some .body) ∧ Derives rules (body kind) none us cs rest

theorem EndsInBody.both {kind : Kind} {a b : Rules} (ha : a.knows .body (fun _ => false) = false)
    (hb : EndsInBody kind b) : EndsInBody kind (both a b) := by
  intro ts nodes rest h
  obtain ⟨ns, mid, ms, rfl, hns, hms⟩ := h.of_both
  obtain ⟨front, us, cs, rfl, hfront, hcs⟩ := hb mid ms rest hms
  refine ⟨ns ++ front, us, cs, (List.append_assoc ..).symm, fun n hn => ?_, hcs⟩
  rcases List.mem_append.1 hn with hn | hn
  · exact field_ne_of_derives (.inr rfl) ha hns n hn
  · exact hfront n hn

theorem endsInBody_the (kind : Kind) : EndsInBody kind (field .body (the kind)) := by
  intro ts nodes rest h
  obtain ⟨ns, rfl, hns⟩ := h.of_field
  obtain ⟨cs, rfl, hcs⟩ := hns.of_part.of_tree
  exact ⟨[], ts, cs, rfl, fun _ hn => absurd hn List.not_mem_nil, hcs⟩

theorem endsInBody_constructor : EndsInBody .constructorBody (body .constructorDeclaration) := by
  iterate 5 refine EndsInBody.both rfl ?_
  exact endsInBody_the _

theorem endsInBody_compact : EndsInBody .block (body .compactConstructorDeclaration) := by
  iterate 2 refine EndsInBody.both rfl ?_
  intro ts nodes rest h
  obtain ⟨ns, rfl, hns⟩ := h.of_field
  exact endsInBody_the _ ts _ rest (.field hns.of_part)

/-- A call of another constructor. -/
def isCall (node : Tree) : Bool := node.isA .explicitConstructorInvocation

/-- **Nodes are what a body begins with and the rest of it**: a brace, some calls, and
what is no call. -/
structure Begins (calls cs : List Tree) : Prop where
  /-- Those are the parts. -/
  parts : ∃ brace others, cs = brace :: (calls ++ others) ∧ brace.label.isNamed = false
    ∧ ∀ n ∈ others, isCall n = false
  /-- There is no more than one call. -/
  calls : calls = [] ∨ ∃ call, calls = [call] ∧ isCall call = true

theorem isCall_eq_false_of_shows {rule : Rules}
    (hr : rule.shows (.named .explicitConstructorInvocation) showsCall = false)
    {ts rest : List Token} {nodes : List Tree} (h : Derives rules rule none ts nodes rest) :
    ∀ n ∈ nodes, isCall n = false := by
  intro n hn
  by_contra hcall
  rcases h.shows rfl showsCall_of_shows hn (beq_iff_eq.1 (by simpa [isCall, isA] using hcall))
    with ⟨m, hm, -⟩ | hs
  · exact absurd hm List.not_mem_nil
  · rw [hr] at hs
    cases hs

/-- **The body of a constructor begins with a call or with none.** -/
theorem begins_constructorBody {ts rest : List Token} {nodes : List Tree}
    (h : Derives rules (body .constructorBody) none ts nodes rest) :
    ∃ calls, Begins calls nodes := by
  obtain ⟨_, _, _, rfl, hopen, hrest⟩ := h.of_both
  obtain ⟨s, -, rfl⟩ := hopen.of_mark
  obtain ⟨_, _, closing, rfl, hinner, hclose⟩ := hrest.of_both
  obtain ⟨calls, _, statements, rfl, hcall, hstatements⟩ := hinner.of_both
  have hothers : ∀ n ∈ statements ++ closing, isCall n = false := by
    intro n hn
    rcases List.mem_append.1 hn with hn | hn
    · exact isCall_eq_false_of_shows rfl hstatements n hn
    · exact isCall_eq_false_of_shows rfl hclose n hn
  refine ⟨calls, ⟨tokenLeaf (.punct .braceOpen) s, _, ?_, isNamed_tokenLeaf rfl s, hothers⟩, ?_⟩
  · rw [List.singleton_append, List.append_assoc]
  · rcases hcall.of_either with hcall | hcall
    · obtain ⟨cs, rfl, -⟩ := hcall.of_part.of_tree
      exact .inr ⟨_, rfl, rfl⟩
    · exact .inl hcall.of_nothing.1

/-- A block begins with no call. -/
theorem begins_block {ts rest : List Token} {nodes : List Tree}
    (h : Derives rules (body .block) none ts nodes rest) : Begins [] nodes := by
  obtain ⟨_, _, _, rfl, hopen, hinner⟩ := h.of_both
  obtain ⟨s, -, rfl⟩ := hopen.of_mark
  exact ⟨⟨tokenLeaf _ s, _, rfl, isNamed_tokenLeaf rfl s, isCall_eq_false_of_shows rfl hinner⟩, .inl rfl⟩

/-- **Nothing but the brace stands before a call.** -/
theorem Begins.label_of_before {calls cs before after : List Tree} {call : Tree}
    (h : Begins calls cs) (hcs : cs = before ++ call :: after) (hcall : isCall call = true) :
    ∀ n ∈ before, n.label.isNamed = false := by
  obtain ⟨brace, others, rfl, hbrace, hothers⟩ := h.parts
  have hother : call ∉ others := fun hmem => by simp [hothers call hmem] at hcall
  have hne : brace ≠ call := by
    rintro rfl
    rw [beq_iff_eq.1 hcall] at hbrace
    cases hbrace
  cases before with
  | nil => exact fun _ hn => absurd hn List.not_mem_nil
  | cons first before =>
    obtain ⟨rfl, htail⟩ := List.cons.inj hcs
    cases before with
    | nil => exact fun n hn => List.mem_singleton.1 hn ▸ hbrace
    | cons second before =>
      -- the first call takes the second place, and all after it are others
      exfalso
      have hmem : call ∈ others := by
        rcases h.calls with rfl | ⟨first, rfl, -⟩
        · rw [List.nil_append] at htail
          exact htail ▸ List.mem_append_right _ List.mem_cons_self
        · have hrest : others = before ++ call :: after := (List.cons.inj htail).2
          exact hrest ▸ List.mem_append_right _ List.mem_cons_self
      exact hother hmem

/-- **What stands before a call in a body** and is named is a comment. -/
theorem Begins.isComment_of_before {cs calls before after : List Tree} {call : Tree}
    (h : Begins calls (bareAll cs)) (hcs : cs = before ++ call :: after)
    (hcall : isCall call = true) {n : Tree} (hn : n ∈ before) (hnamed : n.label.isNamed = true) :
    n.isComment = true := by
  have hcomment : call.isComment = false := by
    simp [isComment, isA, beq_iff_eq.1 (show _ = true from hcall)]
  have hbare : bareAll cs = bareAll before ++ call.bare :: bareAll after := by
    rw [hcs, bareAll_append, bareAll, hcomment]
    rfl
  by_contra hnot
  have hmem : n.bare ∈ bareAll before := mem_bareAll_iff.2 ⟨n, hn, by simpa using hnot, rfl⟩
  have hlabel := h.label_of_before hbare (by rwa [isCall, isA, label_bare]) n.bare hmem
  rw [label_bare, hnamed] at hlabel
  cases hlabel

section Sound

variable {text : String} {tree c node : Tree}

/-- **The body of a declaration** that ends in one. -/
theorem exists_body_of_endsInBody {k kind : Kind} (hends : EndsInBody kind (body k))
    (h : parseSound text = .ok tree) (hc : c ∈ tree.children) (hn : node ∈ c.preorder)
    (hl : node.label = .named k) (hk : isDeclaration k = true) :
    ∃ b us rest, node.child? .body = some b
      ∧ Derives rules (body kind) none us (bareAll b.children) rest := by
  obtain ⟨-, ts, rest, -, hout⟩ := Target.exists_outcome_of_declaration h hc hn hl hk
  have hplaced : (body k).isPlaced false = true := isPlaced_rules (.node k)
  obtain ⟨front, us, cs, heq, hfront, hcs⟩ := hends ts _ rest (derives_of_outcome hplaced hout)
  rw [children_bare] at heq
  obtain ⟨b, hb, hbare⟩ := exists_child?_of_bareAll (isParse_of_parseSound h) hc hn heq rfl hfront
    fun _ hn => absurd hn List.not_mem_nil
  have hchildren : bareAll b.children = cs := by
    rw [← children_bare, hbare, children_withField]
    rfl
  exact ⟨b, us, rest, hb, hchildren ▸ hcs⟩

/-- **The body of a constructor** begins with a call or with none, that of a compact one
with none. -/
theorem exists_begins (h : parseSound text = .ok tree) (hc : c ∈ tree.children)
    (hn : node ∈ c.preorder) (hk : node.isA .constructorDeclaration = true
      ∨ node.isA .compactConstructorDeclaration = true) :
    ∃ b calls, node.child? .body = some b ∧ Begins calls (bareAll b.children)
      ∧ (node.isA .compactConstructorDeclaration = true → calls = []) := by
  rcases hk with hk | hk
  · obtain ⟨b, us, rest, hb, hderives⟩ :=
      exists_body_of_endsInBody endsInBody_constructor h hc hn (beq_iff_eq.1 hk) rfl
    obtain ⟨calls, hbegins⟩ := begins_constructorBody hderives
    refine ⟨b, calls, hb, hbegins, fun hcompact => ?_⟩
    have hl := (beq_iff_eq.1 hk).symm.trans (beq_iff_eq.1 hcompact)
    cases hl
  · obtain ⟨b, us, rest, hb, hderives⟩ :=
      exists_body_of_endsInBody endsInBody_compact h hc hn (beq_iff_eq.1 hk) rfl
    exact ⟨b, [], hb, begins_block hderives, fun _ => rfl⟩

end Sound

/-! ## What is left of a body -/

/-- The call of another constructor in a body. -/
def callOf? (body : Tree) : Option Tree := body.children.find? isCall

/-- Whether a comment stands before a node of a body. -/
def isCommentedBefore (body call : Tree) : Bool :=
  body.children.any fun c => c.isComment && decide (c.stop ≤ call.start)

section Head

variable {cs : List Tree} {b call : Tree} {calls : List Tree}

theorem head?_namedChildren (before after : List Tree) (hnamed : call.label.isNamed = true)
    (hb : b.children = before ++ call :: after) :
    b.namedChildren.head? = (before.find? (·.label.isNamed)).or (some call) := by
  rw [namedChildren, List.head?_filter, hb, List.find?_append,
    List.find?_cons_of_pos (p := fun n : Tree => n.label.isNamed) hnamed]

/-- What stands before a node among children in order has ended where it begins, and
nothing else has. -/
theorem Syntax.Tree.Nested.stop_le_start_iff (h : Nested b) {before after : List Tree}
    (hb : b.children = before ++ call :: after) {n : Tree} (hn : n ∈ b.children) :
    n.stop ≤ call.start ↔ n ∈ before := by
  have hord := h.ordered
  rw [hb, spans, List.map_append] at hord
  constructor
  · intro hle
    rw [hb] at hn
    refine (List.mem_append.1 hn).resolve_right fun hafter => ?_
    obtain ⟨mid, -, hrest⟩ := ordered_append_iff.1 hord
    have hlt := (hrest.mem (List.mem_map_of_mem hafter)).2.1
    rcases List.mem_cons.1 hafter with rfl | hafter
    · exact absurd hlt (by unfold Tree.start Tree.stop at hle; omega)
    · have hstart := (hrest.2.2.mem (List.mem_map_of_mem hafter)).1
      have hcall := hrest.2.1
      unfold Tree.start Tree.stop at hle
      omega
  · intro hbefore
    exact hord.stop_le_start (List.mem_map_of_mem hbefore) (List.mem_map_of_mem List.mem_cons_self)

/-- **What has a name first in a body** with a call is that call, or a comment before
it. -/
theorem Begins.head?_namedChildren (h : Begins calls (bareAll b.children)) (hnested : Nested b)
    (hcall : callOf? b = some call) :
    (isCommentedBefore b call = false → b.namedChildren.head? = some call)
      ∧ (isCommentedBefore b call = true →
        ∃ first, b.namedChildren.head? = some first ∧ isCall first = false) := by
  obtain ⟨hp, before, after, hb, hbefore⟩ := List.find?_eq_some_iff_append.1 hcall
  have hnamed : call.label.isNamed = true := by
    rw [beq_iff_eq.1 (show (call.label == _) = true from hp)]
    rfl
  have hmem : ∀ n ∈ before, n ∈ b.children := fun n hn => hb ▸ List.mem_append_left _ hn
  rw [JavaMutants.head?_namedChildren before after hnamed hb]
  constructor
  · intro hnone
    have hall : before.find? (·.label.isNamed) = none := by
      refine List.find?_eq_none.2 fun n hn hl => ?_
      have hcomment := h.isComment_of_before hb hp hn hl
      have hle := (hnested.stop_le_start_iff hb (hmem n hn)).2 hn
      have hno := List.any_eq_false.1 hnone n (hmem n hn)
      simp [hcomment, hle] at hno
    rw [hall]
    rfl
  · intro hsome
    obtain ⟨n, hn, hcomment⟩ := List.any_eq_true.1 hsome
    simp only [Bool.and_eq_true, decide_eq_true_eq] at hcomment
    have hin := (hnested.stop_le_start_iff hb hn).1 hcomment.2
    have hl : n.label.isNamed = true := by
      have hlabel := hcomment.1
      simp only [isComment, isA, Bool.or_eq_true, beq_iff_eq] at hlabel
      rcases hlabel with hlabel | hlabel <;> rw [hlabel] <;> rfl
    obtain ⟨first, hfirst⟩ := Option.isSome_iff_exists.1
      (List.find?_isSome.2 ⟨n, hin, hl⟩ : (before.find? (·.label.isNamed)).isSome = true)
    refine ⟨first, by rw [hfirst]; rfl, ?_⟩
    simpa using hbefore first (List.mem_of_find?_eq_some hfirst)

end Head

/-- No call is in a body that begins with none. -/
theorem Begins.callOf?_eq_none {b : Tree} (h : Begins [] (bareAll b.children)) :
    callOf? b = none := by
  obtain ⟨brace, others, heq, hbrace, hothers⟩ := h.parts
  refine List.find?_eq_none.2 fun n hn hcall => ?_
  have hl : n.label = .named .explicitConstructorInvocation := beq_iff_eq.1 hcall
  have hmem : n.bare ∈ bareAll b.children :=
    mem_bareAll_iff.2 ⟨n, hn, by simp [isComment, isA, hl], rfl⟩
  rw [heq] at hmem
  rcases List.mem_cons.1 hmem with hfirst | hother
  · rw [← hfirst, label_bare, hl] at hbrace
    cases hbrace
  · have hnot := hothers n.bare hother
    simp [isCall, isA, hl] at hnot

/-- **What a constructor is emptied to.** -/
theorem exists_of_emptied? {target : Target} {fragment : Fragment} {declaration b : Tree}
    {bodies : List String} (hkind : target.kind = .constructor)
    (h : emptied? target fragment declaration b = some bodies) :
    ∃ new, bodies = [new]
      ∧ ((∃ call text, b.namedChildren.head? = some call ∧ isCall call = true
          ∧ fragment.textOf? call = some text ∧ new = blockOf text)
        ∨ (∀ first, b.namedChildren.head? = some first → isCall first = false)
          ∧ new = emptyBlock) := by
  simp only [emptied?, hkind] at h
  split at h
  next first hfirst =>
    split at h
    next hcall =>
      obtain ⟨text, htext, rfl⟩ := Option.map_eq_some_iff.1 h
      exact ⟨blockOf text, rfl, .inl ⟨first, text, hfirst, hcall, htext, rfl⟩⟩
    next hcall =>
      cases h
      refine ⟨emptyBlock, rfl, .inr ⟨fun other hother => ?_, rfl⟩⟩
      obtain rfl := Option.some.inj (hfirst.symm.trans hother)
      exact Bool.eq_false_of_not_eq_true hcall
  next hnone =>
    cases h
    refine ⟨emptyBlock, rfl, .inr ⟨fun first hfirst => ?_, rfl⟩⟩
    rw [hnone] at hfirst
    cases hfirst

/-- **Emptying a constructor** gives one version, with its body exchanged. A body with no
call of another constructor, which no compact one has, has no statements left. A call
has nothing before it but comments. If there are none, it is what is left of the body.
If there is one, nothing is left. -/
theorem emptyBody_exact {target : Target} {span : String} {fragment : Fragment}
    (hkind : target.kind = .constructor) (hparse : Fragment.parse? span true = some fragment)
    (hdeclaration : fragment.declaration.isA .constructorDeclaration = true
      ∨ fragment.declaration.isA .compactConstructorDeclaration = true) :
    ∃ body old new version, fragment.declaration.child? .body = some body
      ∧ emptyBody target span = some [version] ∧ fragment.Exchanged span body old new version
      ∧ (callOf? body = none → new = "\x7b\x7d")
      ∧ (∀ call, callOf? body = some call →
        (∀ n ∈ body.children, n.stop ≤ call.start → n.label.isNamed = true → n.isComment = true)
        ∧ (isCommentedBefore body call = false → ∃ text, fragment.textOf? call = some text
          ∧ new = "\x7b " ++ text ++ " \x7d")
        ∧ (isCommentedBefore body call = true → new = "\x7b\x7d"))
      ∧ (fragment.declaration.isA .compactConstructorDeclaration = true →
        callOf? body = none) := by
  have hsound := Fragment.parseSound_of_parse? hparse
  have hmember : Fragment.parse? span (target.kind != .typeDeclaration) = some fragment := by
    rw [hkind]
    exact hparse
  obtain ⟨c, hc, hn⟩ := (isParse_of_parseSound hsound).exists_child
    (Fragment.declaration_mem fragment) (by
      rcases hdeclaration with h | h <;> rw [beq_iff_eq.1 h] <;> nofun)
  obtain ⟨body, calls, hbody, hbegins, hcompact⟩ := exists_begins hsound hc hn hdeclaration
  have hnested : Nested body := ((isParse_of_parseSound hsound).laid.nested c hc).of_mem_preorder
    (mem_preorder_trans (mem_preorder_of_child (List.mem_of_find?_eq_some hbody)
      (mem_preorder_self body)) hn)
  obtain ⟨bodies, versions, hbodies, hversions, hall⟩ := versions_emptyBody hmember hbody
  obtain ⟨new, rfl, hnew⟩ := exists_of_emptied? hkind hbodies
  obtain ⟨version, _, ⟨-, old, hexchanged⟩, hnil, rfl⟩ := List.forall₂_cons_left_iff.1 hall
  obtain rfl := List.forall₂_nil_left_iff.1 hnil
  refine ⟨body, old, new, version, hbody, hversions, hexchanged, fun hnone => ?_,
    fun call hcall => ⟨fun n hn hle hnamed => ?_, fun hno => ?_, fun hyes => ?_⟩,
    fun h => (hcompact h ▸ hbegins).callOf?_eq_none⟩
  · rcases hnew with ⟨call, text, hhead, hcall, -⟩ | ⟨-, rfl⟩
    · have hmem := (List.mem_filter.1 (List.mem_of_mem_head? hhead)).1
      exact absurd hcall (List.find?_eq_none.1 hnone call hmem)
    · rfl
  · obtain ⟨hp, before, after, hb, -⟩ := List.find?_eq_some_iff_append.1 hcall
    exact hbegins.isComment_of_before hb hp ((hnested.stop_le_start_iff hb hn).1 hle) hnamed
  · have hhead := (hbegins.head?_namedChildren hnested hcall).1 hno
    rcases hnew with ⟨first, text, hfirst, -, htext, rfl⟩ | ⟨hnot, -⟩
    · obtain rfl := Option.some.inj (hhead.symm.trans hfirst)
      exact ⟨text, htext, rfl⟩
    · have hfalse := hnot call hhead
      rw [show isCall call = true from List.find?_some hcall] at hfalse
      cases hfalse
  · obtain ⟨first, hhead, hfalse⟩ := (hbegins.head?_namedChildren hnested hcall).2 hyes
    rcases hnew with ⟨call, text, hfirst, htrue, -⟩ | ⟨-, rfl⟩
    · obtain rfl := Option.some.inj (hhead.symm.trans hfirst)
      rw [htrue] at hfalse
      cases hfalse
    · rfl

/-- A call that comes first is kept, and a comment after it is not. -/
theorem emptyBody_exact_call :
    let span := "A() \x7b super(); /* c */ b(); \x7d"
    let target : Target := ⟨.constructor, "A", 0, Text.size span, 0, true, false⟩
    ∃ fragment body call old, Fragment.parse? span true = some fragment
      ∧ fragment.declaration.isA .constructorDeclaration = true
      ∧ fragment.declaration.child? .body = some body ∧ callOf? body = some call
      ∧ isCommentedBefore body call = false
      ∧ emptyBody target span = some ["A() \x7b super(); \x7d"]
      ∧ fragment.Exchanged span body old "\x7b super(); \x7d" "A() \x7b super(); \x7d" := by
  intro span target
  have hall : ((Fragment.parse? span true).bind fun f =>
      if f.declaration.isA .constructorDeclaration = true then
        (f.declaration.child? .body).bind fun body => (callOf? body).bind fun call =>
          if isCommentedBefore body call = false then f.textOf? call else none
      else none) = some "super();"
      ∧ emptyBody target span = some ["A() \x7b super(); \x7d"] := by decide +kernel
  obtain ⟨hsome, hversions⟩ := hall
  obtain ⟨fragment, hparse, hsome⟩ := Option.bind_eq_some_iff.1 hsome
  obtain ⟨hconstructor, hsome⟩ := Option.ite_none_right_eq_some.1 hsome
  obtain ⟨body, hbody, hsome⟩ := Option.bind_eq_some_iff.1 hsome
  obtain ⟨call, hcall, hsome⟩ := Option.bind_eq_some_iff.1 hsome
  obtain ⟨hno, htext⟩ := Option.ite_none_right_eq_some.1 hsome
  obtain ⟨body', old, new, version, hbody', hversion, hexchanged, -, hkept, -⟩ :=
    @emptyBody_exact target span fragment rfl hparse (.inl hconstructor)
  obtain rfl := Option.some.inj (hbody.symm.trans hbody')
  obtain ⟨text, htext', rfl⟩ := (hkept call hcall).2.1 hno
  obtain rfl := Option.some.inj (htext.symm.trans htext')
  obtain rfl := List.singleton_inj.1 (Option.some.inj (hversions.symm.trans hversion))
  exact ⟨fragment, body, call, old, hparse, hconstructor, hbody, hcall, hno, hversions, hexchanged⟩

/-- **A call is lost that a comment stands before.** -/
theorem emptyBody_comment :
    let span := "A() \x7b /* c */ super(); b(); \x7d"
    let target : Target := ⟨.constructor, "A", 0, Text.size span, 0, true, false⟩
    ∃ fragment body call, Fragment.parse? span true = some fragment
      ∧ fragment.declaration.isA .constructorDeclaration = true
      ∧ fragment.declaration.child? .body = some body ∧ callOf? body = some call
      ∧ fragment.textOf? call = some "super();"
      ∧ emptyBody target span = some ["A() \x7b\x7d"] := by
  intro span target
  have hall : ((Fragment.parse? span true).bind fun f =>
      if f.declaration.isA .constructorDeclaration = true then
        (f.declaration.child? .body).bind fun body => (callOf? body).bind f.textOf?
      else none) = some "super();" ∧ emptyBody target span = some ["A() \x7b\x7d"] := by
    decide +kernel
  obtain ⟨hsome, hversions⟩ := hall
  obtain ⟨fragment, hparse, hsome⟩ := Option.bind_eq_some_iff.1 hsome
  obtain ⟨hconstructor, hsome⟩ := Option.ite_none_right_eq_some.1 hsome
  obtain ⟨body, hbody, hsome⟩ := Option.bind_eq_some_iff.1 hsome
  obtain ⟨call, hcall, htext⟩ := Option.bind_eq_some_iff.1 hsome
  exact ⟨fragment, body, call, hparse, hconstructor, hbody, hcall, htext, hversions⟩

end JavaMutants
