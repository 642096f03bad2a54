import JavaMutants.Operator.Site
import JavaMutants.Proofs.Fragment.Place

/-!
# Where conditions lie

A condition is never the last thing in the statement or the expression
that has it (`IsParse.condition_closed`), so in an enclosed member it ends
before the closing brace, and it begins in the member since none of what
was put in front is such a statement or expression.
-/

namespace JavaMutants

open Syntax Text Tree Grammar Rule

/-- The kinds of what has a condition that can be negated. -/
def isConditionalKind (k : Kind) : Bool :=
  [.ifStatement, .whileStatement, .doStatement, .forStatement, .ternaryExpression].contains k

theorem exists_conditionalKind {n : Tree} (h : isConditional n = true) :
    ∃ k, n.label = .named k ∧ isConditionalKind k = true := by
  simp only [isConditional, Bool.or_eq_true, isA, beq_iff_eq] at h
  rcases h with (((h | h) | h) | h) | h <;> exact ⟨_, h, rfl⟩

theorem isComment_of_isConditional {n : Tree} (h : isConditional n = true) :
    n.isComment = false := by
  simp only [isConditional, Bool.or_eq_true, isA, beq_iff_eq] at h
  rcases h with (((h | h) | h) | h) | h <;> simp [isComment, isA, h]

/-! ## The rules -/

/-- **What has a condition does not end in it.** -/
def EndsAfterCondition (k : Kind) (cs : List Tree) : Prop :=
  isConditionalKind k = true → ∃ last ∈ cs.getLast?, last.field ≠ some .condition

theorem closes_of_derives {rule : Rules}
    (hr : rule.closes .condition (fun _ => false) count = true) {ts rest : List Token}
    {nodes : List Tree} (h : Derives rules rule none ts nodes rest) :
    ∃ last ∈ nodes.getLast?, last.field ≠ some .condition :=
  h.closes (fun p hp => (knows_rules (.inl rfl) p).symm.trans hp) count_le hr

theorem respects_of_avoids_conditional {rule : Rules}
    (h : rule.avoids isConditionalKind isInner = true) :
    rule.Respects rules isInner EndsAfterCondition := by
  refine respects_of_avoids (fun k cs hk hk' => ?_) h
  rw [hk] at hk'
  cases hk'

/-- The parts whose rules put a node with a condition over others. -/
def hasCondition : Part → Bool
  | .node _ => true
  | .expression _ => true
  | _ => false

/-- **No rule puts a condition last.** -/
theorem respects_endsAfterCondition (p : Part) (hp : isInner p = true) :
    (rules p).Respects rules isInner EndsAfterCondition := by
  have hother := forall_part
    (fun p => hasCondition p || (rules p).avoids isConditionalKind isInner)
    (fun _ => rfl) (by decide) (fun l n => by rw [rules_binary_high]; rfl) p
  cases p with
  | node k =>
    have hbody : (body k).avoids isConditionalKind isInner = true := by cases k <;> rfl
    refine ⟨fun _ _ _ hd hk => ?_, respects_of_avoids_conditional hbody⟩
    cases k with
    | ifStatement | whileStatement | doStatement | forStatement =>
      exact closes_of_derives (by decide) hd
    | ternaryExpression => cases hp
    | _ => cases hk
  | expression l =>
    refine ⟨rfl, fun left ts nodes rest _ hd _ => ?_, respects_of_avoids_conditional ?_⟩
    · obtain ⟨last, hlast, hf⟩ := closes_of_derives (by cases l <;> decide) hd
      refine ⟨last, ?_, hf⟩
      rw [List.getLast?_append, hlast]
      rfl
    · cases l <;> rfl
  | _ => exact respects_of_avoids_conditional hother

/-! ## Enclosed members -/

section Members

variable {text span : String} {tree : Tree} {members others : List Tree} {close : Span}

/-- What is known by a name is no comment. -/
theorem isComment_of_field (h : IsParse text tree) {c n : Tree} (hc : c ∈ tree.children)
    (hn : n ∈ c.preorder) {f : Field} (hf : n.field = some f) : n.isComment = false := by
  by_contra hcomment
  rw [(h.laid.tidy c hc n hn (by simpa using hcomment)).1] at hf
  cases hf

/-- What a node knows by a name is among the code of its children. -/
theorem bare_mem_of_child? (h : IsParse text tree) {c q n : Tree} (hc : c ∈ tree.children)
    (hq : q ∈ c.preorder) {f : Field} (hn : q.child? f = some n) :
    n.bare ∈ bareAll q.children ∧ n.bare.field = some f := by
  have hmem : n ∈ q.children := List.mem_of_find?_eq_some hn
  have hfield : n.field = some f := by simpa using List.find?_some hn
  have hcomment := isComment_of_field h hc
    (mem_preorder_trans (mem_preorder_of_child hmem (mem_preorder_self n)) hq) hfield
  exact ⟨mem_bareAll_iff.2 ⟨n, hmem, hcomment, rfl⟩, by rw [field_bare, hfield]⟩

/-- **What alone has a name** among the code of a node's children is what the node knows by
that name. -/
theorem exists_child?_of_bareAll (h : IsParse text tree) {c q m : Tree} (hc : c ∈ tree.children)
    (hq : q ∈ c.preorder) {f : Field} {front behind : List Tree}
    (heq : bareAll q.children = front ++ m :: behind) (hm : m.field = some f)
    (hfront : ∀ n ∈ front, n.field ≠ some f) (hbehind : ∀ n ∈ behind, n.field ≠ some f) :
    ∃ n, q.child? f = some n ∧ n.bare = m := by
  obtain ⟨t, ht, -, rfl⟩ := mem_bareAll_iff.1
    (heq ▸ List.mem_append_right front (List.mem_cons_self : m ∈ m :: behind))
  rw [field_bare] at hm
  obtain ⟨n, hn⟩ : ∃ n, q.child? f = some n :=
    Option.isSome_iff_exists.1 (List.find?_isSome.2 ⟨t, ht, by simp [hm]⟩)
  obtain ⟨hmem, hfield⟩ := bare_mem_of_child? h hc hq hn
  rw [heq] at hmem
  refine ⟨n, hn, ?_⟩
  rcases List.mem_append.1 hmem with hmem | hmem
  · exact absurd hfield (hfront _ hmem)
  · exact (List.mem_cons.1 hmem).resolve_right fun hmem => hbehind _ hmem hfield

/-- **A condition ends before something else of its statement begins.** -/
theorem exists_after_condition (h : IsParse text tree) {c q n : Tree} (hc : c ∈ tree.children)
    (hq : q ∈ c.preorder) (hcond : isConditional q = true)
    (hn : q.child? .condition = some n) :
    n.bare ∈ q.bare.children ∧ ∃ last ∈ q.bare.children, n.stop ≤ last.start := by
  obtain ⟨k, hl, hk⟩ := exists_conditionalKind hcond
  have hcomment := isComment_of_isConditional hcond
  obtain ⟨hbare, hfield⟩ := bare_mem_of_child? h hc hq hn
  rw [← children_bare] at hbare
  refine ⟨hbare, ?_⟩
  obtain ⟨last, hlast, hlf⟩ := h.respects respects_endsAfterCondition
    (respects_of_avoids_conditional rfl) hc hq hcomment hl hk
  rw [← children_bare] at hlast
  have hne : q.bare.children ≠ [] := List.ne_nil_of_mem hbare
  obtain rfl : q.bare.children.getLast hne = last :=
    Option.some.inj ((List.getLast?_eq_some_getLast hne).symm.trans hlast)
  refine ⟨_, List.getLast_mem hne, ?_⟩
  -- the condition is another child than the last
  obtain ⟨d, hd, hqd⟩ := h.bare_mem hc hq hcomment
  have hord := (h.nested_code hd hqd).ordered
  have hsplit := List.dropLast_append_getLast hne
  rw [← hsplit, spans, List.map_append] at hord
  rw [← hsplit] at hbare
  rcases List.mem_append.1 hbare with hbare | hbare
  · have hle := hord.stop_le_start (List.mem_map.2 ⟨_, hbare, rfl⟩)
      (List.mem_singleton.2 rfl)
    rwa [span_bare] at hle
  · rw [← List.mem_singleton.1 hbare] at hlf
    exact absurd hfield hlf

/-- **The condition of what stands in an enclosed member lies in it.** -/
theorem condition_bounds (h : IsParse (around span) tree)
    (e : Enclosed (size span) tree members others close) {c q n : Tree}
    (hc : c ∈ tree.children) (hq : q ∈ c.preorder) (hcond : isConditional q = true)
    (hn : q.child? .condition = some n) : 19 ≤ n.start ∧ n.stop ≤ 19 + size span := by
  obtain ⟨hbare, last, hlast, hle⟩ := exists_after_condition h hc hq hcond hn
  obtain ⟨k, hl, hk⟩ := exists_conditionalKind hcond
  have hcomment := isComment_of_isConditional hcond
  obtain ⟨d, hd, hqd⟩ := h.bare_mem hc hq hcomment
  have hns : n.bare.start = n.start := congrArg Span.start (span_bare n)
  have hne : n.bare.stop = n.stop := congrArg Span.stop (span_bare n)
  have hbl : q.bare.label = .named k := by rw [label_bare, hl]
  constructor
  · have hin := ((h.nested_code hd hqd).bounds_child hbare).1
    rcases e.node_cases hd hqd with heq | heq | ⟨ho, -⟩ | ⟨m, hm, hqm⟩
    · rw [heq] at hbl
      cases hbl
      cases hk
    · rw [heq] at hbl
      cases hbl
      cases hk
    · rw [hbl] at ho
      obtain rfl : k = .identifier := by simpa [isOpening] using ho
      cases hk
    · have hstart := e.le_start h hm hqm
      omega
  · have hin : ∀ {m}, m ∈ q.bare.children → m ∈ d.preorder := fun hm =>
      mem_preorder_trans (mem_preorder_of_child hm (mem_preorder_self _)) hqd
    rw [← hne] at hle ⊢
    exact e.stop_le_of_before h hd (hin hbare) hd (hin hlast) hle

end Members

end JavaMutants
