import JavaMutants.Proofs.Fragment.Shape
import JavaMutants.Proofs.Syntax.Mark
import JavaMutants.Proofs.Syntax.Order

/-!
# Where the declaration of a member lies

The declaration of an enclosed member is the deepest node that covers it.
It either lies in the member, or it is the body of the class around it or
the whole program (`Enclosed.declaration_cases`); the class itself it
cannot be, since the body covers all that the class does. In the body and
in the program nothing is known as a body, and whatever is a token of an
operator or a condition lies in the member even then.
-/

namespace JavaMutants.Syntax

open Text Syntax.Tree Grammar Rule

/-! ## Covering nodes -/

/-- The node that covers a range is the first that does, or below it. -/
theorem exists_of_coveringAmong {r : Span} {ts : List Tree} {n : Tree}
    (h : coveringAmong r ts = some n) :
    ∃ t ∈ ts, n = covering r t ∧ t.start ≤ r.start ∧ r.stop ≤ t.stop := by
  induction ts with
  | nil => simp [coveringAmong] at h
  | cons t ts ih =>
    rw [coveringAmong] at h
    have hlater : coveringAmong r ts = some n →
        ∃ u ∈ t :: ts, n = covering r u ∧ u.start ≤ r.start ∧ r.stop ≤ u.stop := fun h =>
      let ⟨u, hu, hn⟩ := ih h
      ⟨u, List.mem_cons_of_mem t hu, hn⟩
    split at h
    next => exact hlater h
    next hstop =>
      split at h
      next => exact hlater h
      next =>
        split at h
        next => cases h
        next hstart =>
          exact ⟨t, List.mem_cons_self, (Option.some.inj h).symm, Nat.not_lt.1 hstart,
            Nat.not_lt.1 hstop⟩

/-- **The deepest node that covers a range** covers it, unless none does,
and none below it does. -/
theorem covering_spec (r : Span) (t : Tree) :
    covering r t ∈ t.preorder ∧ coveringAmong r (covering r t).children = none
      ∧ (covering r t = t
        ∨ (covering r t).start ≤ r.start ∧ r.stop ≤ (covering r t).stop) := by
  induction t using induction with
  | node l f s b cs ih =>
    rw [covering]
    cases h : coveringAmong r cs with
    | none => exact ⟨mem_preorder_self _, h, .inl rfl⟩
    | some n =>
      obtain ⟨c, hc, rfl, hstart, hstop⟩ := exists_of_coveringAmong h
      obtain ⟨hmem, hnone, hcov⟩ := ih c hc
      refine ⟨mem_preorder_of_child hc hmem, hnone, .inr ?_⟩
      rcases hcov with heq | hcov
      · rw [Option.getD_some, heq]
        exact ⟨hstart, hstop⟩
      · exact hcov

/-- **The node in a row of nodes that covers a range is found.** -/
theorem coveringAmong_eq {r : Span} {lo hi : Nat} {ts : List Tree}
    (hord : Ordered lo (spans ts) hi) {c : Tree} (hc : c ∈ ts)
    (hstart : c.start ≤ r.start) (hstop : r.stop ≤ c.stop) (hlt : r.start < c.stop) :
    coveringAmong r ts = some (covering r c) := by
  induction ts generalizing lo with
  | nil => exact absurd hc List.not_mem_nil
  | cons t ts ih =>
    obtain ⟨-, hne, hrest⟩ := hord
    have hne : t.start < t.stop := hne
    rw [coveringAmong]
    rcases List.mem_cons.1 hc with rfl | hc
    · rw [if_neg (Nat.not_lt.2 hstop), if_neg, if_neg (Nat.not_lt.2 hstart)]
      simp only [Bool.or_eq_true, decide_eq_true_eq, Bool.and_eq_true, beq_iff_eq]
      omega
    · -- what comes before it has ended where the range begins
      have hle : t.stop ≤ c.start := (hrest.mem (List.mem_map.2 ⟨c, hc, rfl⟩)).1
      split
      next => exact ih hrest hc
      next =>
        rw [if_pos]
        · exact ih hrest hc
        · simp only [Bool.or_eq_true, decide_eq_true_eq, Bool.and_eq_true, beq_iff_eq,
            bne_iff_ne]
          omega

/-- **The deepest node at the place of a node below** is found below as
well. -/
theorem Tree.Nested.covering_eq {t n : Tree} (h : Nested t) (hn : n ∈ t.preorder) :
    covering n.span t = covering n.span n := by
  induction t using induction with
  | node l f s b cs ih =>
    rcases mem_preorder_iff.1 hn with rfl | ⟨c, hc, hnc⟩
    · rfl
    · obtain ⟨hstart, hstop⟩ := (h.child hc).bounds hnc
      have hlt := ((h.child hc).of_mem_preorder hnc).lt
      have hfound : coveringAmong n.span cs = some (covering n.span c) :=
        coveringAmong_eq h.ordered hc hstart hstop (Nat.lt_of_lt_of_le hlt hstop)
      rw [covering, hfound, Option.getD_some]
      exact ih c hc (h.child hc) hnc

/-- **A node with two children is the deepest at its place.** -/
theorem Tree.Nested.covering_self {n : Tree} (h : Nested n) (htwo : 2 ≤ n.children.length) :
    covering n.span n = n := by
  obtain ⟨l, f, s, b, cs⟩ := n
  rw [covering]
  cases hamong : coveringAmong s cs with
  | none =>
    have hnone : coveringAmong (span (.node l f s b cs)) cs = none := hamong
    rw [hnone, Option.getD_none]
  | some m =>
    obtain ⟨c, hc, -, hstart, hstop⟩ := exists_of_coveringAmong hamong
    have hprecedes := h.precedes htwo hc (mem_preorder_self c)
    have hs : (Tree.node l f s b cs).start = s.start ∧ (Tree.node l f s b cs).stop = s.stop :=
      ⟨rfl, rfl⟩
    unfold Precedes at hprecedes
    omega

/-! ## Nodes of an enclosed member -/

/-- A leaf of a keyword or a mark has no name. -/
theorem isNamed_tokenLeaf {l : Label} (hl : l.isNamed = false) (s : Span) :
    (tokenLeaf l s).label.isNamed = false := by
  unfold tokenLeaf
  split
  · exact hl
  · rfl

theorem mem_preorder_tokenLeaf {n : Tree} {l : Label} {s : Span}
    (h : n ∈ (tokenLeaf l s).preorder) : n = tokenLeaf l s := by
  unfold tokenLeaf at h ⊢
  rw [preorder_leaf] at h
  exact List.mem_singleton.1 h

theorem mem_preorder_withField {n t : Tree} {f : Option Field}
    (h : n ∈ (t.withField f).preorder) : n = t.withField f ∨ ∃ c ∈ t.children, n ∈ c.preorder := by
  rcases mem_preorder_iff.1 h with rfl | ⟨c, hc, hn⟩
  · exact .inl rfl
  · rw [children_withField] at hc
    exact .inr ⟨c, hc, hn⟩

/-- A node ends where the last of its children does. -/
theorem stop_above_append (l : Label) (cs : List Tree) (c : Tree) :
    (above l (cs ++ [c])).stop = c.stop := by
  obtain ⟨d, hd⟩ : ∃ d, (cs ++ [c]).head? = some d := by
    cases cs <;> exact ⟨_, rfl⟩
  unfold above
  rw [hd, List.getLast?_append]
  rfl

section Members

variable {span : String} {tree : Tree} {members others : List Tree} {close : Span}

/-- The code of a sound text is laid out in it. -/
theorem IsParse.laid_code {text : String} (h : IsParse text tree) :
    Laid text (Token.comments text.toList) (bareAll tree.children) :=
  laid_of_derives h.derives h.whole

/-- What comes after the opening brace. -/
def innerNodes (members others : List Tree) (close : Span) : List Tree :=
  members ++ tokenLeaf (.punct .braceClose) close :: others

/-- **The nodes of an enclosed member**: the class, its body, what was put
in front, and what comes after. -/
theorem Enclosed.node_cases {n : Nat} (e : Enclosed n tree members others close) {d q : Tree}
    (hd : d ∈ bareAll tree.children) (hq : q ∈ d.preorder) :
    q = classAround members close ∨ q = bodyAround members close
      ∨ (isOpening q.label = true ∧ q.stop ≤ 18)
      ∨ ∃ m ∈ innerNodes members others close, q ∈ m.preorder := by
  rw [e.shape] at hd
  rcases List.mem_cons.1 hd with rfl | hd
  · rcases mem_preorder_iff.1 hq with rfl | ⟨c, hc, hqc⟩
    · exact .inl rfl
    · simp only [classAround, above, children, List.mem_cons, List.not_mem_nil, or_false] at hc
      rcases hc with rfl | rfl | rfl
      · rw [mem_preorder_tokenLeaf hqc]
        exact .inr (.inr (.inl ⟨rfl, by decide⟩))
      · rcases mem_preorder_withField hqc with rfl | ⟨c, hc, -⟩
        · exact .inr (.inr (.inl ⟨rfl, by decide⟩))
        · exact absurd hc List.not_mem_nil
      · rcases mem_preorder_withField hqc with rfl | ⟨m, hm, hqm⟩
        · exact .inr (.inl rfl)
        · rcases List.mem_cons.1 hm with rfl | hm
          · rw [mem_preorder_tokenLeaf hqm]
            exact .inr (.inr (.inl ⟨rfl, by decide⟩))
          · refine .inr (.inr (.inr ⟨m, ?_, hqm⟩))
            rcases List.mem_append.1 hm with hm | hm
            · exact List.mem_append_left _ hm
            · rw [List.mem_singleton.1 hm]
              exact List.mem_append_right _ List.mem_cons_self
  · exact .inr (.inr (.inr ⟨d, List.mem_append_right _ (List.mem_cons_of_mem _ hd), hq⟩))

/-- A node that was derived is nested. -/
theorem IsParse.nested_code {text : String} (h : IsParse text tree) {d q : Tree}
    (hd : d ∈ bareAll tree.children) (hq : q ∈ d.preorder) : Nested q :=
  (h.laid_code.nested d hd).of_mem_preorder hq

theorem mem_leavesAll_of_mem_preorder {ts : List Tree} {d q : Tree} {x : Label × Span}
    (hd : d ∈ ts) (hq : q ∈ d.preorder) (hx : x ∈ q.leaves) : x ∈ leavesAll ts :=
  mem_leavesAll_iff.2 ⟨d, hd, mem_leaves_of_mem_preorder hq hx⟩

theorem children_bodyAround (members : List Tree) (close : Span) :
    (bodyAround members close).children = tokenLeaf (.punct .braceOpen) ⟨17, 18⟩
      :: (members ++ [tokenLeaf (.punct .braceClose) close]) := by
  unfold bodyAround
  rw [children_withField]
  rfl

/-- What comes after the opening brace was derived. -/
theorem Enclosed.exists_mem {n : Nat} (e : Enclosed n tree members others close) {m : Tree}
    (hm : m ∈ innerNodes members others close) :
    ∃ d ∈ bareAll tree.children, m ∈ d.preorder := by
  rw [e.shape]
  have hbody : bodyAround members close ∈ (classAround members close).children :=
    List.mem_cons_of_mem _ (List.mem_cons_of_mem _ List.mem_cons_self)
  have hin : ∀ c ∈ (bodyAround members close).children,
      ∃ d ∈ classAround members close :: others, c ∈ d.preorder := fun c hc =>
    ⟨_, List.mem_cons_self, mem_preorder_of_child hbody
      (mem_preorder_of_child hc (mem_preorder_self c))⟩
  rw [children_bodyAround] at hin
  rcases List.mem_append.1 hm with hm | hm
  · exact hin m (List.mem_cons_of_mem _ (List.mem_append_left _ hm))
  · rcases List.mem_cons.1 hm with rfl | hm
    · exact hin _ (List.mem_cons_of_mem _ (List.mem_append_right _ (List.mem_singleton.2 rfl)))
    · exact ⟨m, List.mem_cons_of_mem _ hm, mem_preorder_self m⟩

section Places

variable (h : IsParse (around span) tree) (e : Enclosed (size span) tree members others close)
include h e

/-- What comes after the opening brace does not begin before the member. -/
theorem Enclosed.le_start {m q : Tree} (hm : m ∈ innerNodes members others close)
    (hq : q ∈ m.preorder) : 19 ≤ q.start := by
  obtain ⟨d, hd, hmd⟩ := e.exists_mem hm
  obtain ⟨x, hx, hxs, -⟩ := (h.nested_code hd (mem_preorder_trans hq hmd)).exists_leaf_start
  rw [← hxs]
  exact e.inner x (mem_leavesAll_of_mem_preorder hm hq hx)

/-- Nothing begins after the closing brace. -/
theorem Enclosed.start_le {d q : Tree} (hd : d ∈ bareAll tree.children) (hq : q ∈ d.preorder) :
    q.start ≤ 20 + size span := by
  obtain ⟨x, hx, hxs, hlt⟩ := (h.nested_code hd hq).exists_leaf_start
  rw [← hxs]
  rcases e.stop x (mem_leavesAll_of_mem_preorder hd hq hx) with hle | rfl
  · omega
  · exact Nat.le_refl _

/-- What does not end in the member ends with the closing brace. -/
theorem Enclosed.stop_cases {d q : Tree} (hd : d ∈ bareAll tree.children)
    (hq : q ∈ d.preorder) : q.stop ≤ 19 + size span ∨ q.stop = 21 + size span := by
  obtain ⟨x, hx, hxs, -⟩ := (h.nested_code hd hq).exists_leaf_stop
  rw [← hxs]
  rcases e.stop x (mem_leavesAll_of_mem_preorder hd hq hx) with hle | rfl
  · exact .inl hle
  · exact .inr rfl

/-- **What has something after it ends in the member.** -/
theorem Enclosed.stop_le_of_before {d q d' q' : Tree} (hd : d ∈ bareAll tree.children)
    (hq : q ∈ d.preorder) (hd' : d' ∈ bareAll tree.children) (hq' : q' ∈ d'.preorder)
    (hle : q.stop ≤ q'.start) : q.stop ≤ 19 + size span := by
  have hstart := e.start_le h hd' hq'
  rcases e.stop_cases h hd hq with hstop | hstop
  · exact hstop
  · omega

/-- Where the class ends, its body does. -/
theorem Enclosed.body_bounds :
    (bodyAround members close).start = 17
      ∧ (bodyAround members close).stop = (classAround members close).stop
      ∧ 19 < (bodyAround members close).stop ∧ (bodyAround members close).stop = close.stop := by
  have hclose := mem_preorder_self (tokenLeaf (.punct .braceClose) close)
  have hmem : tokenLeaf (.punct .braceClose) close ∈ innerNodes members others close :=
    List.mem_append_right _ List.mem_cons_self
  have hstart := e.le_start h hmem hclose
  obtain ⟨d, hd, hmd⟩ := e.exists_mem hmem
  have hlt := (h.nested_code hd hmd).lt
  have hstop : (bodyAround members close).stop = close.stop := by
    unfold bodyAround
    rw [stop_withField, ← List.cons_append]
    exact stop_above_append _ _ _
  refine ⟨?_, ?_, ?_, hstop⟩
  · unfold bodyAround
    rw [start_withField]
    rfl
  · rfl
  · rw [hstop]
    exact Nat.lt_of_le_of_lt hstart hlt

/-- **What begins where the member does ends in it.** -/
theorem Enclosed.stop_le_of_start_le {m q : Tree} (hm : m ∈ innerNodes members others close)
    (hq : q ∈ m.preorder) (hstart : q.start ≤ 19) : q.stop ≤ 19 + size span := by
  obtain ⟨d, hd, hmd⟩ := e.exists_mem hm
  have hin := (h.nested_code hd hmd).bounds hq
  have hclose : tokenLeaf (.punct .braceClose) close ∈ innerNodes members others close :=
    List.mem_append_right _ List.mem_cons_self
  obtain ⟨d', hd', hcd⟩ := e.exists_mem hclose
  obtain ⟨-, hclass, hlt, hbody⟩ := e.body_bounds h
  rcases List.mem_append.1 hm with hm | hm
  · -- a member ends before the brace
    have hmem : bodyAround members close ∈ (classAround members close).preorder :=
      mem_preorder_of_child (List.mem_cons_of_mem _ (List.mem_cons_of_mem _ List.mem_cons_self))
        (mem_preorder_self _)
    have hord := (h.nested_code (by rw [e.shape]; exact List.mem_cons_self) hmem).ordered
    rw [children_bodyAround, ← List.cons_append, spans, List.map_append] at hord
    have hle : m.stop ≤ (tokenLeaf (.punct .braceClose) close).start :=
      hord.stop_le_start (List.mem_map.2 ⟨m, List.mem_cons_of_mem _ hm, rfl⟩)
        (List.mem_singleton.2 rfl)
    exact e.stop_le_of_before h hd (mem_preorder_trans hq hmd) hd' hcd
      (Nat.le_trans hin.2 hle)
  rcases List.mem_cons.1 hm with rfl | hm
  · -- the brace itself would begin after the member
    obtain rfl := mem_preorder_tokenLeaf hq
    have hleaf : (leafLabel (.punct .braceClose) close, close)
        ∈ leavesAll (bareAll tree.children) :=
      mem_leavesAll_of_mem_preorder hd hmd (List.mem_singleton.2 rfl)
    rcases e.stop _ hleaf with hle | heq
    · exact hle
    · have hs : close.start = 20 + size span := congrArg (fun x => x.2.start) heq
      have hstart : close.start ≤ 19 := hstart
      omega
  · -- what comes after the class begins after the member
    have hord := h.laid_code.ordered
    rw [e.shape] at hord
    have hord : Ordered 0 ([(classAround members close).span] ++ spans others)
      (size (around span)) := hord
    have hle : (classAround members close).stop ≤ m.start :=
      hord.stop_le_start (List.mem_singleton.2 rfl) (List.mem_map.2 ⟨m, hm, rfl⟩)
    omega

/-- **The declaration of an enclosed member** lies in the member, or it is
the whole program or the body around the member. -/
theorem Enclosed.declaration_cases {node : Tree}
    (hnode : node = tree.covering ⟨19, 19 + size span⟩) :
    (19 ≤ node.start ∧ node.stop ≤ 19 + size span) ∨ node = tree
      ∨ node.bare = bodyAround members close := by
  obtain ⟨hmem, hnone, hcov⟩ := covering_spec ⟨19, 19 + size span⟩ tree
  rw [← hnode] at hmem hnone hcov
  rcases hcov with htree | ⟨hstart, hstop⟩
  · exact .inr (.inl htree)
  rcases mem_preorder_iff.1 hmem with htree | ⟨c, hc, hnc⟩
  · exact .inr (.inl htree)
  by_cases hcomment : node.isComment = true
  · exact .inl (e.comments c hc node hnc hcomment)
  obtain ⟨d, hd, hbare⟩ := h.bare_mem hc hnc (by simpa using hcomment)
  have hbs : node.bare.start = node.start := congrArg Span.start (span_bare node)
  have hbe : node.bare.stop = node.stop := congrArg Span.stop (span_bare node)
  have hstart : node.start ≤ 19 := hstart
  have hstop : 19 + size span ≤ node.stop := hstop
  obtain ⟨hb₁, hb₂, hb₃, hb₄⟩ := e.body_bounds h
  rcases e.node_cases hd hbare with hq | hq | ⟨-, hq⟩ | ⟨m, hm, hq⟩
  · -- the class does not come up: its body covers all that it does
    exfalso
    obtain ⟨b, hb, -, hbb⟩ := mem_bareAll_iff.1 (show bodyAround members close
        ∈ bareAll node.children by
      rw [← children_bare, hq]
      exact List.mem_cons_of_mem _ (List.mem_cons_of_mem _ List.mem_cons_self))
    have hspan : b.span = (bodyAround members close).span := by rw [hbb, span_bare]
    have hbstart : b.start = 17 := (congrArg Span.start hspan).trans hb₁
    have hbstop : b.stop = node.stop :=
      (congrArg Span.stop hspan).trans (hb₂.trans (by rw [← hq, hbe]))
    have hbstop' : 19 < b.stop := by rw [show b.stop = _ from congrArg Span.stop hspan]; exact hb₃
    have hord := ((h.laid.nested c hc).of_mem_preorder hnc).ordered
    refine absurd (hnone.symm.trans (coveringAmong_eq hord hb ?_ ?_ ?_)) nofun
    · show b.start ≤ 19
      omega
    · show 19 + size span ≤ b.stop
      omega
    · exact hbstop'
  · exact .inr (.inr hq)
  · omega
  · have hle := e.le_start h hm hq
    have hle' := e.stop_le_of_start_le h hm hq (by omega)
    exact .inl ⟨by omega, by omega⟩

/-- **Neither the program nor the body around a member has a body.** -/
theorem Enclosed.child?_body {node : Tree} (hmem : node ∈ tree.preorder)
    (hnode : node = tree ∨ node.bare = bodyAround members close) :
    node.child? .body = none := by
  refine List.find?_eq_none.2 fun c hc hf => ?_
  have hfield : c.field = some .body := by simpa using hf
  have hcomment : c.isComment = false := by
    by_contra hcc
    obtain ⟨b, hb, hcb⟩ : ∃ b ∈ tree.children, c ∈ b.preorder := by
      rcases mem_preorder_iff.1 hmem with rfl | ⟨b, hb, hnb⟩
      · exact ⟨c, hc, mem_preorder_self c⟩
      · exact ⟨b, hb, mem_preorder_trans (mem_preorder_of_child hc (mem_preorder_self c)) hnb⟩
    rw [(h.laid.tidy b hb c hcb (by simpa using hcc)).1] at hfield
    cases hfield
  have hbare : c.bare ∈ bareAll node.children := mem_bareAll_iff.2 ⟨c, hc, hcomment, rfl⟩
  have hbf : c.bare.field = some .body := by rw [field_bare, hfield]
  rcases hnode with rfl | hnode
  · rw [e.shape] at hbare
    rcases List.mem_cons.1 hbare with heq | hbare
    · rw [heq] at hbf
      cases hbf
    · exact e.fields _ (List.mem_append_right _ hbare) hbf
  · rw [← children_bare, hnode, children_bodyAround] at hbare
    rcases List.mem_cons.1 hbare with heq | hbare
    · rw [heq] at hbf
      cases hbf
    · rcases List.mem_append.1 hbare with hbare | hbare
      · exact e.fields _ (List.mem_append_left _ hbare) hbf
      · rw [List.mem_singleton.1 hbare] at hbf
        cases hbf

/-- **A mark other than braces lies in the member.** -/
theorem Enclosed.punct_bounds {c node : Tree} (hc : c ∈ tree.children)
    (hmem : node ∈ c.preorder) {p : Punct} (hl : node.label = .punct p)
    (hopen : p ≠ .braceOpen) (hclose : p ≠ .braceClose) :
    19 ≤ node.start ∧ node.stop ≤ 19 + size span := by
  have hleaf := h.mem_leaves_of_mark hc hmem hl
  constructor
  · refine (e.start _ hleaf).resolve_right fun ho => ?_
    simp [isOpening, hopen] at ho
  · refine (e.stop _ hleaf).resolve_right fun heq => hclose ?_
    exact Label.punct.inj (congrArg Prod.fst heq)

end Places

end Members

end JavaMutants.Syntax
