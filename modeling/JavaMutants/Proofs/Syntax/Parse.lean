import JavaMutants.Proofs.Syntax.Repair
import JavaMutants.Source
import Mathlib.Data.List.Pairwise

/-!
# What a sound text is parsed to

A tree that is free of faults was read by the grammar, without any
repair. Its nodes nest, its offsets are cuts of the text, and without its
comments it is what the grammar derives from the tokens of the code.
`IsParse` puts this together, and `isParse_of_parseSound` says that
nothing else is accepted. Whatever is said of the trees of source files
is said of trees of this shape.
-/

namespace JavaMutants.Syntax

open Syntax.Tree Grammar Text

/-- The tokens that the grammar reads. -/
def Token.code (cs : List Char) : List Token := (Token.scan cs).filter fun t => !t.isComment

/-- The comments. -/
def Token.comments (cs : List Char) : List Token := (Token.scan cs).filter Token.isComment

theorem Token.terminated_code (cs : List Char) : Terminated (Token.code cs) :=
  (Token.terminated_scan cs).filter fun t ht => by simp [Token.isComment, ht]

/-! ## Comments in place -/

/-- **Nodes as they lie in a text**, with comments that are yet to be put
in: they nest, their leaves begin and end at cuts, the comments overlap
none of them, and a comment among them is a leaf. -/
structure Laid (text : String) (comments : List Token) (cs : List Tree) : Prop where
  /-- The nodes come one after the other. -/
  ordered : Ordered 0 (spans cs) (size text)
  /-- Each of them is nested. -/
  nested : ∀ c ∈ cs, Nested c
  /-- Leaves begin and end between characters. -/
  cuts : ∀ x ∈ leavesAll cs, IsCut text.toList x.2.start ∧ IsCut text.toList x.2.stop
  /-- The comments overlap no leaf. -/
  apart : ∀ t ∈ comments, Apart t.span (leavesAll cs)
  /-- A comment is known by no name and has nothing below it. -/
  tidy : ∀ c ∈ cs, ∀ n ∈ c.preorder, n.isComment = true → n.field = none ∧ n.children = []

/-- What is asked of a comment that is put in: it is one, has some text,
and stands between cuts. -/
structure Fitting (text : String) (t : Token) : Prop where
  /-- It is a comment. -/
  comment : t.isComment = true
  /-- It has some text. -/
  lt : t.span.start < t.span.stop
  /-- It begins and ends between characters. -/
  cuts : IsCut text.toList t.span.start ∧ IsCut text.toList t.span.stop

/-- The leaf of a comment. -/
theorem commentLeaf_eq {t : Token} (h : t.isComment = true) :
    ∃ k, commentLeaf t = leaf (.named k) t.span ∧ (commentLeaf t).isComment = true
      ∧ (commentLeaf t).faulty = false := by
  obtain ⟨x, s⟩ := t
  rcases Bool.or_eq_true_iff.1 h with h | h
  · obtain rfl : x = .piece .lineComment := beq_iff_eq.1 h
    exact ⟨_, rfl, rfl, rfl⟩
  · obtain rfl : x = .piece .blockComment := beq_iff_eq.1 h
    exact ⟨_, rfl, rfl, rfl⟩

theorem preorder_leaf (l : Label) (s : Span) : (leaf l s).preorder = [leaf l s] := by
  rw [preorder_eq]
  rfl

theorem nested_leaf {l : Label} {s : Span} (h : s.start < s.stop) : Nested (leaf l s) :=
  .node h (Nat.le_of_lt h) (by simp) (by simp) (by simp)

/-- **A comment that is put in leaves the nodes laid out.** -/
theorem Laid.insert {text : String} {t : Token} {comments : List Token} {cs : List Tree}
    (h : Laid text (t :: comments) cs) (ht : Fitting text t)
    (hlater : ∀ u ∈ comments, t.span.stop ≤ u.span.start) :
    Laid text comments (insertAmong (commentLeaf t) cs) := by
  obtain ⟨k, hleaf, -⟩ := commentLeaf_eq ht.comment
  rw [hleaf]
  have hnested : Nested (leaf (.named k) t.span) := nested_leaf ht.lt
  have hapart : Apart t.span (leavesAll cs) := h.apart t List.mem_cons_self
  have hstop : t.span.stop ≤ size text := ht.cuts.2.le
  -- a leaf of the new nodes is an old one or the comment
  have hleaves : ∀ x ∈ leavesAll (insertAmong (leaf (.named k) t.span) cs),
      x ∈ leavesAll cs ∨ x = (.named k, t.span) := fun x hx =>
    (mem_leavesAll_insertAmong hx).imp_right fun hx => by simpa [leaf, leaves] using hx
  constructor
  · exact ordered_insertAmong h.ordered h.nested ht.lt (Nat.zero_le _) hstop hapart
  · exact nested_insertAmong hnested h.nested fun c hc hlo hhi =>
      hnested.insert (h.nested c hc) hlo hhi (hapart.child hc)
  · intro x hx
    rcases hleaves x hx with hx | rfl
    · exact h.cuts x hx
    · exact ht.cuts
  · intro u hu x hx
    rcases hleaves x hx with hx | rfl
    · exact h.apart u (List.mem_cons_of_mem t hu) x hx
    · exact .inl (hlater u hu)
  · intro c hc n hn hcomment
    rcases mem_preorder_insertAmong hc hn with hn | ⟨d, hd, m, hm, rfl | ⟨rfl, hlo, hhi⟩⟩
    · rw [preorder_leaf, List.mem_singleton] at hn
      subst hn
      exact ⟨rfl, rfl⟩
    · exact h.tidy d hd n hm hcomment
    · -- a comment is a leaf, and nothing is put into a leaf
      rw [isComment_insert] at hcomment
      obtain ⟨-, hnil⟩ := h.tidy d hd m hm hcomment
      have hx : (m.label, m.span) ∈ m.leaves := by
        rw [leaves_of_children_nil hnil]
        exact List.mem_singleton.2 rfl
      have hlt := ht.lt
      rcases hapart.child hd _ (mem_leaves_of_mem_preorder hm hx) with h | h
      · exact absurd hhi (Nat.not_lt.2 h)
      · exact absurd (Nat.lt_of_lt_of_le hlt h) (Nat.not_lt.2 hlo)

theorem Laid.foldl {text : String} {comments : List Token} {cs : List Tree}
    (h : Laid text comments cs) (hfit : ∀ t ∈ comments, Fitting text t)
    (hpair : comments.Pairwise fun t u => t.span.stop ≤ u.span.start) :
    Laid text [] (comments.foldl (fun cs t => insertAmong (commentLeaf t) cs) cs) := by
  induction comments generalizing cs with
  | nil => exact h
  | cons t comments ih =>
    obtain ⟨ht, hfit⟩ := List.forall_mem_cons.1 hfit
    obtain ⟨hlater, hpair⟩ := List.pairwise_cons.1 hpair
    exact ih (h.insert ht hlater) hfit hpair

/-! ## The tokens of a text -/

theorem Token.lies_code (cs : List Char) : Lies [] cs (Token.code cs) :=
  (Token.lies_scan cs).filter _

theorem Token.fitting_of_mem_comments {text : String} {t : Token}
    (ht : t ∈ Token.comments text.toList) : Fitting text t := by
  obtain ⟨ht, hc⟩ := List.mem_filter.1 ht
  exact ⟨hc, Token.lt_of_comment_mem_scan ht hc, (Token.lies_scan text.toList).isCut ht⟩

/-- **A comment and a token of the code do not overlap.** -/
theorem Token.apart {cs : List Char} {t u : Token} (ht : t ∈ Token.comments cs)
    (hu : u ∈ Token.code cs) : u.span.stop ≤ t.span.start ∨ t.span.stop ≤ u.span.start := by
  obtain ⟨ht, hct⟩ := List.mem_filter.1 ht
  obtain ⟨hu, hcu⟩ := List.mem_filter.1 hu
  have hpair := (Token.lies_scan cs).pairwise
  obtain ⟨before, after, hscan⟩ := List.append_of_mem ht
  rw [hscan, List.pairwise_append, List.pairwise_cons] at hpair
  obtain ⟨-, ⟨hafter, -⟩, hbefore⟩ := hpair
  rw [hscan, List.mem_append, List.mem_cons] at hu
  rcases hu with hu | rfl | hu
  · exact .inl (hbefore u hu t List.mem_cons_self)
  · rw [hct] at hcu
    cases hcu
  · exact .inr (hafter u hu)

/-- **What is derived from the code of a text is laid out in it.** -/
theorem laid_of_derives {text : String} {nodes : List Tree} {rest : List Token}
    (h : Derives rules (body .program) none (Token.code text.toList) nodes rest)
    (hsound : ∀ x ∈ leavesAll nodes, x.1.isFault = false) :
    Laid text (Token.comments text.toList) nodes := by
  have htakes := takes_of_program h
  obtain ⟨mid, after, htext, -, hord, hcuts⟩ :=
    htakes.lies (Token.lies_code text.toList) hsound
  have hmid : byteLength mid ≤ size text := by
    rw [List.nil_append] at htext
    rw [size, htext, byteLength_append]
    exact Nat.le_add_right _ _
  obtain ⟨hrow, hnested⟩ := ordered_spans_of_leafSpans
    (fun t ht lo hi hord => (h.formed t ht).nested hord) (hord.mono (Nat.le_refl 0) hmid)
  constructor
  · exact hrow
  · exact hnested
  · exact hcuts
  · intro t ht x hx
    obtain ⟨u, hu, hstart, hstop, -⟩ := htakes.exists_token hx
    rcases Token.apart ht hu with h | h
    · exact .inl (Nat.le_trans hstop h)
    · exact .inr (Nat.le_trans h hstart)
  · intro c hc n hn hcomment
    rw [isComment_of_program h c hc n hn] at hcomment
    cases hcomment

/-! ## Sound texts -/

/-- **What a sound text is parsed to.** -/
structure IsParse (text : String) (tree : Tree) : Prop where
  /-- The root is a program. -/
  label : tree.label = .named .program
  /-- The root ends where the text does. -/
  stop : tree.stop = size text
  /-- Without comments the tree is what the grammar derives. -/
  derives : Derives rules (body .program) none (Token.code text.toList)
    (bareAll tree.children) []
  /-- No leaf of the code is a fault. -/
  whole : ∀ x ∈ leavesAll (bareAll tree.children), x.1.isFault = false
  /-- A leaf is one of the code or a comment. -/
  leaves : ∀ x ∈ leavesAll tree.children, x ∈ leavesAll (bareAll tree.children)
    ∨ ∃ t ∈ Token.comments text.toList, x.2 = t.span
  /-- The nodes are laid out in the text. -/
  laid : Laid text [] tree.children
  /-- No node is a fault. -/
  sound : ∀ n ∈ tree.preorder, n.label.isFault = false

/-- The root with its comments, in terms of its children. -/
theorem foldl_insert_eq (comments : List Token) (hc : ∀ t ∈ comments, t.isComment = true)
    (root : Tree) : comments.foldl (fun t c => Tree.insert (commentLeaf c) t) root
      = .node root.label root.field root.span root.faulty
          (comments.foldl (fun cs t => insertAmong (commentLeaf t) cs) root.children) := by
  induction comments generalizing root with
  | nil => cases root; rfl
  | cons t comments ih =>
    obtain ⟨ht, hc⟩ := List.forall_mem_cons.1 hc
    obtain ⟨-, -, -, hf⟩ := commentLeaf_eq ht
    rw [List.foldl_cons, ih hc, List.foldl_cons]
    simp only [label_insert, field_insert, span_insert, faulty_insert, children_insert, hf,
      Bool.or_false]

theorem bareAll_foldl (comments : List Token) (hc : ∀ t ∈ comments, t.isComment = true)
    (cs : List Tree) :
    bareAll (comments.foldl (fun cs t => insertAmong (commentLeaf t) cs) cs) = bareAll cs := by
  induction comments generalizing cs with
  | nil => rfl
  | cons t comments ih =>
    obtain ⟨ht, hc⟩ := List.forall_mem_cons.1 hc
    obtain ⟨-, -, hcomment, hf⟩ := commentLeaf_eq ht
    rw [List.foldl_cons, ih hc, bareAll_insertAmong hcomment hf]

theorem mem_leavesAll_foldl (comments : List Token) {cs : List Tree} {x : Label × Span}
    (hx : x ∈ leavesAll (comments.foldl (fun cs t => insertAmong (commentLeaf t) cs) cs)) :
    x ∈ leavesAll cs ∨ ∃ t ∈ comments, x.2 = t.span := by
  induction comments generalizing cs with
  | nil => exact .inl hx
  | cons t comments ih =>
    rcases ih hx with hx | ⟨u, hu, hxu⟩
    · rcases mem_leavesAll_insertAmong hx with hx | hx
      · exact .inl hx
      · have hspan : x.2 = t.span := by
          unfold commentLeaf at hx
          split at hx
          · rw [List.mem_singleton.1 hx]
          · rw [List.mem_singleton.1 hx]
        exact .inr ⟨t, List.mem_cons_self, hspan⟩
    · exact .inr ⟨u, List.mem_cons_of_mem _ hu, hxu⟩

/-- Comments do not change flags. -/
theorem flagged_foldl_comments (comments : List Token) (hc : ∀ t ∈ comments, t.isComment = true)
    {root : Tree} (h : Flagged root) :
    Flagged (comments.foldl (fun t c => Tree.insert (commentLeaf c) t) root) := by
  induction comments generalizing root with
  | nil => exact h
  | cons t comments ih =>
    obtain ⟨ht, hc⟩ := List.forall_mem_cons.1 hc
    obtain ⟨k, hleaf, -⟩ := commentLeaf_eq ht
    refine ih hc (h.insert ?_)
    rw [hleaf]
    exact flagged_leaf _ _

/-- The root with its comments, up to the end of the text. -/
theorem finishRoot_eq (size : Nat) {comments : List Token}
    (hc : ∀ t ∈ comments, t.isComment = true) (root : Tree) :
    ∃ start, finishRoot size comments root
      = .node root.label root.field ⟨start, size⟩ root.faulty
          (comments.foldl (fun cs t => insertAmong (commentLeaf t) cs) root.children) := by
  unfold finishRoot
  rw [foldl_insert_eq comments hc]
  exact ⟨_, rfl⟩

/-- **A finished tree has true flags**, and is flagged as the root was. -/
theorem flagged_finishRoot (size : Nat) {comments : List Token}
    (hc : ∀ t ∈ comments, t.isComment = true) {root : Tree} (h : Flagged root) :
    Flagged (finishRoot size comments root)
      ∧ (finishRoot size comments root).faulty = root.faulty := by
  have hfold := flagged_foldl_comments comments hc h
  obtain ⟨start, hroot⟩ := finishRoot_eq size hc root
  rw [foldl_insert_eq comments hc] at hfold
  rw [hroot]
  cases hfold with
  | node hb hcs => exact ⟨.node hb hcs, rfl⟩

/-- Without its comments, a finished program has the nodes that were
derived. -/
theorem bareAll_children_finishRoot (size : Nat) {comments : List Token}
    (hc : ∀ t ∈ comments, t.isComment = true) {code rest : List Token} {nodes : List Tree}
    (hd : Derives rules (body .program) none code nodes rest) :
    bareAll (finishRoot size comments (above (.named .program) nodes)).children = nodes := by
  obtain ⟨start, heq⟩ := finishRoot_eq size hc (above (.named .program) nodes)
  rw [heq]
  have hbare : bareAll nodes = nodes := bareAll_eq_self fun c hc =>
    ⟨isComment_of_program hd c hc c (mem_preorder_self c),
      bare_of_forall (isComment_of_program hd c hc)⟩
  exact (bareAll_foldl _ hc nodes).trans hbare

theorem Token.isComment_of_mem_comments (cs : List Char) :
    ∀ t ∈ Token.comments cs, t.isComment = true := fun _ ht => (List.mem_filter.1 ht).2

/-- **Every text is parsed to a finished root**, one that was read, or one that
had to be repaired and is flagged. -/
theorem exists_root (text : String) :
    ∃ root, parse text = finishRoot (size text) (Token.comments text.toList) root ∧ Flagged root
      ∧ ((∃ rest, (readProgram (Token.code text.toList)).result = some ([root], rest))
        ∨ root.faulty = true) := by
  unfold parse
  simp only
  rw [← Token.code, ← Token.comments]
  split
  next root rest hread =>
    obtain ⟨nodes, hroot, hd⟩ := derives_of_readProgram hread
    obtain rfl : root = above (.named .program) nodes := (List.cons.inj hroot).1
    exact ⟨_, rfl, flagged_above hd.flagged, .inl ⟨rest, hread⟩⟩
  next hread =>
    obtain ⟨hflag, hfaulty⟩ := faulty_repaired text.toList (Token.comments text.toList)
      (Token.terminated_code text.toList) fun root rest h => hread root rest h
    exact ⟨_, rfl, hflag, .inr hfaulty⟩

/-- **The flags of every parsed text are true.** -/
theorem flagged_parse (text : String) : Flagged (parse text) := by
  obtain ⟨root, hparse, hflag, -⟩ := exists_root text
  rw [hparse]
  exact (flagged_finishRoot _ (Token.isComment_of_mem_comments text.toList) hflag).1

theorem parseSound_eq_ok_iff {text : String} {tree : Tree} :
    parseSound text = .ok tree ↔ tree = parse text ∧ (parse text).firstFault = none := by
  unfold parseSound
  simp only
  cases (parse text).firstFault with
  | none =>
    rw [Except.ok.injEq]
    exact ⟨fun h => ⟨h.symm, rfl⟩, fun h => h.1.symm⟩
  | some fault => exact ⟨nofun, nofun⟩

/-- A sound text was read without repairs. -/
theorem exists_read_of_parseSound {text : String} {tree : Tree}
    (h : parseSound text = .ok tree) :
    ∃ root rest, (readProgram (Token.code text.toList)).result = some ([root], rest)
      ∧ tree = finishRoot (size text) (Token.comments text.toList) root
      ∧ tree.firstFault = none := by
  obtain ⟨rfl, hfault⟩ := parseSound_eq_ok_iff.1 h
  obtain ⟨root, hparse, hflag, ⟨rest, hread⟩ | hfaulty⟩ := exists_root text
  · exact ⟨root, rest, hread, hparse, hfault⟩
  · -- a root that was repaired is flagged
    rw [(flagged_parse text).firstFault_eq_none_iff, hparse,
      (flagged_finishRoot _ (Token.isComment_of_mem_comments text.toList) hflag).2, hfaulty] at hfault
    cases hfault

/-- **A sound text was read as it stands.** -/
theorem exists_derives_of_parseSound {text : String} {tree : Tree}
    (h : parseSound text = .ok tree) :
    ∃ nodes, Derives rules (body .program) none (Token.code text.toList) nodes []
      ∧ tree = finishRoot (size text) (Token.comments text.toList) (above (.named .program) nodes)
      ∧ Flagged tree ∧ tree.faulty = false := by
  obtain ⟨root, rest, hread, rfl, hfault⟩ := exists_read_of_parseSound h
  obtain ⟨nodes, hroot, hd⟩ := derives_of_readProgram hread
  obtain rfl : root = above (.named .program) nodes := (List.cons.inj hroot).1
  obtain ⟨hflag, -⟩ := flagged_finishRoot (size text)
    (Token.isComment_of_mem_comments text.toList)
    (flagged_above (l := .named .program) hd.flagged)
  obtain rfl := rest_eq_nil (Token.terminated_code text.toList) hd
  exact ⟨nodes, hd, rfl, hflag, hflag.firstFault_eq_none_iff.1 hfault⟩

/-- **Only such trees are accepted.** -/
theorem isParse_of_parseSound {text : String} {tree : Tree} (h : parseSound text = .ok tree) :
    IsParse text tree := by
  obtain ⟨nodes, hd, htree, hflag, hfaulty⟩ := exists_derives_of_parseSound h
  have hcomments := Token.isComment_of_mem_comments text.toList
  have hnone : ∀ n ∈ tree.preorder, n.label.isFault = false := by
    intro n hn
    by_contra hf
    rw [Bool.not_eq_false] at hf
    rw [hflag.faulty_eq_true_iff.2 ⟨n, hn, hf⟩] at hfaulty
    cases hfaulty
  -- the root is flagged as the tree is, so no leaf that was read is a fault
  have hroot : (above (.named .program) nodes).faulty = false := by
    rw [← hfaulty, htree,
      (flagged_finishRoot (size text) hcomments (flagged_above hd.flagged)).2]
  have hsound : ∀ x ∈ leavesAll nodes, x.1.isFault = false := by
    intro x hx
    by_contra hf
    rw [Bool.not_eq_false] at hf
    rw [faulty_above_of_leaf hd.flagged hx hf] at hroot
    cases hroot
  have hchildren := bareAll_children_finishRoot (size text) hcomments hd
  obtain ⟨start, heq⟩ := finishRoot_eq (size text) hcomments (above (.named .program) nodes)
  rw [heq] at htree hchildren
  subst htree
  have hlaid := (laid_of_derives hd hsound).foldl
    (fun t ht => Token.fitting_of_mem_comments ht)
    ((Token.lies_scan text.toList).filter Token.isComment).pairwise
  refine ⟨rfl, rfl, hchildren.symm ▸ hd, hchildren.symm ▸ hsound, fun x hx => ?_, hlaid, hnone⟩
  exact (mem_leavesAll_foldl _ hx).imp_left fun hx => hchildren.symm ▸ hx

section Sound

variable {text : String} {tree : Tree}

/-- A node of a sound text is the root or below one of its children. -/
theorem IsParse.exists_child (h : IsParse text tree) {n : Tree} (hn : n ∈ tree.preorder)
    (hl : n.label ≠ .named .program) : ∃ c ∈ tree.children, n ∈ c.preorder := by
  rcases mem_preorder_iff.1 hn with rfl | hn
  · exact absurd h.label hl
  · exact hn

/-- Without its comments, a node of a sound text is one that was
derived. -/
theorem IsParse.bare_mem (h : IsParse text tree) {c n : Tree} (hc : c ∈ tree.children)
    (hn : n ∈ c.preorder) (hcomment : n.isComment = false) :
    ∃ d ∈ bareAll tree.children, n.bare ∈ d.preorder :=
  bare_mem_preorder hc hn (fun m hm hmc => (h.laid.tidy c hc m hm hmc).2) hcomment

/-- **A node below the root stands between cuts**, and is not empty. -/
theorem IsParse.cuts (h : IsParse text tree) {c n : Tree} (hc : c ∈ tree.children)
    (hn : n ∈ c.preorder) :
    n.start < n.stop ∧ IsCut text.toList n.start ∧ IsCut text.toList n.stop := by
  have hnested := (h.laid.nested c hc).of_mem_preorder hn
  have hmem : ∀ x ∈ n.leaves, x ∈ leavesAll tree.children := fun x hx =>
    mem_leavesAll_iff.2 ⟨c, hc, mem_leaves_of_mem_preorder hn hx⟩
  obtain ⟨x, hx, hxs, -⟩ := hnested.exists_leaf_start
  obtain ⟨y, hy, hys, -⟩ := hnested.exists_leaf_stop
  rw [← hxs, ← hys]
  refine ⟨?_, (h.laid.cuts x (hmem x hx)).1, (h.laid.cuts y (hmem y hy)).2⟩
  rw [hxs, hys]
  exact hnested.lt

/-- **The children of a node of a sound text are such as the rules make
them.** -/
theorem IsParse.respects (h : IsParse text tree) {B : Kind → List Tree → Prop}
    (hrules : ∀ p, isInner p = true → (rules p).Respects rules isInner B)
    (hprogram : (body .program).Respects rules isInner B) {c n : Tree} (hc : c ∈ tree.children)
    (hn : n ∈ c.preorder) (hcomment : n.isComment = false) {k : Kind} (hl : n.label = .named k) :
    B k (bareAll n.children) := by
  obtain ⟨d, hd, hnd⟩ := h.bare_mem hc hn hcomment
  have hall := h.derives.respects hrules hprogram (fun _ hn => absurd hn List.not_mem_nil)
  have hB := hall d hd n.bare hnd k (by rw [label_bare, hl])
  rwa [children_bare] at hB

end Sound

end JavaMutants.Syntax
