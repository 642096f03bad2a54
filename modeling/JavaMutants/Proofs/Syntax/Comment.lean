import JavaMutants.Proofs.Syntax.Passage
import JavaMutants.Proofs.Syntax.Sound

/-!
# Comments of a sound text

Comments are no part of the code, and are put into the tree after it has been read. Each
node that is a comment stands where a token does that is one (`IsParse.exists_comment`), and
its text begins with a slash. The other way round, each such token is a node
(`exists_node_of_comment`), since what is put in later leaves the nodes where they are
(`Tree.exists_mem_insertAmong`).
-/

namespace JavaMutants.Syntax

open Syntax.Tree Text Grammar

/-! ## Nodes stay when a leaf is put in -/

namespace Tree

/-- **A node stays where it is when a leaf is put in.** -/
theorem exists_mem_insertAmong (extra : Tree) {ts : List Tree} {c n : Tree} (hc : c ∈ ts)
    (hn : n ∈ c.preorder) : ∃ d ∈ insertAmong extra ts, ∃ m ∈ d.preorder,
      m.label = n.label ∧ m.span = n.span := by
  induction c using induction generalizing ts with
  | node l f s b cs ih =>
    have hother : ∀ {us : List Tree}, node l f s b cs ∈ us →
        ∃ d ∈ us, ∃ m ∈ d.preorder, m.label = n.label ∧ m.span = n.span :=
      fun hmem => ⟨_, hmem, n, hn, rfl, rfl⟩
    rcases insertAmong_eq extra ts with ⟨before, after, rfl, hins, -⟩ |
      ⟨before, t, after, rfl, hins, -⟩
    · rw [hins]
      rcases List.mem_append.1 hc with hc | hc
      · exact hother (List.mem_append_left _ hc)
      · exact hother (List.mem_append_right _ (List.mem_cons_of_mem _ hc))
    · rw [hins]
      rcases List.mem_append.1 hc with hc | hc
      · exact hother (List.mem_append_left _ hc)
      · rcases List.mem_cons.1 hc with rfl | hc
        · -- the leaf is put into the node or below it
          refine ⟨_, List.mem_append_right _ List.mem_cons_self, ?_⟩
          rcases mem_preorder_iff.1 hn with rfl | ⟨d, hd, hnd⟩
          · exact ⟨_, mem_preorder_self _, label_insert _ _, span_insert _ _⟩
          · obtain ⟨e, he, m, hm, heq⟩ := ih d hd hd hnd
            exact ⟨m, mem_preorder_of_child (by rwa [children_insert]) hm, heq⟩
        · exact hother (List.mem_append_right _ (List.mem_cons_of_mem _ hc))

/-- **A leaf that is put in is there.** -/
theorem exists_mem_insertAmong_self (extra : Tree) (ts : List Tree) :
    ∃ d ∈ insertAmong extra ts, extra ∈ d.preorder := by
  have hinsert : ∀ t : Tree, extra ∈ (insert extra t).preorder := fun t => by
    induction t using induction with
    | node l f s b cs ih =>
      refine mem_preorder_iff.2 (.inr ?_)
      rw [children_insert]
      rcases insertAmong_eq extra cs with ⟨before, after, -, hins, -⟩ |
        ⟨before, c, after, rfl, hins, -⟩
      · exact ⟨extra, by simp [children, hins], mem_preorder_self _⟩
      · exact ⟨insert extra c, by simp [children, hins], ih c (by simp)⟩
  rcases insertAmong_eq extra ts with ⟨before, after, -, hins, -⟩ | ⟨before, t, after, -, hins, -⟩
  · exact ⟨extra, by simp [hins], mem_preorder_self _⟩
  · exact ⟨insert extra t, by simp [hins], hinsert t⟩

/-- **Every leaf that is put in is there in the end.** -/
theorem exists_mem_foldl {comments : List Token} {t : Token} (ht : t ∈ comments) (cs : List Tree) :
    ∃ c ∈ comments.foldl (fun cs t => insertAmong (commentLeaf t) cs) cs, ∃ n ∈ c.preorder,
      n.label = (commentLeaf t).label ∧ n.span = (commentLeaf t).span := by
  have hstays : ∀ {comments : List Token} {cs : List Tree} {c n : Tree}, c ∈ cs → n ∈ c.preorder →
      ∃ d ∈ comments.foldl (fun cs t => insertAmong (commentLeaf t) cs) cs, ∃ m ∈ d.preorder,
        m.label = n.label ∧ m.span = n.span := by
    intro comments
    induction comments with
    | nil => exact fun hc hn => ⟨_, hc, _, hn, rfl, rfl⟩
    | cons u comments ih =>
      intro cs c n hc hn
      obtain ⟨d, hd, m, hm, hlabel, hspan⟩ := exists_mem_insertAmong (commentLeaf u) hc hn
      obtain ⟨e, he, k, hk, hlabel', hspan'⟩ := ih hd hm
      exact ⟨e, he, k, hk, hlabel'.trans hlabel, hspan'.trans hspan⟩
  obtain ⟨before, after, rfl⟩ := List.append_of_mem ht
  rw [List.foldl_append, List.foldl_cons]
  obtain ⟨d, hd, hmem⟩ := exists_mem_insertAmong_self (commentLeaf t)
    (before.foldl (fun cs t => insertAmong (commentLeaf t) cs) cs)
  exact hstays hd hmem

end Tree

section Sound

variable {text : String} {tree : Tree}

/-- The place of a comment of a sound text is that of a token. -/
theorem IsParse.exists_comment (h : IsParse text tree) {c m : Tree}
    (hc : c ∈ tree.children) (hm : m ∈ c.preorder) (hcomment : m.isComment = true) :
    ∃ t ∈ Token.comments text.toList, m.span = t.span := by
  have hnil := (h.laid.tidy c hc m hm hcomment).2
  have hx : (m.label, m.span) ∈ leavesAll tree.children := by
    refine mem_leavesAll_iff.2 ⟨c, hc, mem_leaves_of_mem_preorder hm ?_⟩
    rw [leaves_of_children_nil hnil]
    exact List.mem_singleton.2 rfl
  refine (h.leaves _ hx).resolve_left fun hx => ?_
  obtain ⟨d, hd, hxd⟩ := mem_leavesAll_iff.1 hx
  obtain ⟨n, hn, -, hxn⟩ := exists_of_mem_leaves hxd
  have hnc := isComment_of_program h.derives d hd n hn
  have hlabel : m.label = n.label := congrArg Prod.fst hxn
  unfold isComment isA at hnc hcomment
  rw [← hlabel, hcomment] at hnc
  cases hnc

/-- **A comment begins with a slash.** -/
theorem IsParse.exists_slash_of_comment (h : IsParse text tree) {c n : Tree}
    (hc : c ∈ tree.children) (hn : n ∈ c.preorder) (hcomment : n.isComment = true) :
    ∃ a b d, text.toList = a ++ ('/' :: b ++ d)
      ∧ n.span = ⟨byteLength a, byteLength (a ++ '/' :: b)⟩ := by
  obtain ⟨t, ht, hspan⟩ := h.exists_comment hc hn hcomment
  obtain ⟨hscan, htc⟩ := List.mem_filter.1 ht
  have hfin : t.lexeme ≠ .finish := fun hx => by
    rw [Token.isComment, hx] at htc
    cases htc
  obtain ⟨mark, cs, htext, hscans, -⟩ := h.exists_scans
  obtain ⟨ts, us, hsplit⟩ := List.append_of_mem hscan
  rw [hsplit] at hscans
  obtain ⟨v, e, m, i, rfl, -, hscans, hst⟩ := hscans.exists_passes hfin
  obtain ⟨k, m', i', hnext, hne, hstop, -⟩ := hscans.next_of_start hfin hst
  obtain ⟨hpos, rest, rfl⟩ := (hnext ▸ Token.step_next m i hne).of_comment htc
  obtain ⟨k, rfl⟩ := Nat.exists_eq_succ_of_ne_zero (Nat.pos_iff_ne_zero.1 hpos)
  refine ⟨mark ++ v, rest.take k, rest.drop k, ?_, ?_⟩
  · rw [htext, List.cons_append, List.take_append_drop, List.append_assoc]
  · rw [hspan, ← hst]
    exact congrArg (Span.mk t.span.start) hstop

/-- **Every token that is a comment is a node.** -/
theorem exists_node_of_comment (h : parseSound text = .ok tree) {t : Token}
    (ht : t ∈ Token.comments text.toList) :
    ∃ c ∈ tree.children, ∃ n ∈ c.preorder, n.isComment = true ∧ n.span = t.span := by
  obtain ⟨nodes, -, htree, -⟩ := exists_derives_of_parseSound h
  have hcomments := Token.isComment_of_mem_comments text.toList
  obtain ⟨start, heq⟩ := finishRoot_eq (size text) hcomments (above (.named .program) nodes)
  obtain ⟨k, hleaf, hcomment, -⟩ := commentLeaf_eq (hcomments t ht)
  obtain ⟨c, hc, n, hn, hlabel, hspan⟩ := exists_mem_foldl ht (above (.named .program) nodes).children
  rw [htree, heq]
  refine ⟨c, hc, n, hn, ?_, ?_⟩
  · unfold isComment isA at hcomment ⊢
    rwa [hlabel]
  · rw [hspan, hleaf]
    rfl

end Sound

end JavaMutants.Syntax
