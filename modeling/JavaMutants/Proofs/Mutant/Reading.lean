import JavaMutants.Proofs.Fragment.Located
import JavaMutants.Proofs.Mutant.Exchange
import JavaMutants.Proofs.Operator.Overlap
import JavaMutants.Proofs.Syntax.Comment
import JavaMutants.Proofs.Target.Nesting

/-!
# A target in its file and by itself

An operator finds what it exchanges in the tree of the target, which is parsed by itself.
The nodes of that tree are those of the file, at another place (`Exchanged.Reading`), and
so the exchanged node is one of the file (`Exchanged.Reading.exists_place`). Hence two
exchanges in one file are at places that are apart or of which one lies in the other.

What is known of the node in its own tree is known in the file: what is negated does not
end where anything around it does, but for marks (`Exchanged.Reading.exists_other`), and what is
in a body is inside its braces (`Exchanged.Reading.inside_of_braced`).
-/

namespace JavaMutants

open Syntax Text Tree
open Target (locate)

/-- **What is code in code** is there without the comments. -/
theorem Syntax.IsParse.bare_mem_bare {text : String} {tree c a n : Tree} (h : IsParse text tree)
    (hc : c ∈ tree.children) (ha : a ∈ c.preorder) (hn : n ∈ a.preorder)
    (hcomment : n.isComment = false) : n.bare ∈ a.bare.preorder := by
  obtain ⟨d, hd, hnd⟩ := bare_mem_preorder (List.mem_singleton_self a) hn
    (fun k hk hkc => (h.laid.tidy c hc k (mem_preorder_trans hk ha) hkc).2) hcomment
  obtain ⟨e, he, -, rfl⟩ := mem_bareAll_iff.1 hd
  rwa [List.mem_singleton.1 he] at hnd

/-- **A body begins and ends with a brace.** -/
theorem Braced.exists_braces {text : String} {b : Tree} (x : Braced text b) :
    (∃ g ∈ b.children, g.start = b.start ∧ g.stop = b.start + 1)
      ∧ ∃ g ∈ b.children, g.start + 1 = b.stop ∧ g.stop = b.stop := by
  have hmem : ∀ {p : Punct} {s : Span}, tokenLeaf (.punct p) s ∈ bareAll b.children →
      ∃ g ∈ b.children, g.start = s.start ∧ g.stop = s.stop := fun hleaf => by
    obtain ⟨g, hg, -, heq⟩ := mem_bareAll_iff.1 hleaf
    have hspan : g.span = _ := (span_bare g).symm.trans (congrArg Tree.span heq.symm)
    exact ⟨g, hg, congrArg Span.start hspan, congrArg Span.stop hspan⟩
  have hstart := x.start
  have hstop := x.stop
  obtain ⟨g, hg, hgstart, hgstop⟩ := hmem (x.children ▸ List.mem_cons_self)
  obtain ⟨h, hh, hhstart, hhstop⟩ := hmem (x.children ▸ List.mem_cons_of_mem _
    (List.mem_append_right _ (List.mem_singleton_self _)))
  have hone : ∀ before : List Char, byteLength (before ++ ['\x7b']) = byteLength before + 1
      ∧ byteLength (before ++ ['\x7d']) = byteLength before + 1 := fun before =>
    ⟨byteLength_append _ _, byteLength_append _ _⟩
  simp only [spanAfter, hone] at hgstart hgstop hhstart hhstop
  rw [← List.cons_append, ← List.append_assoc, (hone _).2] at hstop
  exact ⟨⟨g, hg, by omega, by omega⟩, h, hh, by omega, by omega⟩

/-- A body is longer than one of its braces. -/
theorem Braced.lt {text : String} {b : Tree} (x : Braced text b) : b.start + 1 < b.stop := by
  have hstart := x.start
  have hstop := x.stop
  have hopen : Char.utf8Size '\x7b' = 1 := rfl
  have hclose : Char.utf8Size '\x7d' = 1 := rfl
  simp only [byteLength_append, byteLength_cons, byteLength_nil, hopen, hclose] at hstart hstop
  omega

namespace Exchanged

variable {path : Path} {text : String} {file : SourceFile} {markers : Markers} {t : Target} {m : Mutant}

/-- **The declaration of a target**, in its file and by itself. -/
structure Reading (e : Exchanged file t m) where
  /-- What kind of declaration it is. -/
  kind : Kind
  /-- It is one. -/
  declares : isDeclaration kind = true
  /-- The declaration in the file. -/
  node : Tree
  /-- It is a node of its tree. -/
  exists_child : ∃ c ∈ file.tree.children, node ∈ c.preorder
  /-- It begins where the target does. -/
  start : node.start = t.start
  /-- It ends where the target does. -/
  stop : node.stop = t.stop
  /-- Its tokens in the file. -/
  tokens : List Token
  /-- They are tokens of the file. -/
  scanned : ∀ u ∈ tokens, u ∈ Token.scan file.text.toList
  /-- Its tokens by itself. -/
  own : List Token
  /-- By itself it is read from these. -/
  read : ReadFrom e.fragment.text e.fragment.tree e.fragment.declaration kind own
  /-- They are those of a declaration. -/
  spells : Spells kind (own.filter fun u => !u.isComment) e.fragment.offset
    (e.fragment.offset + (t.stop - t.start))
  /-- They are the tokens in the file, at another place. -/
  moved : List.Forall₂ (Token.Moved t.start e.fragment.offset) tokens own
  /-- So are the nodes, but for the comments. -/
  nodes : Tree.Moved t.start e.fragment.offset node.bare e.fragment.declaration.bare
  /-- By itself it takes all of the text. -/
  span : e.fragment.declaration.span
    = ⟨e.fragment.offset, e.fragment.offset + (t.stop - t.start)⟩

/-- **Every target of a file is a declaration**, in its file and by itself. -/
theorem exists_reading (e : Exchanged file t m) (hfile : SourceFile.parse path text = .ok file)
    (ht : t ∈ locate markers file) : Nonempty e.Reading := by
  obtain ⟨node, mods, hmatch, hkind, hstart, hstop⟩ := Target.exists_isMatch_of_mem_locate hfile ht
  obtain ⟨k, hl, hk⟩ := hkind.isDeclaration
  obtain ⟨x, hportable⟩ := hmatch.exists_setting (Target.parseSound_of_parse hfile) hl hk
  obtain ⟨own, hmoved, hpasses, hspells⟩ := x.moved (Fragment.surroundings k).1
    (Fragment.surroundings k).2 (Fragment.blockCommentLength_surroundings k)
  obtain ⟨fragment, hparse, hread, hoffset, hspan⟩ :=
    hportable.exists_fragment_of_passes hk hpasses hspells
  -- this is the fragment that the operator has got
  obtain rfl : fragment = e.fragment := by
    have hslice : slice? file.text t.start t.stop = some (e.before ++ e.old ++ e.after) :=
      slice?_eq_some_iff.2 ⟨e.ahead, e.behind, e.file_text, e.start, e.stop⟩
    rw [hstart, hstop] at hslice
    have hown := Option.some.inj (x.slice?_eq.symm.trans hslice)
    have hmember : TargetKind.ofKind? k = some t.kind := by
      have hbind := Target.isOfKind_iff.1 hkind
      rwa [Tree.kind?, hl] at hbind
    rw [hmember, hown] at hparse
    exact Option.some.inj (hparse.symm.trans e.parse)
  have hsize : byteLength x.own = t.stop - t.start := by
    have hxstart := x.start_eq
    have hxstop := x.stop_eq
    rw [byteLength_append] at hxstop
    omega
  rw [← hoffset] at hmoved
  rw [byteLength_append, ← hoffset, hsize] at hspells
  rw [hsize] at hspan
  obtain ⟨c, hc, hn⟩ := hmatch.exists_child (Target.isParse_of_parse hfile)
  refine ⟨⟨k, hk, node, ⟨c, hc, hn⟩, hstart.symm, hstop.symm, x.tokens, fun u hu => ?_, own, hread,
    hspells, by rw [hstart]; exact hmoved, ?_, hspan⟩⟩
  · rw [x.scan_eq]
    simp [hu]
  · -- the nodes below it are read from the same tokens
    obtain ⟨-, tail, -, hout, -⟩ := hread.exists_tokens
    obtain ⟨nodes', hnodes, hbelow⟩ := x.read (tail.filter fun t => !t.isComment)
      (Token.forall₂_filter hmoved)
    obtain rfl := (Prod.mk.inj (Option.some.inj (hout.symm.trans hnodes))).1
    rw [Tree.Moved, preorder_eq, preorder_eq e.fragment.declaration.bare]
    refine .cons ⟨?_, .inl ?_, .inl ?_⟩ ?_
    · rw [label_bare, label_bare, hl, hread.label]
    · rw [Tree.start, Tree.start, span_bare, span_bare, hspan, hstart]
      exact Nat.add_comm _ _
    · have hlt := Target.start_lt_stop_of_mem_locate hfile ht
      rw [Tree.stop, Tree.stop, span_bare, span_bare, hspan]
      show e.fragment.offset + (t.stop - t.start) + t.start = node.stop + e.fragment.offset
      omega
    · rw [hstart]
      exact List.rel_flatMap hbelow fun _ _ h => h

/-- **A node of the file stands where one of the target by itself does.** -/
structure SamePlace (e : Exchanged file t m) (z n : Tree) : Prop where
  /-- They begin at the same distance. -/
  start : n.start + t.start = z.start + e.fragment.offset
  /-- They end at the same distance. -/
  stop : n.stop + t.start = z.stop + e.fragment.offset

/-! ## Nodes of the declaration -/

namespace Reading

variable {e : Exchanged file t m} (x : e.Reading)
include x

/-- The text by itself is sound. -/
theorem isParse : IsParse e.fragment.text e.fragment.tree := isParse_of_parseSound x.read.parse

/-- The nodes of the declaration by itself are nested. -/
theorem nested : Nested e.fragment.declaration := by
  obtain ⟨c, hc, hn⟩ := x.read.exists_child
  exact (x.isParse.laid.nested c hc).of_mem_preorder hn

/-- They lie in the text of the target. -/
theorem bounds {n : Tree} (hn : n ∈ e.fragment.declaration.preorder) : e.fragment.offset ≤ n.start
    ∧ n.start < n.stop ∧ n.stop ≤ e.fragment.offset + (t.stop - t.start) := by
  obtain ⟨hlo, hhi⟩ := x.nested.bounds hn
  have hstart : e.fragment.declaration.start = _ := congrArg Span.start x.span
  have hstop : e.fragment.declaration.stop = _ := congrArg Span.stop x.span
  rw [hstart] at hlo
  rw [hstop] at hhi
  exact ⟨hlo, (x.nested.of_mem_preorder hn).lt, hhi⟩

/-- The nodes of the declaration in the file lie in the target. -/
theorem bounds_node (hfile : SourceFile.parse path text = .ok file) {z : Tree}
    (hz : z ∈ x.node.preorder) : t.start ≤ z.start ∧ z.start < z.stop ∧ z.stop ≤ t.stop := by
  obtain ⟨c, hc, hn⟩ := x.exists_child
  have hnested := ((Target.isParse_of_parse hfile).laid.nested c hc).of_mem_preorder hn
  obtain ⟨hlo, hhi⟩ := hnested.bounds hz
  rw [x.start] at hlo
  rw [x.stop] at hhi
  exact ⟨hlo, (hnested.of_mem_preorder hz).lt, hhi⟩

/-- Nodes without their comments that are like each other stand at the same place. -/
theorem samePlace (hfile : SourceFile.parse path text = .ok file) {z n : Tree}
    (hz : z ∈ x.node.preorder) (hn : n ∈ e.fragment.declaration.preorder)
    (h : Tree.Moves t.start e.fragment.offset z.bare n.bare) : e.SamePlace z n := by
  have hzbounds := x.bounds_node hfile hz
  have hnbounds := x.bounds hn
  have hstart := h.start
  have hstop := h.stop
  simp only [Tree.start, Tree.stop, span_bare] at hstart hstop
  unfold Tree.start Tree.stop at hzbounds hnbounds
  refine ⟨?_, ?_⟩
  · unfold Tree.start
    omega
  · unfold Tree.stop
    omega

/-- **A node of the code is one of the file.** -/
theorem exists_node (hfile : SourceFile.parse path text = .ok file) {n : Tree}
    (hn : n ∈ e.fragment.declaration.preorder) (hcomment : n.isComment = false) :
    ∃ z ∈ x.node.preorder, z.isComment = false ∧ e.SamePlace z n := by
  obtain ⟨c, hc, hdeclaration⟩ := x.read.exists_child
  obtain ⟨w, hw, hmoves⟩ := exists_mem_left x.nodes
    (x.isParse.bare_mem_bare hc hdeclaration hn hcomment)
  obtain ⟨z, hz, rfl⟩ := exists_of_mem_bare hw
  refine ⟨z, hz, ?_, x.samePlace hfile hz hn hmoves⟩
  have hl := hmoves.label
  rw [label_bare, label_bare] at hl
  unfold isComment isA at hcomment ⊢
  rw [hl, hcomment]

/-- **A node of the file that is code is one of the target by itself.** -/
theorem exists_own (hfile : SourceFile.parse path text = .ok file) {z : Tree}
    (hz : z ∈ x.node.preorder) (hcomment : z.isComment = false) :
    ∃ n ∈ e.fragment.declaration.preorder, e.SamePlace z n := by
  obtain ⟨c, hc, hnode⟩ := x.exists_child
  obtain ⟨w, hw, hmoves⟩ := exists_mem_left x.nodes.flip
    ((Target.isParse_of_parse hfile).bare_mem_bare hc hnode hz hcomment)
  obtain ⟨n, hn, rfl⟩ := exists_of_mem_bare hw
  exact ⟨n, hn, x.samePlace hfile hz hn hmoves⟩

/-- A comment in the declaration by itself is among its tokens. -/
theorem exists_mem_own {n : Tree} (hn : n ∈ e.fragment.declaration.preorder)
    (hcomment : n.isComment = true) : ∃ u ∈ x.own, u.isComment = true ∧ n.span = u.span := by
  obtain ⟨c, hc, hdeclaration⟩ := x.read.exists_child
  obtain ⟨u, hu, hspan⟩ := x.isParse.exists_comment hc (mem_preorder_trans hn hdeclaration) hcomment
  obtain ⟨hu, hucomment⟩ := List.mem_filter.1 hu
  refine ⟨u, ?_, hucomment, hspan⟩
  obtain ⟨head, tail, hscan, -, -⟩ := x.read.exists_tokens
  obtain ⟨v, vs, hv, -, hvstart⟩ := x.spells.first
  obtain ⟨ws, w, hw, hwstop⟩ := x.spells.last
  have hvmem : v ∈ x.own := (List.mem_filter.1 (hv ▸ List.mem_cons_self)).1
  have hwmem : w ∈ x.own := (List.mem_filter.1 (hw ▸ List.mem_append_right _ List.mem_cons_self)).1
  obtain ⟨hlo, hlt, hhi⟩ := x.bounds hn
  have hustart : n.start = u.span.start := congrArg Span.start hspan
  have hustop : n.stop = u.span.stop := congrArg Span.stop hspan
  have hpair := (Token.lies_scan e.fragment.text.toList).pairwise
  rw [hscan] at hu hpair
  obtain ⟨-, hrest, hbefore⟩ := List.pairwise_append.1 hpair
  obtain ⟨-, -, hafter⟩ := List.pairwise_append.1 hrest
  rcases List.mem_append.1 hu with hu | hu
  · have hle := hbefore u hu v (List.mem_append_left _ hvmem)
    omega
  · rcases List.mem_append.1 hu with hu | hu
    · exact hu
    · have hle := hafter w hwmem u hu
      omega

/-- **A comment is one of the file.** -/
theorem exists_comment (hfile : SourceFile.parse path text = .ok file) {n : Tree}
    (hn : n ∈ e.fragment.declaration.preorder) (hcomment : n.isComment = true) :
    ∃ c ∈ file.tree.children, ∃ z ∈ c.preorder, z.isComment = true ∧ e.SamePlace z n := by
  obtain ⟨u, hu, hucomment, hspan⟩ := x.exists_mem_own hn hcomment
  obtain ⟨v, hv, hmoved⟩ := exists_mem_left x.moved hu
  have hvcomment : v.isComment = true := by
    rw [Token.isComment, hmoved.lexeme]
    exact hucomment
  obtain ⟨c, hc, z, hz, hzcomment, hzspan⟩ := exists_node_of_comment
    (Target.parseSound_of_parse hfile) (List.mem_filter.2 ⟨x.scanned v hv, hvcomment⟩)
  refine ⟨c, hc, z, hz, hzcomment, ?_, ?_⟩
  · rw [Tree.start, Tree.start, hspan, hzspan]
    exact hmoved.start
  · rw [Tree.stop, Tree.stop, hspan, hzspan]
    exact hmoved.stop

/-- **A node of the file that shares something with the target** is one of the target by
itself, or all of the target lies in it. -/
theorem exists_own_or_around (hfile : SourceFile.parse path text = .ok file) {c z : Tree}
    (hc : c ∈ file.tree.children) (hz : z ∈ c.preorder) (hcomment : z.isComment = false)
    (hstart : z.start < t.stop) (hstop : t.start < z.stop) :
    (∃ n ∈ e.fragment.declaration.preorder, e.SamePlace z n)
      ∨ (z.start ≤ t.start ∧ t.stop ≤ z.stop) := by
  have hparse := Target.isParse_of_parse hfile
  have hnodestart := x.start
  have hnodestop := x.stop
  obtain ⟨d, hd, hnode⟩ := x.exists_child
  rcases hparse.below_or_apart hc hd hz hnode with hin | hin | hapart | hapart
  · exact .inl (x.exists_own hfile hin hcomment)
  · have hbounds := ((hparse.laid.nested c hc).of_mem_preorder hz).bounds hin
    exact .inr (by omega)
  · omega
  · omega

/-! ## The exchanged node -/

omit x in
/-- Where the exchanged node stands in the target by itself. -/
theorem place_node (e : Exchanged file t m) : e.node.start + t.start = e.nodeStart + e.fragment.offset
    ∧ e.node.stop + t.start = e.nodeStop + e.fragment.offset := by
  have hrange := e.range
  unfold Fragment.localRange? at hrange
  split at hrange
  next hle =>
    obtain ⟨hstart, hstop⟩ := Prod.mk.inj (Option.some.inj hrange)
    obtain ⟨hle, hle'⟩ := Bool.and_eq_true_iff.1 hle
    have hle := of_decide_eq_true hle
    have hle' := of_decide_eq_true hle'
    unfold nodeStart nodeStop
    omega
  next => cases hrange

/-- **The exchanged node is one of the file.** -/
theorem exists_place (hfile : SourceFile.parse path text = .ok file) :
    ∃ c ∈ file.tree.children, ∃ z ∈ c.preorder, z.isComment = e.node.isComment
      ∧ z.start = e.nodeStart ∧ z.stop = e.nodeStop := by
  obtain ⟨hstart, hstop⟩ := place_node e
  have hmem := e.exchange.mem_preorder
  obtain ⟨c, hc, z, hz, hcomment, hplace⟩ : ∃ c ∈ file.tree.children, ∃ z ∈ c.preorder,
      z.isComment = e.node.isComment ∧ e.SamePlace z e.node := by
    cases hcomment : e.node.isComment with
    | true => exact x.exists_comment hfile hmem hcomment
    | false =>
      obtain ⟨c, hc, hnode⟩ := x.exists_child
      obtain ⟨z, hz, hzcomment, hplace⟩ := x.exists_node hfile hmem hcomment
      exact ⟨c, hc, z, mem_preorder_trans hz hnode, hzcomment, hplace⟩
  have hzstart := hplace.start
  have hzstop := hplace.stop
  exact ⟨c, hc, z, hz, hcomment, by omega, by omega⟩

/-- It is not empty. -/
theorem nodeStart_lt : e.nodeStart < e.nodeStop := by
  obtain ⟨hstart, hstop⟩ := place_node e
  have hlt := (x.bounds e.exchange.mem_preorder).2.1
  omega

/-- What is more than the exchanged node and around it is no comment. -/
theorem isComment_of_around (hfile : SourceFile.parse path text = .ok file) {c z : Tree}
    (hc : c ∈ file.tree.children) (hz : z ∈ c.preorder) (hstart : z.start ≤ e.nodeStart)
    (hstop : e.nodeStop ≤ z.stop) (hne : z.start < e.nodeStart ∨ e.nodeStop < z.stop) :
    z.isComment = false := by
  by_contra hcomment
  have hparse := Target.isParse_of_parse hfile
  obtain ⟨d, hd, w, hw, -, hwstart, hwstop⟩ := x.exists_place hfile
  have hlt := x.nodeStart_lt
  rcases hparse.below_or_apart hc hd hz hw with hin | hin | hapart | hapart
  · have hbounds := ((hparse.laid.nested d hd).of_mem_preorder hw).bounds hin
    omega
  · -- nothing is below a comment
    obtain rfl : w = z := by
      rcases mem_preorder_iff.1 hin with heq | ⟨f, hf, -⟩
      · exact heq
      · rw [(hparse.laid.tidy c hc z hz (by simpa using hcomment)).2] at hf
        cases hf
    omega
  · omega
  · omega

/-- **After what is sealed, and before what is around it ends, there are characters beside
the marks.** -/
theorem exists_other (hfile : SourceFile.parse path text = .ok file)
    (hsealed : e.fragment.Sealed e.node) {c z : Tree} (hc : c ∈ file.tree.children)
    (hz : z ∈ c.preorder) (hstart : z.start ≤ e.nodeStart) (hstop : e.nodeStop ≤ z.stop)
    (hne : z.start < e.nodeStart ∨ e.nodeStop < z.stop) :
    ∃ stop, HasOther e.fragment.text e.node.stop stop
      ∧ stop ≤ e.fragment.offset + (t.stop - t.start)
      ∧ stop + t.start ≤ z.stop + e.fragment.offset := by
  obtain ⟨a, ha, -, hmem, hother⟩ := hsealed
  obtain ⟨hplacestart, hplacestop⟩ := place_node e
  obtain ⟨-, -, hastop⟩ := x.bounds ha
  refine ⟨a.stop, hother, hastop, ?_⟩
  have hlt := x.nodeStart_lt
  have hbounds := e.bounds
  have hnested := x.nested.of_mem_preorder ha
  have hchild := hnested.bounds_child hmem
  have hcode := x.isComment_of_around hfile hc hz hstart hstop hne
  rcases x.exists_own_or_around hfile hc hz hcode (by omega) (by omega) with ⟨n, hn, hplace⟩ | hall
  · -- it is around the node that goes on
    have hnstart := hplace.start
    have hnstop := hplace.stop
    have han : a ∈ n.preorder := by
      rcases x.nested.below_or_apart ha hn with han | hna | hapart | hapart
      · exact han
      · rcases mem_preorder_iff.1 hna with rfl | ⟨f, hf, hnf⟩
        · exact mem_preorder_self n
        · have hfbounds := (hnested.child hf).bounds hnf
          rcases hnested.ordered.eq_or_apart hf hmem with rfl | hapart | hapart
          · omega
          · omega
          · omega
      · omega
      · omega
    have hle := ((x.nested.of_mem_preorder hn).bounds han).2
    omega
  · omega

/-- A body is no comment. -/
theorem isComment_of_braced (b : Braced e.fragment.text e.node) : e.node.isComment = false := by
  by_contra hcomment
  obtain ⟨c, hc, hn⟩ := x.read.exists_child
  obtain ⟨⟨g, hg, -⟩, -⟩ := b.exists_braces
  rw [(x.isParse.laid.tidy c hc _ (mem_preorder_trans e.exchange.mem_preorder hn)
    (by simpa using hcomment)).2] at hg
  cases hg

/-- **What is in a body is inside its braces**, if it is longer than one of them. -/
theorem inside_of_braced (hfile : SourceFile.parse path text = .ok file)
    (b : Braced e.fragment.text e.node) {c z : Tree} (hc : c ∈ file.tree.children)
    (hz : z ∈ c.preorder) (hcomment : z.isComment = false) (hstart : e.nodeStart ≤ z.start)
    (hstop : z.stop ≤ e.nodeStop) (hne : e.nodeStart < z.start ∨ z.stop < e.nodeStop)
    (hsize : z.start + 1 < z.stop) : e.nodeStart < z.start ∧ z.stop < e.nodeStop := by
  obtain ⟨hplacestart, hplacestop⟩ := place_node e
  have hbounds := e.bounds
  rcases x.exists_own_or_around hfile hc hz hcomment (by omega) (by omega) with ⟨n, hn, hplace⟩ | hall
  · have hnstart := hplace.start
    have hnstop := hplace.stop
    have hmem := e.exchange.mem_preorder
    have hnested := x.nested.of_mem_preorder hmem
    rcases x.nested.below_or_apart hn hmem with hbelow | hbelow | hapart | hapart
    · rcases mem_preorder_iff.1 hbelow with rfl | ⟨f, hf, hnf⟩
      · omega
      · -- the child that it is below is none of the braces
        obtain ⟨⟨g, hg, hgstart, hgstop⟩, k, hk, hkstart, hkstop⟩ := b.exists_braces
        have hfbounds := (hnested.child hf).bounds hnf
        have hfin := hnested.bounds_child hf
        constructor
        · rcases hnested.ordered.eq_or_apart hf hg with rfl | hapart | hapart
          · omega
          · omega
          · omega
        · rcases hnested.ordered.eq_or_apart hf hk with rfl | hapart | hapart
          · omega
          · omega
          · omega
    · have hle := (x.nested.of_mem_preorder hn).bounds hbelow
      omega
    · omega
    · omega
  · omega

end Reading

end Exchanged

end JavaMutants
