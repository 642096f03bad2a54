import JavaMutants.Proofs.Syntax.Tree

/-!
# Leaves put in afterwards

Comments, and what fits in nowhere, are put into a tree when it has been
read. One step puts a leaf between two nodes or into one of them
(`insertAmong_eq`); everything here follows from that. Flags stay true,
and a nested tree stays nested, provided that the leaf overlaps none of
those there are (`Nested.insert`). A comment changes nothing else: the
tree without its comments is the one there was (`bare_insert`).
-/

namespace JavaMutants.Syntax.Tree

/-- **Where a leaf is put**: between two nodes, or into the one it begins
in. -/
theorem insertAmong_eq (extra : Tree) (ts : List Tree) :
    (∃ before after, ts = before ++ after
        ∧ insertAmong extra ts = before ++ extra :: after
        ∧ (∀ t ∈ before, t.stop ≤ extra.start) ∧ ∀ t ∈ after.head?, extra.start < t.start)
      ∨ ∃ before t after, ts = before ++ t :: after
          ∧ insertAmong extra ts = before ++ insert extra t :: after
          ∧ (∀ u ∈ before, u.stop ≤ extra.start)
          ∧ t.start ≤ extra.start ∧ extra.start < t.stop := by
  induction ts with
  | nil => exact .inl ⟨[], [], rfl, by rw [insertAmong]; rfl, by simp, by simp⟩
  | cons t ts ih =>
    rw [insertAmong]
    split
    next hstop =>
      rcases ih with ⟨before, after, rfl, hins, hbefore, hafter⟩ |
        ⟨before, u, after, rfl, hins, hbefore, hu⟩
      · refine .inl ⟨t :: before, after, rfl, by rw [hins]; rfl, ?_, hafter⟩
        exact List.forall_mem_cons.2 ⟨hstop, hbefore⟩
      · refine .inr ⟨t :: before, u, after, rfl, by rw [hins]; rfl, ?_, hu⟩
        exact List.forall_mem_cons.2 ⟨hstop, hbefore⟩
    next hstop =>
      split
      next hstart =>
        exact .inr ⟨[], t, ts, rfl, rfl, by simp, hstart, Nat.not_le.1 hstop⟩
      next hstart =>
        refine .inl ⟨[], t :: ts, rfl, rfl, by simp, ?_⟩
        rintro u ⟨⟩
        exact Nat.not_le.1 hstart

theorem insert_eq (extra t : Tree) : insert extra t
    = node t.label t.field t.span (t.faulty || extra.faulty) (insertAmong extra t.children) := by
  obtain ⟨l, f, s, b, cs⟩ := t
  rw [insert]
  rfl

@[simp] theorem label_insert (extra t : Tree) : (insert extra t).label = t.label := by
  rw [insert_eq]
  rfl

@[simp] theorem field_insert (extra t : Tree) : (insert extra t).field = t.field := by
  rw [insert_eq]
  rfl

@[simp] theorem span_insert (extra t : Tree) : (insert extra t).span = t.span := by
  rw [insert_eq]
  rfl

@[simp] theorem faulty_insert (extra t : Tree) :
    (insert extra t).faulty = (t.faulty || extra.faulty) := by
  rw [insert_eq]
  rfl

@[simp] theorem children_insert (extra t : Tree) :
    (insert extra t).children = insertAmong extra t.children := by
  rw [insert_eq]
  rfl

/-- What is among the nodes after a leaf has been put in: the leaf, nodes
that were there, and the node that the leaf has been put into. -/
theorem mem_insertAmong {extra n : Tree} {ts : List Tree} (h : n ∈ insertAmong extra ts) :
    n = extra ∨ n ∈ ts
      ∨ ∃ t ∈ ts, n = insert extra t ∧ t.start ≤ extra.start ∧ extra.start < t.stop := by
  rcases insertAmong_eq extra ts with ⟨before, after, rfl, hins, -⟩ |
    ⟨before, t, after, rfl, hins, -, hbounds⟩
  · rw [hins, List.mem_append, List.mem_cons] at h
    rcases h with h | rfl | h
    · exact .inr (.inl (List.mem_append_left _ h))
    · exact .inl rfl
    · exact .inr (.inl (List.mem_append_right _ h))
  · rw [hins, List.mem_append, List.mem_cons] at h
    rcases h with h | rfl | h
    · exact .inr (.inl (List.mem_append_left _ h))
    · exact .inr (.inr ⟨t, List.mem_append_right _ List.mem_cons_self, rfl, hbounds⟩)
    · exact .inr (.inl (List.mem_append_right _ (List.mem_cons_of_mem t h)))

/-- What is below the nodes after a leaf has been put in. -/
theorem mem_preorder_insertAmong {extra c n : Tree} {ts : List Tree}
    (hc : c ∈ insertAmong extra ts) (hn : n ∈ c.preorder) :
    n ∈ extra.preorder ∨ ∃ t ∈ ts, ∃ m ∈ t.preorder,
      n = m ∨ n = insert extra m ∧ m.start ≤ extra.start ∧ extra.start < m.stop := by
  have key : ∀ t : Tree, t.start ≤ extra.start → extra.start < t.stop →
      n ∈ (insert extra t).preorder → n ∈ extra.preorder ∨ ∃ m ∈ t.preorder,
        n = m ∨ n = insert extra m ∧ m.start ≤ extra.start ∧ extra.start < m.stop := by
    intro t hlo hhi hn
    induction t using induction with
    | node l f s b cs ih =>
      rcases mem_preorder_iff.1 hn with rfl | ⟨c, hc, hnc⟩
      · exact .inr ⟨_, mem_preorder_self _, .inr ⟨rfl, hlo, hhi⟩⟩
      · rw [children_insert] at hc
        rcases mem_insertAmong hc with rfl | hc | ⟨d, hd, rfl, hlo, hhi⟩
        · exact .inl hnc
        · exact .inr ⟨n, mem_preorder_of_child hc hnc, .inl rfl⟩
        · exact (ih d hd hlo hhi hnc).imp_right fun ⟨m, hm, h⟩ =>
            ⟨m, mem_preorder_of_child hd hm, h⟩
  rcases mem_insertAmong hc with rfl | hc | ⟨t, ht, rfl, hlo, hhi⟩
  · exact .inl hn
  · exact .inr ⟨c, hc, n, hn, .inl rfl⟩
  · exact (key t hlo hhi hn).imp_right fun ⟨m, hm, h⟩ => ⟨t, ht, m, hm, h⟩

/-! ## Flags -/

theorem any_faulty_insertAmong (extra : Tree) (ts : List Tree) :
    (insertAmong extra ts).any faulty = (ts.any faulty || extra.faulty) := by
  rcases insertAmong_eq extra ts with ⟨before, after, rfl, hins, -⟩ | ⟨before, t, after, rfl, hins, -⟩
  · simp [hins, Bool.or_assoc, Bool.or_comm]
  · simp [hins, Bool.or_comm, Bool.or_left_comm]

/-- **Flags stay true when a leaf is put in.** -/
theorem Flagged.insert {extra t : Tree} (ht : Flagged t) (he : Flagged extra) :
    Flagged (insert extra t) := by
  induction ht with
  | @node l f s b cs hb hcs ih =>
    rw [insert_eq]
    refine .node ?_ ?_
    · show (b || extra.faulty) = (l.isFault || (insertAmong extra cs).any faulty)
      rw [any_faulty_insertAmong, hb, Bool.or_assoc]
    · intro c hc
      rcases mem_insertAmong hc with rfl | hc | ⟨d, hd, rfl, -⟩
      · exact he
      · exact hcs c hc
      · exact ih d hd

/-! ## Leaves -/

theorem insertAmong_ne_nil (extra : Tree) (ts : List Tree) : insertAmong extra ts ≠ [] := by
  rcases insertAmong_eq extra ts with ⟨before, after, -, hins, -⟩ | ⟨before, t, after, -, hins, -⟩
  · rw [hins]
    exact List.append_ne_nil_of_right_ne_nil _ (List.cons_ne_nil _ _)
  · rw [hins]
    exact List.append_ne_nil_of_right_ne_nil _ (List.cons_ne_nil _ _)

theorem mem_leavesAll_iff {x : Label × Span} {ts : List Tree} :
    x ∈ leavesAll ts ↔ ∃ t ∈ ts, x ∈ t.leaves := by
  rw [leavesAll_eq_flatMap, List.mem_flatMap]

/-- The leaves after one has been put in are those that were there and the
new one. -/
theorem mem_leaves_insert {extra t : Tree} {x : Label × Span}
    (h : x ∈ (insert extra t).leaves) : x ∈ t.leaves ∨ x ∈ extra.leaves := by
  induction t using induction with
  | node l f s b cs ih =>
    have hne : (insert extra (node l f s b cs)).children ≠ [] := by
      rw [children_insert]
      exact insertAmong_ne_nil extra cs
    rw [leaves_of_children_ne_nil hne, children_insert, mem_leavesAll_iff] at h
    obtain ⟨u, hu, hx⟩ := h
    have hbelow : ∀ c ∈ cs, x ∈ c.leaves → x ∈ (node l f s b cs).leaves := fun c hc hxc =>
      mem_leaves_of_mem_preorder (mem_preorder_of_child hc (mem_preorder_self c)) hxc
    rcases mem_insertAmong hu with rfl | hu | ⟨c, hc, rfl, -⟩
    · exact .inr hx
    · exact .inl (hbelow u hu hx)
    · exact (ih c hc hx).imp_left (hbelow c hc)

theorem mem_leavesAll_insertAmong {extra : Tree} {ts : List Tree} {x : Label × Span}
    (h : x ∈ leavesAll (insertAmong extra ts)) : x ∈ leavesAll ts ∨ x ∈ extra.leaves := by
  obtain ⟨u, hu, hx⟩ := mem_leavesAll_iff.1 h
  rcases mem_insertAmong hu with rfl | hu | ⟨t, ht, rfl, -⟩
  · exact .inr hx
  · exact .inl (mem_leavesAll_iff.2 ⟨u, hu, hx⟩)
  · exact (mem_leaves_insert hx).imp_left fun hx => mem_leavesAll_iff.2 ⟨t, ht, hx⟩

/-! ## Places -/

/-- Places in order end where the last of them has ended. -/
theorem Ordered.of_stop_le {lo hi mid : Nat} {ss : List Span} (h : Ordered lo ss hi)
    (hlo : lo ≤ mid) (hss : ∀ s ∈ ss, s.stop ≤ mid) : Ordered lo ss mid := by
  induction ss generalizing lo with
  | nil => exact hlo
  | cons s ss ih =>
    obtain ⟨hs, hss⟩ := List.forall_mem_cons.1 hss
    exact ⟨h.1, h.2.1, ih h.2.2 hs hss⟩

/-- Places in order begin where the first of them begins. -/
theorem Ordered.of_le_start {lo hi mid : Nat} {ss : List Span} (h : Ordered lo ss hi)
    (hhi : mid ≤ hi) (hss : ∀ s ∈ ss.head?, mid ≤ s.start) : Ordered mid ss hi := by
  cases ss with
  | nil => exact hhi
  | cons s ss => exact ⟨hss s rfl, h.2⟩

/-- A nested tree begins with one of its leaves. -/
theorem Nested.exists_leaf_start {t : Tree} (h : Nested t) :
    ∃ x ∈ t.leaves, x.2.start = t.start ∧ x.2.start < x.2.stop := by
  induction h with
  | @node l f s b cs hne hin hhead hlast hcs ih =>
    cases cs with
    | nil => exact ⟨(l, s), by simp [leaves], rfl, hne⟩
    | cons c cs =>
      obtain ⟨x, hx, hs, hlt⟩ := ih c List.mem_cons_self
      refine ⟨x, ?_, hs.trans (hhead c rfl), hlt⟩
      exact mem_leaves_of_mem_preorder
        (mem_preorder_of_child List.mem_cons_self (mem_preorder_self c)) hx

/-- A nested tree ends with one of its leaves. -/
theorem Nested.exists_leaf_stop {t : Tree} (h : Nested t) :
    ∃ x ∈ t.leaves, x.2.stop = t.stop ∧ x.2.start < x.2.stop := by
  induction h with
  | @node l f s b cs hne hin hhead hlast hcs ih =>
    by_cases hcs' : cs = []
    · subst hcs'
      exact ⟨(l, s), by simp [leaves], rfl, hne⟩
    · obtain ⟨x, hx, hs, hlt⟩ := ih _ (List.getLast_mem hcs')
      refine ⟨x, ?_, hs.trans (hlast _ (List.getLast?_eq_some_getLast hcs')), hlt⟩
      exact mem_leaves_of_mem_preorder
        (mem_preorder_of_child (List.getLast_mem hcs') (mem_preorder_self _)) hx

/-- A place overlaps none of some leaves. -/
def Apart (s : Span) (ls : List (Label × Span)) : Prop :=
  ∀ x ∈ ls, x.2.stop ≤ s.start ∨ s.stop ≤ x.2.start

/-- **Nodes in order stay in order when a leaf is put in** that overlaps
none of theirs, if each node stays nested. -/
theorem ordered_insertAmong {extra : Tree} {ts : List Tree} {lo hi : Nat}
    (hord : Ordered lo (spans ts) hi) (hts : ∀ t ∈ ts, Nested t)
    (hlt : extra.start < extra.stop) (hlo : lo ≤ extra.start) (hhi : extra.stop ≤ hi)
    (hapart : Apart extra.span (leavesAll ts)) :
    Ordered lo (spans (insertAmong extra ts)) hi := by
  rcases insertAmong_eq extra ts with ⟨before, after, rfl, hins, hbefore, hafter⟩ |
    ⟨before, t, after, rfl, hins, -⟩
  · rw [hins]
    simp only [spans, List.map_append, List.map_cons] at hord ⊢
    obtain ⟨mid, hb, ha⟩ := ordered_append_iff.1 hord
    refine ordered_append_iff.2 ⟨extra.start, hb.of_stop_le hlo ?_, Nat.le_refl _, hlt, ?_⟩
    · intro s hs
      obtain ⟨t, ht, rfl⟩ := List.mem_map.1 hs
      exact hbefore t ht
    · -- the next node begins with a leaf, and that one lies after the new one
      refine ha.of_le_start hhi fun s hs => ?_
      rw [List.head?_map] at hs
      obtain ⟨t, ht, rfl⟩ := Option.map_eq_some_iff.1 hs
      have hmem : t ∈ before ++ after := List.mem_append_right _ (List.mem_of_mem_head? ht)
      obtain ⟨x, hx, hxs, hxlt⟩ := (hts t hmem).exists_leaf_start
      have hstart := hafter t ht
      rcases hapart x (mem_leavesAll_iff.2 ⟨t, hmem, hx⟩) with h | h
      · exact absurd h (Nat.not_le.2 (by show extra.start < _; omega))
      · exact Nat.le_trans h (Nat.le_of_eq hxs)
  · rw [hins]
    simpa only [spans, List.map_append, List.map_cons, span_insert] using hord

/-- A leaf that begins in a nested tree and overlaps none of its leaves
ends in it. -/
theorem Nested.stop_le_of_apart {extra t : Tree} (ht : Nested t) (hhi : extra.start < t.stop)
    (hapart : Apart extra.span t.leaves) : extra.stop ≤ t.stop := by
  obtain ⟨x, hx, hs, hlt⟩ := ht.exists_leaf_stop
  rcases hapart x hx with h | h
  · exact absurd h (Nat.not_le.2 (hs ▸ hhi))
  · exact Nat.le_trans h (Nat.le_of_lt (hs ▸ hlt))

/-- A leaf put between the nodes of a nested tree does not become the
first of them. -/
theorem head_insertAmong {extra : Tree} {cs : List Tree} {lo : Nat} (hne : cs ≠ [])
    (hhead : ∀ c ∈ cs.head?, c.start = lo) (hlo : lo ≤ extra.start) :
    ∀ c ∈ (insertAmong extra cs).head?, c.start = lo := by
  rcases insertAmong_eq extra cs with ⟨before, after, rfl, hins, -, hafter⟩ |
    ⟨before, t, after, rfl, hins, -⟩
  · cases before with
    | nil =>
      obtain ⟨u, after, rfl⟩ := List.exists_cons_of_ne_nil hne
      have h₁ : extra.start < u.start := hafter u rfl
      have h₂ : u.start = lo := hhead u rfl
      omega
    | cons d before =>
      rw [hins]
      exact hhead
  · cases before with
    | nil =>
      rw [hins]
      rintro c ⟨⟩
      rw [start, span_insert]
      exact hhead t rfl
    | cons d before =>
      rw [hins]
      exact hhead

/-- A leaf put between the nodes of a nested tree does not become the
last of them. -/
theorem last_insertAmong {extra : Tree} {cs : List Tree} {hi : Nat} (hne : cs ≠ [])
    (hlast : ∀ c ∈ cs.getLast?, c.stop = hi) (hhi : extra.start < hi) :
    ∀ c ∈ (insertAmong extra cs).getLast?, c.stop = hi := by
  rcases insertAmong_eq extra cs with ⟨before, after, rfl, hins, hbefore, -⟩ |
    ⟨before, t, after, rfl, hins, -⟩
  · cases after with
    | nil =>
      rw [List.append_nil] at hne hlast
      have h₁ := hbefore _ (List.getLast_mem hne)
      have h₂ := hlast _ (List.getLast?_eq_some_getLast hne)
      omega
    | cons u after =>
      rw [List.getLast?_append_of_ne_nil _ (List.cons_ne_nil u after)] at hlast
      rw [hins, List.append_cons, List.getLast?_append_of_ne_nil _ (List.cons_ne_nil u after)]
      exact hlast
  · cases after with
    | nil =>
      rw [List.getLast?_append_of_ne_nil _ (List.cons_ne_nil t [])] at hlast
      rw [hins, List.getLast?_append_of_ne_nil _ (List.cons_ne_nil _ [])]
      rintro c ⟨⟩
      show (insert extra t).stop = hi
      rw [stop, span_insert]
      exact hlast t rfl
    | cons u after =>
      rw [List.append_cons, List.getLast?_append_of_ne_nil _ (List.cons_ne_nil u after)] at hlast
      rw [hins, List.append_cons, List.getLast?_append_of_ne_nil _ (List.cons_ne_nil u after)]
      exact hlast

/-- Nested nodes stay nested when a leaf is put in, if the one does that
it is put into. -/
theorem nested_insertAmong {extra : Tree} {cs : List Tree} (he : Nested extra)
    (hcs : ∀ c ∈ cs, Nested c)
    (hins : ∀ c ∈ cs, c.start ≤ extra.start → extra.start < c.stop → Nested (insert extra c)) :
    ∀ c ∈ insertAmong extra cs, Nested c := by
  intro c hc
  rcases mem_insertAmong hc with rfl | hc | ⟨t, ht, rfl, hlo, hhi⟩
  · exact he
  · exact hcs c hc
  · exact hins t ht hlo hhi

theorem Apart.child {s : Span} {c : Tree} {cs : List Tree} (h : Apart s (leavesAll cs))
    (hc : c ∈ cs) : Apart s c.leaves := fun x hx => h x (mem_leavesAll_iff.2 ⟨c, hc, hx⟩)

/-- **A nested tree stays nested when a leaf is put in** that overlaps
none of its own. -/
theorem Nested.insert {extra t : Tree} (he : Nested extra) (ht : Nested t)
    (hlo : t.start ≤ extra.start) (hhi : extra.start < t.stop)
    (hapart : Apart extra.span t.leaves) : Nested (Tree.insert extra t) := by
  induction t using induction with
  | node l f s b cs ih =>
    have hstop := ht.stop_le_of_apart hhi hapart
    obtain ⟨hne, hin, hhead, hlast, hcs⟩ := ht
    by_cases hnil : cs = []
    · -- the leaf would overlap the one it is put into
      subst hnil
      have hlt := he.lt
      rcases hapart (l, s) (by simp [leaves]) with h | h
      · exact absurd h (Nat.not_le.2 hhi)
      · exact absurd (Nat.lt_of_lt_of_le hlt h) (Nat.not_lt.2 hlo)
    · have hapart : Apart extra.span (leavesAll cs) := by
        have hne' : (Tree.node l f s b cs).children ≠ [] := hnil
        rwa [leaves_of_children_ne_nil hne'] at hapart
      rw [insert_eq]
      refine .node hne ?_ ?_ ?_ ?_
      · exact ordered_insertAmong hin hcs he.lt hlo hstop hapart
      · exact head_insertAmong hnil hhead hlo
      · exact last_insertAmong hnil hlast hhi
      · exact nested_insertAmong he hcs fun c hc hlo hhi =>
          ih c hc (hcs c hc) hlo hhi (hapart.child hc)

/-! ## Comments -/

/-- Whether a node is a comment. -/
def isComment (t : Tree) : Bool := t.isA .lineComment || t.isA .blockComment

mutual

/-- **A tree without its comments.** -/
def bare : Tree → Tree
  | node l f s b cs => node l f s b (bareAll cs)

/-- Trees without those that are comments, and without their comments. -/
def bareAll : List Tree → List Tree
  | [] => []
  | t :: ts => if t.isComment then bareAll ts else bare t :: bareAll ts

end

@[simp] theorem label_bare (t : Tree) : t.bare.label = t.label := by
  obtain ⟨l, f, s, b, cs⟩ := t
  rw [bare]
  rfl

@[simp] theorem field_bare (t : Tree) : t.bare.field = t.field := by
  obtain ⟨l, f, s, b, cs⟩ := t
  rw [bare]
  rfl

@[simp] theorem span_bare (t : Tree) : t.bare.span = t.span := by
  obtain ⟨l, f, s, b, cs⟩ := t
  rw [bare]
  rfl

@[simp] theorem children_bare (t : Tree) : t.bare.children = bareAll t.children := by
  obtain ⟨l, f, s, b, cs⟩ := t
  rw [bare]
  rfl

theorem bareAll_eq_map (ts : List Tree) :
    bareAll ts = (ts.filter fun t => !t.isComment).map bare := by
  induction ts with
  | nil => rw [bareAll]; rfl
  | cons t ts ih =>
    rw [bareAll, List.filter_cons]
    cases h : t.isComment with
    | true => simpa using ih
    | false => simpa using ih

theorem bareAll_append (ts us : List Tree) : bareAll (ts ++ us) = bareAll ts ++ bareAll us := by
  simp only [bareAll_eq_map, List.filter_append, List.map_append]

theorem mem_bareAll_iff {n : Tree} {ts : List Tree} :
    n ∈ bareAll ts ↔ ∃ t ∈ ts, t.isComment = false ∧ n = t.bare := by
  rw [bareAll_eq_map, List.mem_map]
  constructor
  · rintro ⟨t, ht, rfl⟩
    obtain ⟨ht, hc⟩ := List.mem_filter.1 ht
    exact ⟨t, ht, by simpa using hc, rfl⟩
  · rintro ⟨t, ht, hc, rfl⟩
    exact ⟨t, List.mem_filter.2 ⟨ht, by simpa using hc⟩, rfl⟩

@[simp] theorem isComment_insert (extra t : Tree) :
    (insert extra t).isComment = t.isComment := by
  simp only [isComment, isA, label_insert]

theorem bareAll_insertAmong_of {extra : Tree} (hc : extra.isComment = true) {cs : List Tree}
    (h : ∀ c ∈ cs, (insert extra c).bare = c.bare) :
    bareAll (insertAmong extra cs) = bareAll cs := by
  rcases insertAmong_eq extra cs with ⟨before, after, rfl, hins, -⟩ | ⟨before, t, after, rfl, hins, -⟩
  · rw [hins, bareAll_append, bareAll_append, bareAll, if_pos hc]
  · rw [hins, bareAll_append, bareAll_append, bareAll, bareAll, isComment_insert,
      h t (List.mem_append_right _ List.mem_cons_self)]

/-- **A comment leaves the rest of a tree as it is.** -/
theorem bare_insert {extra : Tree} (hc : extra.isComment = true) (hf : extra.faulty = false)
    (t : Tree) : (insert extra t).bare = t.bare := by
  induction t using induction with
  | node l f s b cs ih =>
    rw [insert_eq]
    show bare (node l f s (b || extra.faulty) (insertAmong extra cs)) = bare (node l f s b cs)
    rw [hf, Bool.or_false, bare, bare, bareAll_insertAmong_of hc ih]

theorem bareAll_insertAmong {extra : Tree} (hc : extra.isComment = true)
    (hf : extra.faulty = false) (cs : List Tree) :
    bareAll (insertAmong extra cs) = bareAll cs :=
  bareAll_insertAmong_of hc fun c _ => bare_insert hc hf c

/-- A node that is no comment is a node of the tree without comments,
if nothing stands below comments. -/
theorem bare_mem_preorder {cs : List Tree} {c n : Tree} (hc : c ∈ cs) (hn : n ∈ c.preorder)
    (htidy : ∀ m ∈ c.preorder, m.isComment = true → m.children = [])
    (hcomment : n.isComment = false) : ∃ d ∈ bareAll cs, n.bare ∈ d.preorder := by
  induction c using induction generalizing cs with
  | node l f s b ds ih =>
    cases hcc : (node l f s b ds).isComment with
    | true =>
      have hnil : ds = [] := htidy _ (mem_preorder_self _) hcc
      rcases mem_preorder_iff.1 hn with rfl | ⟨d, hd, -⟩
      · rw [hcc] at hcomment
        cases hcomment
      · rw [show (node l f s b ds).children = ds from rfl, hnil] at hd
        cases hd
    | false =>
      refine ⟨_, mem_bareAll_iff.2 ⟨_, hc, hcc, rfl⟩, ?_⟩
      rcases mem_preorder_iff.1 hn with rfl | ⟨d, hd, hnd⟩
      · exact mem_preorder_self _
      · obtain ⟨e, he, hne⟩ := ih d hd hd hnd fun m hm => htidy m (mem_preorder_of_child hd hm)
        refine mem_preorder_of_child ?_ hne
        rw [children_bare]
        exact he

/-- A node of a tree without comments was made from a node of the tree. -/
theorem exists_of_mem_bare {t d : Tree} (hd : d ∈ t.bare.preorder) :
    ∃ n ∈ t.preorder, n.bare = d := by
  induction t using induction with
  | node l f s b cs ih =>
    rcases mem_preorder_iff.1 hd with rfl | ⟨c, hc, hdc⟩
    · exact ⟨_, mem_preorder_self _, rfl⟩
    · rw [children_bare] at hc
      obtain ⟨e, he, -, rfl⟩ := mem_bareAll_iff.1 hc
      obtain ⟨n, hn, rfl⟩ := ih e he hdc
      exact ⟨n, mem_preorder_of_child he hn, rfl⟩

theorem bareAll_eq_self {cs : List Tree} (h : ∀ c ∈ cs, c.isComment = false ∧ c.bare = c) :
    bareAll cs = cs := by
  rw [bareAll_eq_map, List.filter_eq_self.2 fun c hc => by simp [(h c hc).1]]
  exact (List.map_congr_left fun c hc => (h c hc).2).trans (List.map_id cs)

/-- A tree in which no node is a comment is bare. -/
theorem bare_of_forall {t : Tree} (h : ∀ n ∈ t.preorder, n.isComment = false) : t.bare = t := by
  induction t using induction with
  | node l f s b cs ih =>
    have hcs : ∀ c ∈ cs, c.isComment = false ∧ c.bare = c := fun c hc =>
      ⟨h c (mem_preorder_of_child hc (mem_preorder_self c)),
        ih c hc fun n hn => h n (mem_preorder_of_child hc hn)⟩
    rw [bare, bareAll_eq_self hcs]

end JavaMutants.Syntax.Tree
