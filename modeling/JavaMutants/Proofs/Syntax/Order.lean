import JavaMutants.Proofs.Syntax.Tree

/-!
# Document order

A node comes before another if it begins first, or if both begin together
and it is the longer one (`Precedes`). In a nested tree the nodes below a
node come after it as soon as it has two children, since no child is
empty then; and of two nodes side by side the one on the left comes
first. So the nodes with two children or more stand in document order in
the list of all nodes (`Nested.pairwise_preorder`), and no two of them
have the same place. No two nodes overlap unless one is below the other
(`Nested.below_or_apart`).
-/

namespace JavaMutants.Syntax.Tree

/-- **Document order**: what begins first, and of two that begin together
the longer. -/
def Precedes (a b : Tree) : Prop :=
  a.start < b.start ∨ a.start = b.start ∧ b.stop < a.stop

/-- **A node with two children comes before all nodes below it.** -/
theorem Nested.precedes {t c n : Tree} (h : Nested t) (htwo : 2 ≤ t.children.length)
    (hc : c ∈ t.children) (hn : n ∈ c.preorder) : Precedes t n := by
  obtain ⟨hstart, hstop⟩ := h.bounds_child hc
  obtain ⟨hnstart, hnstop⟩ := (h.child hc).bounds hn
  have hord := h.ordered
  obtain ⟨before, after, hcs⟩ := List.append_of_mem hc
  rw [hcs] at hord htwo
  simp only [spans, List.map_append, List.map_cons] at hord
  obtain ⟨mid, hbefore, hmid, hlt, hafter⟩ := ordered_append_iff.1 hord
  cases before with
  | cons d before =>
    -- another child comes first
    have hd := hbefore.2.2.le
    have hdlt := hbefore.2.1
    have hdstart := hbefore.1
    refine .inl ?_
    have : mid ≤ c.start := hmid
    omega
  | nil =>
    -- another child comes last
    obtain ⟨d, after, rfl⟩ := List.exists_cons_of_ne_nil (show after ≠ [] by
      rintro rfl
      simp at htwo)
    have hd : c.stop ≤ d.start := hafter.1
    have hdlt : d.start < d.stop := hafter.2.1
    have hdstop : d.stop ≤ t.stop := hafter.2.2.le
    have hor : t.start < n.start ∨ t.start = n.start :=
      Nat.lt_or_eq_of_le (Nat.le_trans hstart hnstart)
    exact hor.imp_right fun h => ⟨h, by omega⟩

/-- Nodes of trees side by side come in the order of the trees. -/
theorem pairwise_flatMap_preorder {cs : List Tree} {lo hi : Nat}
    (hord : Ordered lo (spans cs) hi) (hcs : ∀ c ∈ cs, Nested c)
    (ih : ∀ c ∈ cs, c.preorder.Pairwise fun a b => 2 ≤ a.children.length → Precedes a b) :
    (cs.flatMap preorder).Pairwise fun a b => 2 ≤ a.children.length → Precedes a b := by
  induction cs generalizing lo with
  | nil => exact .nil
  | cons c cs ihcs =>
    obtain ⟨hc, hcs⟩ := List.forall_mem_cons.1 hcs
    obtain ⟨ihc, ih⟩ := List.forall_mem_cons.1 ih
    rw [List.flatMap_cons, List.pairwise_append]
    refine ⟨ihc, ihcs hord.2.2 hcs ih, ?_⟩
    intro a ha b hb _
    obtain ⟨d, hd, hb⟩ := List.mem_flatMap.1 hb
    have hastop := (hc.bounds ha).2
    have halt := (hc.of_mem_preorder ha).lt
    have hbstart := ((hcs d hd).bounds hb).1
    have hdstart : c.stop ≤ d.start := (hord.2.2.mem (List.mem_map.2 ⟨d, hd, rfl⟩)).1
    exact .inl (by omega)

/-- **The nodes of a nested tree that have two children stand in document
order.** -/
theorem Nested.pairwise_preorder {t : Tree} (h : Nested t) :
    t.preorder.Pairwise fun a b => 2 ≤ a.children.length → Precedes a b := by
  induction t using induction with
  | node l f s b cs ih =>
    rw [preorder_eq]
    refine .cons (fun n hn htwo => ?_) ?_
    · obtain ⟨c, hc, hn⟩ := List.mem_flatMap.1 hn
      exact h.precedes htwo hc hn
    · exact pairwise_flatMap_preorder h.ordered (fun c hc => h.child hc)
        fun c hc => ih c hc (h.child hc)

/-! ## Nodes side by side -/

/-- **Two nodes of trees side by side are apart**, unless one is below the other. -/
theorem below_or_apart_of_children {cs : List Tree} {lo hi : Nat} (hord : Ordered lo (spans cs) hi)
    (hcs : ∀ c ∈ cs, Nested c)
    (ih : ∀ c ∈ cs, ∀ a ∈ c.preorder, ∀ b ∈ c.preorder,
      a ∈ b.preorder ∨ b ∈ a.preorder ∨ a.stop ≤ b.start ∨ b.stop ≤ a.start)
    {c d a b : Tree} (hc : c ∈ cs) (hd : d ∈ cs) (ha : a ∈ c.preorder) (hb : b ∈ d.preorder) :
    a ∈ b.preorder ∨ b ∈ a.preorder ∨ a.stop ≤ b.start ∨ b.stop ≤ a.start := by
  obtain ⟨before, after, rfl⟩ := List.append_of_mem hc
  obtain ⟨hastart, hastop⟩ := (hcs c hc).bounds ha
  obtain ⟨hbstart, hbstop⟩ := (hcs d hd).bounds hb
  have hapart : ∀ us vs : List Tree, Ordered lo (spans us ++ spans vs) hi →
      ∀ {x y : Tree}, x ∈ us → y ∈ vs → x.stop ≤ y.start := fun _ _ h _ _ hx hy =>
    h.stop_le_start (List.mem_map_of_mem hx) (List.mem_map_of_mem hy)
  rcases List.mem_append.1 hd with hbefore | hrest
  · have := hapart before (c :: after) (by simpa [spans] using hord) hbefore
      List.mem_cons_self
    exact .inr (.inr (.inr (by omega)))
  · rcases List.mem_cons.1 hrest with rfl | hafter
    · exact ih d hc a ha b hb
    · have := hapart (before ++ [c]) after (by simpa [spans] using hord)
        (List.mem_append_right before (List.mem_singleton_self c)) hafter
      exact .inr (.inr (.inl (by omega)))

/-- **Two nodes of a nested tree are apart**, unless one is below the other. -/
theorem Nested.below_or_apart {t a b : Tree} (h : Nested t) (ha : a ∈ t.preorder)
    (hb : b ∈ t.preorder) :
    a ∈ b.preorder ∨ b ∈ a.preorder ∨ a.stop ≤ b.start ∨ b.stop ≤ a.start := by
  induction t using induction generalizing a b with
  | node l f s fault cs ih =>
    rcases mem_preorder_iff.1 ha with rfl | ⟨c, hc, hac⟩
    · exact .inr (.inl hb)
    rcases mem_preorder_iff.1 hb with rfl | ⟨d, hd, hbd⟩
    · exact .inl ha
    exact below_or_apart_of_children h.ordered (fun c hc => h.child hc)
      (fun c hc a ha b hb => ih c hc (h.child hc) ha hb) hc hd hac hbd

/-! ## What comes later -/

/-- A node comes after another: it is below it, or begins where the other has ended. -/
def Later (a b : Tree) : Prop := (∃ c ∈ a.children, b ∈ c.preorder) ∨ a.stop ≤ b.start

/-- Of nodes in order two are the same, or apart. -/
theorem Ordered.eq_or_apart {cs : List Tree} {lo hi : Nat} (hord : Ordered lo (spans cs) hi)
    {c d : Tree} (hc : c ∈ cs) (hd : d ∈ cs) :
    c = d ∨ c.stop ≤ d.start ∨ d.stop ≤ c.start := by
  obtain ⟨before, after, rfl⟩ := List.append_of_mem hc
  have hapart : ∀ us vs : List Tree, Ordered lo (spans us ++ spans vs) hi →
      ∀ {x y : Tree}, x ∈ us → y ∈ vs → x.stop ≤ y.start := fun _ _ h _ _ hx hy =>
    h.stop_le_start (List.mem_map_of_mem hx) (List.mem_map_of_mem hy)
  rcases List.mem_append.1 hd with hbefore | hrest
  · exact .inr (.inr (hapart before (c :: after) (by simpa [spans] using hord) hbefore
      List.mem_cons_self))
  · rcases List.mem_cons.1 hrest with rfl | hafter
    · exact .inl rfl
    · exact .inr (.inl (hapart (before ++ [c]) after (by simpa [spans] using hord)
        (List.mem_append_right before (List.mem_singleton_self c)) hafter))

/-- Nodes of trees side by side come one after the other. -/
theorem pairwise_later_flatMap {cs : List Tree} {lo hi : Nat} (hord : Ordered lo (spans cs) hi)
    (hcs : ∀ c ∈ cs, Nested c) (ih : ∀ c ∈ cs, c.preorder.Pairwise Later) :
    (cs.flatMap preorder).Pairwise Later := by
  induction cs generalizing lo with
  | nil => exact .nil
  | cons c cs ihcs =>
    obtain ⟨hc, hcs⟩ := List.forall_mem_cons.1 hcs
    obtain ⟨ihc, ih⟩ := List.forall_mem_cons.1 ih
    rw [List.flatMap_cons, List.pairwise_append]
    refine ⟨ihc, ihcs hord.2.2 hcs ih, fun a ha b hb => .inr ?_⟩
    obtain ⟨d, hd, hb⟩ := List.mem_flatMap.1 hb
    have hastop := (hc.bounds ha).2
    have hbstart := ((hcs d hd).bounds hb).1
    have hdstart : c.stop ≤ d.start := (hord.2.2.mem (List.mem_map.2 ⟨d, hd, rfl⟩)).1
    omega

/-- **In document order every node comes after those before it.** -/
theorem Nested.pairwise_later {t : Tree} (h : Nested t) : t.preorder.Pairwise Later := by
  induction t using induction with
  | node l f s b cs ih =>
    rw [preorder_eq]
    refine .cons (fun n hn => .inl (List.mem_flatMap.1 hn)) ?_
    exact pairwise_later_flatMap h.ordered (fun c hc => h.child hc)
      fun c hc => ih c hc (h.child hc)

/-- **Children of two nodes that come one after the other are apart**, unless the
later node is below the child of the earlier. -/
theorem Later.below_or_apart {a b c d : Tree} (h : Later a b) (ha : Nested a) (hb : Nested b)
    (hc : c ∈ a.children) (hd : d ∈ b.children) :
    b ∈ c.preorder ∨ c.stop ≤ d.start ∨ d.stop ≤ c.start := by
  obtain ⟨hdstart, hdstop⟩ := hb.bounds_child hd
  rcases h with ⟨e, he, hbe⟩ | hle
  · obtain ⟨hbstart, hbstop⟩ := (ha.child he).bounds hbe
    rcases ha.ordered.eq_or_apart hc he with rfl | hce | hec
    · exact .inl hbe
    · exact .inr (.inl (by omega))
    · exact .inr (.inr (by omega))
  · have hcstop := (ha.bounds_child hc).2
    exact .inr (.inl (by omega))

end JavaMutants.Syntax.Tree
