import JavaMutants.Proofs.Syntax.Order
import Mathlib.Data.List.Flatten

/-!
# Visits that do not go everywhere

A visit passes over what is below a node that is not entered. In a nested tree
no node stands twice, so whether a node is visited is told by the nodes that it
is below (`Nested.mem_visit_iff`): all of them must be entered. Of the nodes
that are not entered those that are visited are apart from each other
(`Nested.pairwise_apart`).
-/

namespace JavaMutants.Syntax.Tree

/-- **A node is below another.** -/
def Below (n a : Tree) : Prop := ∃ c ∈ a.children, n ∈ c.preorder

theorem Below.mem_preorder {n a : Tree} (h : Below n a) : n ∈ a.preorder := by
  obtain ⟨c, hc, hn⟩ := h
  exact mem_preorder_of_child hc hn

/-- A tree has more nodes than those below it. -/
theorem length_preorder_lt {t c : Tree} (hc : c ∈ t.children) :
    c.preorder.length < t.preorder.length := by
  have hsub : c.preorder.Sublist (t.children.flatMap preorder) := by
    simpa using (List.singleton_sublist.2 hc).flatMap preorder
  rw [preorder_eq t, List.length_cons]
  exact Nat.lt_succ_of_le hsub.length_le

theorem length_preorder_le {t n : Tree} (hn : n ∈ t.preorder) :
    n.preorder.length ≤ t.preorder.length := by
  induction t using induction with
  | node l f s b cs ih =>
    rcases mem_preorder_iff.1 hn with rfl | ⟨c, hc, hnc⟩
    · exact Nat.le_refl _
    · exact Nat.le_trans (ih c hc hnc) (Nat.le_of_lt (length_preorder_lt hc))

/-- **No node is below itself**, nor below what is below it. -/
theorem Below.not_mem_preorder {n a : Tree} (h : Below n a) : a ∉ n.preorder := by
  obtain ⟨c, hc, hn⟩ := h
  intro ha
  have hle := length_preorder_le ha
  have hle' := length_preorder_le hn
  have hlt := length_preorder_lt hc
  omega

/-- **A node of a nested tree that is below one of the children is below no other.** -/
theorem Nested.mem_preorder_of_below {t c n a : Tree} (h : Nested t) (hc : c ∈ t.children)
    (hn : n ∈ c.preorder) (ha : a ∈ t.preorder) (hbelow : Below n a) :
    a = t ∨ a ∈ c.preorder := by
  refine (mem_preorder_iff.1 ha).imp_right ?_
  rintro ⟨d, hd, had⟩
  have hnd : n ∈ d.preorder := mem_preorder_trans hbelow.mem_preorder had
  obtain ⟨hcstart, hcstop⟩ := (h.child hc).bounds hn
  obtain ⟨hdstart, hdstop⟩ := (h.child hd).bounds hnd
  have hlt := ((h.child hc).of_mem_preorder hn).lt
  rcases h.ordered.eq_or_apart hc hd with rfl | hle | hle
  · exact had
  · omega
  · omega

section Visit

variable {enter : Tree → Bool} {t n : Tree}

theorem visit_eq (enter : Tree → Bool) (t : Tree) :
    t.visit enter = t :: if enter t then t.children.flatMap (visit enter) else [] := by
  obtain ⟨l, f, s, b, cs⟩ := t
  rw [visit, visitAll_eq_flatMap]
  rfl

/-- What is visited stands in document order. -/
theorem visit_sublist_preorder (enter : Tree → Bool) (t : Tree) :
    (t.visit enter).Sublist t.preorder := by
  induction t using induction with
  | node l f s b cs ih =>
    rw [visit_eq, preorder_eq]
    refine .cons_cons _ ?_
    split
    next => exact List.Sublist.flatMap_right cs fun c hc => ih c hc
    next => exact List.nil_sublist _

/-- **What is visited of a nested tree**: the nodes that are below none which is not
entered. -/
theorem Nested.mem_visit_iff (h : Nested t) :
    n ∈ t.visit enter ↔ n ∈ t.preorder ∧ ∀ a ∈ t.preorder, Below n a → enter a = true := by
  induction t using induction with
  | node l f s b cs ih =>
    constructor
    · intro hn
      have hmem := mem_preorder_of_mem_visit hn
      refine ⟨hmem, fun a ha hbelow => ?_⟩
      rw [visit_eq] at hn
      rcases List.mem_cons.1 hn with rfl | hn
      · exact absurd ha hbelow.not_mem_preorder
      · split at hn
        next henter =>
          obtain ⟨c, hc, hnc⟩ := List.mem_flatMap.1 hn
          obtain ⟨hmem, hall⟩ := (ih c hc (h.child hc)).1 hnc
          rcases h.mem_preorder_of_below hc hmem ha hbelow with rfl | ha
          · exact henter
          · exact hall a ha hbelow
        next => exact absurd hn List.not_mem_nil
    · rintro ⟨hn, hall⟩
      rw [visit_eq]
      rcases mem_preorder_iff.1 hn with rfl | ⟨c, hc, hnc⟩
      · exact List.mem_cons_self
      · rw [if_pos (hall _ (mem_preorder_self _) ⟨c, hc, hnc⟩)]
        refine List.mem_cons_of_mem _ (List.mem_flatMap.2 ⟨c, hc, ?_⟩)
        exact (ih c hc (h.child hc)).2
          ⟨hnc, fun a ha => hall a (mem_preorder_of_child hc ha)⟩

/-- **Nodes that are visited and not entered are apart**, in document order. -/
theorem Nested.pairwise_apart (h : Nested t) {chosen : Tree → Bool}
    (hchosen : ∀ n, chosen n = true → enter n = false) :
    ((t.visit enter).filter chosen).Pairwise fun a b => a.stop ≤ b.start := by
  have hlater := (h.pairwise_later.sublist (visit_sublist_preorder enter t)).filter chosen
  refine hlater.imp_of_mem fun {a b} ha hb hab => hab.resolve_left fun hbelow => ?_
  obtain ⟨hvisit, hc⟩ := List.mem_filter.1 ha
  have henter := (h.mem_visit_iff.1 (List.mem_filter.1 hb).1).2 a
    (mem_preorder_of_mem_visit hvisit) hbelow
  rw [hchosen a hc] at henter
  cases henter

end Visit

end JavaMutants.Syntax.Tree
