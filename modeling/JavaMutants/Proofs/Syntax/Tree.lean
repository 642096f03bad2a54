import JavaMutants.Syntax.Tree
import Mathlib.Data.List.Basic

/-!
# Trees, their nodes and their leaves

The nodes of a tree by recursion on its children, and its **leaves**, the
nodes without children. A tree has true flags if a node is flagged
exactly when there is a fault in it (`Flagged`); in such a tree the
search for a fault misses none. Two shapes are told apart. A tree is
*formed* if every node reaches from its first child to its last
(`Formed`): that is how trees are built. A tree is *nested* if children
lie in their parent one after the other (`Nested`): that is what is used
of it. A formed tree is nested as soon as its leaves come one after the
other (`Formed.nested`).
-/

namespace JavaMutants.Syntax

namespace Tree

/-! ## Nodes -/

/-- Induction over a tree: what holds of a node if it holds of its
children, holds of all trees. -/
@[elab_as_elim]
theorem induction {P : Tree → Prop}
    (node : ∀ l f s b cs, (∀ c ∈ cs, P c) → P (.node l f s b cs)) (t : Tree) : P t := by
  refine Tree.rec (motive_1 := P) (motive_2 := fun cs => ∀ c ∈ cs, P c) node ?_ ?_ t
  · intro c hc
    exact absurd hc List.not_mem_nil
  · intro t ts ht hts c hc
    rcases List.mem_cons.1 hc with rfl | hc
    · exact ht
    · exact hts c hc

theorem visitAll_eq_flatMap (enter : Tree → Bool) (ts : List Tree) :
    visitAll enter ts = ts.flatMap (visit enter) := by
  induction ts with
  | nil => rw [visitAll]; rfl
  | cons t ts ih => rw [visitAll, ih, List.flatMap_cons]

/-- The nodes of a tree are itself and the nodes of its children. -/
theorem preorder_eq (t : Tree) : t.preorder = t :: t.children.flatMap preorder := by
  obtain ⟨l, f, s, b, cs⟩ := t
  unfold preorder
  rw [visit, if_pos rfl, visitAll_eq_flatMap]
  rfl

theorem mem_preorder_iff {n t : Tree} :
    n ∈ t.preorder ↔ n = t ∨ ∃ c ∈ t.children, n ∈ c.preorder := by
  rw [preorder_eq, List.mem_cons, List.mem_flatMap]

theorem mem_preorder_self (t : Tree) : t ∈ t.preorder := mem_preorder_iff.2 (.inl rfl)

theorem mem_preorder_of_child {n c t : Tree} (hc : c ∈ t.children) (hn : n ∈ c.preorder) :
    n ∈ t.preorder := mem_preorder_iff.2 (.inr ⟨c, hc, hn⟩)

/-- Nodes of nodes are nodes. -/
theorem mem_preorder_trans {m n t : Tree} (hm : m ∈ n.preorder) (hn : n ∈ t.preorder) :
    m ∈ t.preorder := by
  induction t using induction with
  | node l f s b cs ih =>
    rcases mem_preorder_iff.1 hn with rfl | ⟨c, hc, hnc⟩
    · exact hm
    · exact mem_preorder_of_child hc (ih c hc hnc)

/-! ## Fields -/

/-- Nodes that are visited are nodes. -/
theorem mem_preorder_of_mem_visit {enter : Tree → Bool} {n t : Tree} (h : n ∈ t.visit enter) :
    n ∈ t.preorder := by
  induction t using induction with
  | node l f s b cs ih =>
    rw [visit, visitAll_eq_flatMap] at h
    rcases List.mem_cons.1 h with rfl | h
    · exact mem_preorder_self _
    · split at h
      next =>
        obtain ⟨c, hc, hnc⟩ := List.mem_flatMap.1 h
        exact mem_preorder_of_child hc (ih c hc hnc)
      next => exact absurd h List.not_mem_nil

@[simp] theorem label_withField (f : Option Field) (t : Tree) :
    (t.withField f).label = t.label := by
  rcases t with ⟨l, _ | g, s, b, cs⟩ <;> rfl

@[simp] theorem span_withField (f : Option Field) (t : Tree) :
    (t.withField f).span = t.span := by
  rcases t with ⟨l, _ | g, s, b, cs⟩ <;> rfl

@[simp] theorem children_withField (f : Option Field) (t : Tree) :
    (t.withField f).children = t.children := by
  rcases t with ⟨l, _ | g, s, b, cs⟩ <;> rfl

@[simp] theorem start_withField (f : Option Field) (t : Tree) :
    (t.withField f).start = t.start := congrArg Span.start (span_withField f t)

@[simp] theorem stop_withField (f : Option Field) (t : Tree) :
    (t.withField f).stop = t.stop := congrArg Span.stop (span_withField f t)

theorem field_withField (f : Option Field) (t : Tree) :
    (t.withField f).field = t.field.or f := by
  rcases t with ⟨l, _ | g, s, b, cs⟩ <;> rfl

/-! ## Leaves -/

mutual

/-- **The leaves of a tree** from left to right, each with its label and
its place. -/
def leaves : Tree → List (Label × Span)
  | node l _ s _ cs => if cs.isEmpty then [(l, s)] else leavesAll cs

/-- The leaves of several trees. -/
def leavesAll : List Tree → List (Label × Span)
  | [] => []
  | t :: ts => leaves t ++ leavesAll ts

end

theorem leavesAll_eq_flatMap (ts : List Tree) : leavesAll ts = ts.flatMap leaves := by
  induction ts with
  | nil => rw [leavesAll]; rfl
  | cons t ts ih => rw [leavesAll, ih, List.flatMap_cons]

@[simp] theorem leavesAll_nil : leavesAll [] = [] := by rw [leavesAll]

@[simp] theorem leavesAll_cons (t : Tree) (ts : List Tree) :
    leavesAll (t :: ts) = t.leaves ++ leavesAll ts := by rw [leavesAll]

@[simp] theorem leavesAll_append (ts us : List Tree) :
    leavesAll (ts ++ us) = leavesAll ts ++ leavesAll us := by
  simp only [leavesAll_eq_flatMap, List.flatMap_append]

theorem leaves_of_children_nil {t : Tree} (h : t.children = []) :
    t.leaves = [(t.label, t.span)] := by
  obtain ⟨l, f, s, b, cs⟩ := t
  obtain rfl : cs = [] := h
  rw [leaves]
  rfl

theorem leaves_of_children_ne_nil {t : Tree} (h : t.children ≠ []) :
    t.leaves = leavesAll t.children := by
  obtain ⟨l, f, s, b, cs⟩ := t
  have hne : cs ≠ [] := h
  rw [leaves, if_neg (by simpa using hne)]
  rfl

@[simp] theorem leaves_withField (f : Option Field) (t : Tree) :
    (t.withField f).leaves = t.leaves := by
  rcases t with ⟨l, _ | g, s, b, cs⟩ <;> simp [withField, leaves]

@[simp] theorem leavesAll_map_withField (f : Option Field) (ts : List Tree) :
    leavesAll (ts.map (withField f)) = leavesAll ts := by
  induction ts with
  | nil => rfl
  | cons t ts ih => rw [List.map_cons, leavesAll_cons, leavesAll_cons, leaves_withField, ih]

theorem leaves_ne_nil (t : Tree) : t.leaves ≠ [] := by
  induction t using induction with
  | node l f s b cs ih =>
    cases cs with
    | nil => simp [leaves]
    | cons c cs =>
      have hne : (Tree.node l f s b (c :: cs)).children ≠ [] := List.cons_ne_nil c cs
      rw [leaves_of_children_ne_nil hne]
      show leavesAll (c :: cs) ≠ []
      rw [leavesAll_cons]
      exact List.append_ne_nil_of_left_ne_nil (ih c List.mem_cons_self) _

theorem leavesAll_eq_nil_iff {ts : List Tree} : leavesAll ts = [] ↔ ts = [] := by
  cases ts with
  | nil => simp
  | cons t ts => simp [leaves_ne_nil]

/-- A leaf is a node without children. -/
theorem exists_of_mem_leaves {t : Tree} {x : Label × Span} (hx : x ∈ t.leaves) :
    ∃ n ∈ t.preorder, n.children = [] ∧ x = (n.label, n.span) := by
  induction t using induction with
  | node l f s b cs ih =>
    by_cases hcs : (node l f s b cs).children = []
    · refine ⟨_, mem_preorder_self _, hcs, ?_⟩
      rw [leaves_of_children_nil hcs] at hx
      exact List.mem_singleton.1 hx
    · rw [leaves_of_children_ne_nil hcs, leavesAll_eq_flatMap, List.mem_flatMap] at hx
      obtain ⟨c, hc, hxc⟩ := hx
      obtain ⟨n, hn, hnil, hxn⟩ := ih c hc hxc
      exact ⟨n, mem_preorder_of_child hc hn, hnil, hxn⟩

/-- The leaves of a node below are leaves. -/
theorem mem_leaves_of_mem_preorder {n t : Tree} {x : Label × Span} (hn : n ∈ t.preorder)
    (hx : x ∈ n.leaves) : x ∈ t.leaves := by
  induction t using induction with
  | node l f s b cs ih =>
    rcases mem_preorder_iff.1 hn with rfl | ⟨c, hc, hnc⟩
    · exact hx
    · have hne : (node l f s b cs).children ≠ [] := List.ne_nil_of_mem hc
      rw [leaves_of_children_ne_nil hne, leavesAll_eq_flatMap, List.mem_flatMap]
      exact ⟨c, hc, ih c hc hnc⟩

/-! ## Flags -/

/-- **A tree with true flags**: a node is flagged exactly if it is a fault
or one of its children is flagged. -/
inductive Flagged : Tree → Prop where
  /-- A node over children with true flags. -/
  | node {l f s b cs} (hb : b = (l.isFault || cs.any faulty))
      (hcs : ∀ c ∈ cs, Flagged c) : Flagged (node l f s b cs)

theorem flagged_leaf (l : Label) (s : Span) : Flagged (leaf l s) := by
  refine .node ?_ ?_
  · simp
  · simp

theorem flagged_above {l : Label} {cs : List Tree} (hcs : ∀ c ∈ cs, Flagged c) :
    Flagged (above l cs) := .node rfl hcs

theorem Flagged.withField {t : Tree} (h : Flagged t) (f : Option Field) :
    Flagged (t.withField f) := by
  cases h with
  | @node l g s b cs hb hcs => cases g <;> exact .node hb hcs

/-- A flag says whether one of the nodes is a fault. -/
theorem Flagged.faulty_eq_true_iff {t : Tree} (h : Flagged t) :
    t.faulty = true ↔ ∃ n ∈ t.preorder, n.label.isFault = true := by
  induction h with
  | @node l f s b cs hb hcs ih =>
    show b = true ↔ _
    rw [hb, Bool.or_eq_true, List.any_eq_true, preorder_eq]
    simp only [List.mem_cons, exists_eq_or_imp, List.mem_flatMap]
    refine or_congr Iff.rfl ?_
    constructor
    · rintro ⟨c, hc, hfc⟩
      obtain ⟨n, hn, hl⟩ := (ih c hc).1 hfc
      exact ⟨n, ⟨c, hc, hn⟩, hl⟩
    · rintro ⟨n, ⟨c, hc, hn⟩, hl⟩
      exact ⟨c, hc, (ih c hc).2 ⟨n, hn, hl⟩⟩

/-- A search through several trees goes on in the next where one has no
fault. -/
theorem firstFaultAmong_eq {ts : List Tree}
    (h : ∀ t ∈ ts, t.firstFault = t.preorder.find? fun n => n.label.isFault) :
    firstFaultAmong ts = (ts.flatMap preorder).find? fun n => n.label.isFault := by
  induction ts with
  | nil => rw [firstFaultAmong]; rfl
  | cons t ts ih =>
    obtain ⟨ht, hts⟩ := List.forall_mem_cons.1 h
    rw [firstFaultAmong, List.flatMap_cons, List.find?_append, ht, ih hts]

/-- **Where flags are true, the search for a fault finds the first in document
order**: the nodes that it passes over have none. -/
theorem Flagged.firstFault_eq {t : Tree} (h : Flagged t) :
    t.firstFault = t.preorder.find? fun n => n.label.isFault := by
  induction h with
  | @node l f s b cs hb hcs ih =>
    have hflag := (Flagged.node (f := f) (s := s) hb hcs).faulty_eq_true_iff
    rw [preorder_eq] at hflag ⊢
    rw [firstFault]
    by_cases hl : l.isFault = true
    · have hroot : (Tree.node l f s b cs).label.isFault = true := hl
      rw [if_pos hl, List.find?_cons_of_pos (p := fun n : Tree => n.label.isFault) hroot]
    · have hroot : ¬ (Tree.node l f s b cs).label.isFault = true := hl
      rw [if_neg hl, List.find?_cons_of_neg (p := fun n : Tree => n.label.isFault) hroot]
      cases b with
      | true =>
        rw [if_pos rfl]
        exact firstFaultAmong_eq ih
      | false =>
        rw [if_neg Bool.false_ne_true]
        refine (List.find?_eq_none.2 fun n hn hf => ?_).symm
        exact Bool.false_ne_true (hflag.2 ⟨n, List.mem_cons_of_mem _ hn, hf⟩)

/-- The search for a fault succeeds exactly in flagged trees. -/
theorem Flagged.firstFault_eq_none_iff {t : Tree} (h : Flagged t) :
    t.firstFault = none ↔ t.faulty = false := by
  rw [h.firstFault_eq, List.find?_eq_none, ← Bool.not_eq_true, h.faulty_eq_true_iff]
  exact ⟨fun hn ⟨n, hmem, hf⟩ => hn n hmem hf, fun hn n hmem hf => hn ⟨n, hmem, hf⟩⟩

/-! ## Trees as they are built -/

/-- **A tree as it is built**: a node with children reaches from the
beginning of the first to the end of the last. -/
inductive Formed : Tree → Prop where
  /-- A leaf. -/
  | leaf {l f s b} : Formed (node l f s b [])
  /-- A node over children. -/
  | inner {l f s b cs} (hne : cs ≠ [])
      (hs : s = ⟨(cs.head hne).start, (cs.getLast hne).stop⟩)
      (hcs : ∀ c ∈ cs, Formed c) : Formed (node l f s b cs)

theorem Formed.withField {t : Tree} (h : Formed t) (f : Option Field) :
    Formed (t.withField f) := by
  cases h with
  | @leaf l g s b => cases g <;> exact .leaf
  | @inner l g s b cs hne hs hcs => cases g <;> exact .inner hne hs hcs

theorem formed_leaf (l : Label) (s : Span) : Formed (leaf l s) := .leaf

theorem formed_above {l : Label} {cs : List Tree} (hcs : ∀ c ∈ cs, Formed c) :
    Formed (above l cs) := by
  by_cases hne : cs = []
  · subst hne
    exact .leaf
  · refine .inner hne ?_ hcs
    rw [List.head?_eq_some_head hne, List.getLast?_eq_some_getLast hne]

/-! ## Places in order -/

/-- **Places in order**, none of them empty, between two bounds. -/
def Ordered : Nat → List Span → Nat → Prop
  | lo, [], hi => lo ≤ hi
  | lo, s :: ss, hi => lo ≤ s.start ∧ s.start < s.stop ∧ Ordered s.stop ss hi

theorem Ordered.le {lo hi : Nat} {ss : List Span} (h : Ordered lo ss hi) : lo ≤ hi := by
  induction ss generalizing lo with
  | nil => exact h
  | cons s ss ih =>
    obtain ⟨h₁, h₂, h₃⟩ := h
    have := ih h₃
    omega

theorem ordered_append_iff {lo hi : Nat} {ss us : List Span} :
    Ordered lo (ss ++ us) hi ↔ ∃ mid, Ordered lo ss mid ∧ Ordered mid us hi := by
  induction ss generalizing lo with
  | nil =>
    constructor
    · intro h
      exact ⟨lo, Nat.le_refl lo, h⟩
    · rintro ⟨mid, hle, h⟩
      cases us with
      | nil => exact Nat.le_trans hle h
      | cons u us => exact ⟨Nat.le_trans hle h.1, h.2⟩
  | cons s ss ih =>
    constructor
    · rintro ⟨h₁, h₂, h₃⟩
      obtain ⟨mid, ha, hb⟩ := ih.1 h₃
      exact ⟨mid, ⟨h₁, h₂, ha⟩, hb⟩
    · rintro ⟨mid, ⟨h₁, h₂, ha⟩, hb⟩
      exact ⟨h₁, h₂, ih.2 ⟨mid, ha, hb⟩⟩

theorem Ordered.mono {lo lo' hi hi' : Nat} {ss : List Span} (h : Ordered lo ss hi)
    (hlo : lo' ≤ lo) (hhi : hi ≤ hi') : Ordered lo' ss hi' := by
  induction ss generalizing lo lo' with
  | nil => exact Nat.le_trans hlo (Nat.le_trans h hhi)
  | cons s ss ih => exact ⟨Nat.le_trans hlo h.1, h.2.1, ih h.2.2 (Nat.le_refl _)⟩

/-! ## Nested trees -/

/-- The places of some nodes. -/
def spans (ts : List Tree) : List Span := ts.map span

/-- **A nested tree**: no node is empty, and the children of a node lie in
it one after the other, the first where it begins and the last where it
ends. -/
inductive Nested : Tree → Prop where
  /-- A node over nested children. -/
  | node {l f s b cs} (hne : s.start < s.stop) (hin : Ordered s.start (spans cs) s.stop)
      (hhead : ∀ c ∈ cs.head?, c.start = s.start) (hlast : ∀ c ∈ cs.getLast?, c.stop = s.stop)
      (hcs : ∀ c ∈ cs, Nested c) : Nested (node l f s b cs)

namespace Nested

variable {t c n : Tree}

theorem lt (h : Nested t) : t.start < t.stop := by
  cases h with
  | node hne => exact hne

theorem ordered (h : Nested t) : Ordered t.start (spans t.children) t.stop := by
  cases h with
  | node _ hin => exact hin

theorem child (h : Nested t) (hc : c ∈ t.children) : Nested c := by
  cases h with
  | node _ _ _ _ hcs => exact hcs c hc

/-- The last child ends where the node does. -/
theorem stop_of_getLast? (h : Nested t) (hc : t.children.getLast? = some c) : c.stop = t.stop := by
  cases h with
  | node _ _ _ hlast => exact hlast c hc

theorem of_mem_preorder (h : Nested t) (hn : n ∈ t.preorder) : Nested n := by
  induction t using induction with
  | node l f s b cs ih =>
    rcases mem_preorder_iff.1 hn with rfl | ⟨c, hc, hnc⟩
    · exact h
    · exact ih c hc (h.child hc) hnc

end Nested

/-- A member of places in order lies between the bounds. -/
theorem Ordered.mem {lo hi : Nat} {ss : List Span} (h : Ordered lo ss hi) {s : Span}
    (hs : s ∈ ss) : lo ≤ s.start ∧ s.start < s.stop ∧ s.stop ≤ hi := by
  obtain ⟨before, after, rfl⟩ := List.append_of_mem hs
  obtain ⟨mid, hbefore, hafter⟩ := ordered_append_iff.1 h
  have := hbefore.le
  obtain ⟨h₁, h₂, h₃⟩ := hafter
  have := h₃.le
  exact ⟨by omega, h₂, by omega⟩

/-- What comes first has ended where something later begins. -/
theorem Ordered.stop_le_start {lo hi : Nat} {ss us : List Span} (h : Ordered lo (ss ++ us) hi)
    {s u : Span} (hs : s ∈ ss) (hu : u ∈ us) : s.stop ≤ u.start := by
  obtain ⟨mid, hss, hus⟩ := ordered_append_iff.1 h
  exact Nat.le_trans (hss.mem hs).2.2 (hus.mem hu).1

theorem Nested.bounds_child {t c : Tree} (h : Nested t) (hc : c ∈ t.children) :
    t.start ≤ c.start ∧ c.stop ≤ t.stop := by
  obtain ⟨h₁, -, h₃⟩ := h.ordered.mem (List.mem_map.2 ⟨c, hc, rfl⟩)
  exact ⟨h₁, h₃⟩

/-- **All nodes of a nested tree lie in it.** -/
theorem Nested.bounds {t n : Tree} (h : Nested t) (hn : n ∈ t.preorder) :
    t.start ≤ n.start ∧ n.stop ≤ t.stop := by
  induction t using induction with
  | node l f s b cs ih =>
    rcases mem_preorder_iff.1 hn with rfl | ⟨c, hc, hnc⟩
    · exact ⟨Nat.le_refl _, Nat.le_refl _⟩
    · obtain ⟨h₁, h₂⟩ := h.bounds_child hc
      obtain ⟨h₃, h₄⟩ := ih c hc (h.child hc) hnc
      exact ⟨Nat.le_trans h₁ h₃, Nat.le_trans h₄ h₂⟩

/-- A leaf of a nested node lies in it. -/
theorem Nested.bounds_leaf {t : Tree} (h : Nested t) {x : Label × Span}
    (hx : x ∈ t.leaves) : t.start ≤ x.2.start ∧ x.2.stop ≤ t.stop := by
  obtain ⟨m, hm, -, rfl⟩ := exists_of_mem_leaves hx
  exact h.bounds hm

/-! ## From leaves to nodes -/

/-- The places of the leaves of some trees. -/
def leafSpans (ts : List Tree) : List Span := (leavesAll ts).map Prod.snd

@[simp] theorem leafSpans_nil : leafSpans [] = [] := by
  rw [leafSpans, leavesAll_nil]
  rfl

theorem leafSpans_cons (t : Tree) (ts : List Tree) :
    leafSpans (t :: ts) = leafSpans [t] ++ leafSpans ts := by
  simp only [leafSpans, leavesAll_cons, leavesAll_nil, List.append_nil, List.map_append]

theorem leafSpans_singleton_of_ne_nil {t : Tree} (h : t.children ≠ []) :
    leafSpans [t] = leafSpans t.children := by
  simp only [leafSpans, leavesAll_cons, leavesAll_nil, List.append_nil,
    leaves_of_children_ne_nil h]

/-- Trees whose leaves come one after the other, come one after the
other, if each of them is nested as soon as its leaves are in order. -/
theorem ordered_spans_of_leafSpans {ts : List Tree}
    (ih : ∀ t ∈ ts, ∀ lo hi, Ordered lo (leafSpans [t]) hi →
      Nested t ∧ lo ≤ t.start ∧ t.stop ≤ hi)
    {lo hi : Nat} (h : Ordered lo (leafSpans ts) hi) :
    Ordered lo (spans ts) hi ∧ ∀ t ∈ ts, Nested t := by
  induction ts generalizing lo with
  | nil =>
    rw [leafSpans_nil] at h
    exact ⟨h, fun t ht => absurd ht List.not_mem_nil⟩
  | cons t ts ihts =>
    rw [leafSpans_cons] at h
    obtain ⟨mid, ht, hts⟩ := ordered_append_iff.1 h
    obtain ⟨hnest, hlo, hmid⟩ := ih t List.mem_cons_self lo mid ht
    obtain ⟨hord, hall⟩ := ihts (fun u hu => ih u (List.mem_cons_of_mem t hu)) hts
    refine ⟨⟨hlo, hnest.lt, hord.mono hmid (Nat.le_refl hi)⟩, ?_⟩
    intro u hu
    rcases List.mem_cons.1 hu with rfl | hu
    · exact hnest
    · exact hall u hu

/-- The bounds of places in order can be drawn in to the first and the
last of them. -/
theorem Ordered.tight {lo hi : Nat} {ts : List Tree} (h : Ordered lo (spans ts) hi)
    (hne : ts ≠ []) : Ordered (ts.head hne).start (spans ts) (ts.getLast hne).stop := by
  induction ts generalizing lo with
  | nil => exact absurd rfl hne
  | cons t ts ih =>
    obtain ⟨-, hlt, hrest⟩ := h
    cases ts with
    | nil => exact ⟨Nat.le_refl _, hlt, Nat.le_refl _⟩
    | cons u us =>
      have hlast := ih hrest (List.cons_ne_nil u us)
      refine ⟨Nat.le_refl _, hlt, ?_⟩
      rw [List.getLast_cons (List.cons_ne_nil u us)]
      exact hlast.mono hrest.1 (Nat.le_refl _)

/-- **A formed tree is nested if its leaves come one after the other.** -/
theorem Formed.nested {t : Tree} (h : Formed t) {lo hi : Nat}
    (hord : Ordered lo (leafSpans [t]) hi) : Nested t ∧ lo ≤ t.start ∧ t.stop ≤ hi := by
  induction h generalizing lo hi with
  | @leaf l f s b =>
    have hs : leafSpans [node l f s b []] = [s] := by simp [leafSpans, leaves]
    rw [hs] at hord
    obtain ⟨h₁, h₂, h₃⟩ := hord
    refine ⟨.node h₂ (Nat.le_of_lt h₂) ?_ ?_ ?_, h₁, h₃⟩
    · simp
    · simp
    · simp
  | @inner l f s b cs hne hs hcs ih =>
    have hne' : (node l f s b cs).children ≠ [] := hne
    rw [leafSpans_singleton_of_ne_nil hne'] at hord
    obtain ⟨hrow, hall⟩ := ordered_spans_of_leafSpans (fun t ht lo hi => ih t ht) hord
    have hfirst := hrow.mem (List.mem_map.2 ⟨_, List.head_mem hne, rfl⟩)
    have hlast := hrow.mem (List.mem_map.2 ⟨_, List.getLast_mem hne, rfl⟩)
    subst hs
    have htight : Ordered (cs.head hne).start (spans cs) (cs.getLast hne).stop :=
      Ordered.tight hrow hne
    have hlt : (cs.head hne).start < (cs.getLast hne).stop := by
      obtain ⟨h₁, h₂, -⟩ := htight.mem (List.mem_map.2 ⟨_, List.getLast_mem hne, rfl⟩)
      exact Nat.lt_of_le_of_lt h₁ h₂
    refine ⟨.node hlt htight ?_ ?_ hall, hfirst.1, hlast.2.2⟩
    · intro c hc
      rw [List.head?_eq_some_head hne] at hc
      exact congrArg start (Option.some.inj hc).symm
    · intro c hc
      rw [List.getLast?_eq_some_getLast hne] at hc
      exact congrArg stop (Option.some.inj hc).symm

end Tree

end JavaMutants.Syntax
