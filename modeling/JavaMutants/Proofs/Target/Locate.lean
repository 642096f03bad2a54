import JavaMutants.Proofs.Syntax.Order
import JavaMutants.Proofs.Target.Declaration
import JavaMutants.Proofs.Traversal
import Mathlib.Data.List.Sort

/-!
# Targets are found exactly

Which declarations of a source file are targets, said without the search
(`Target.Marked`), and what a target tells of its declaration
(`Target.Describes`). The search finds exactly these, once each and in
document order, whatever the order in which the declarations come up and
however often one does (`Target.locate_exact`).

The proof has three steps. A pair of a declaration and its modifiers is
determined by the place of the declaration, so leaving out repeated
places leaves out repeated pairs only; the list of all nodes has the
declarations in document order already, so sorting what is left gives
back that list; and numbering changes nothing but the numbers.
-/

namespace JavaMutants.Target

open Syntax Tree

/-! ## What is to be found -/

/-- The kinds of declarations and what targets they are. -/
def declarationKinds : List (Kind × TargetKind) := [
  (.classDeclaration, .typeDeclaration), (.interfaceDeclaration, .typeDeclaration),
  (.enumDeclaration, .typeDeclaration), (.recordDeclaration, .typeDeclaration),
  (.annotationTypeDeclaration, .typeDeclaration), (.constructorDeclaration, .constructor),
  (.compactConstructorDeclaration, .constructor), (.methodDeclaration, .method) ]

/-- A node is a declaration that can be a target of a kind. -/
def IsOfKind (node : Tree) (kind : TargetKind) : Prop :=
  ∃ k, node.label = .named k ∧ (k, kind) ∈ declarationKinds

/-- A node has a text. -/
def Reads (text : String) (node : Tree) (s : String) : Prop :=
  Text.slice? text node.start node.stop = some s

/-- **The name of an annotation ends in a word**: it is that word, or
qualified and the word comes last. -/
def LastSegment (text : String) (node : Tree) (s : String) : Prop :=
  ∃ name, node.child? .name = some name
    ∧ (name.isA .identifier = true ∧ Reads text name s
      ∨ name.isA .scopedIdentifier = true
        ∧ ∃ last, name.child? .name = some last ∧ Reads text last s)

/-- **A list of modifiers has an annotation** whose name ends in a word,
be it with arguments or without. -/
def Annotated (text : String) (mods : Tree) (s : String) : Prop :=
  ∃ a ∈ mods.children, (a.isA .annotationPlain = true ∨ a.isA .annotationApplied = true)
    ∧ LastSegment text a s

/-- **A declaration is to be found** if its modifiers have the marker. -/
def Marked (markers : Markers) (text : String) (node : Tree) : Prop :=
  (∃ kind, IsOfKind node kind) ∧ ∃ mods ∈ node.children, mods.isA .modifiers = true
    ∧ Annotated text mods markers.mutate

/-- **What a target tells of its declaration.** -/
structure Describes (markers : Markers) (text : String) (node : Tree) (t : Target) : Prop where
  /-- Its kind. -/
  kind : IsOfKind node t.kind
  /-- The name it declares. -/
  name : ∃ c, node.child? .name = some c ∧ Reads text c t.name
  /-- Where it begins. -/
  start : t.start = node.start
  /-- Where it ends. -/
  stop : t.stop = node.stop
  /-- That it is marked. -/
  marked : t.marked = true
  /-- Whether the modifiers that mark it have the other marker as well. -/
  deprecated : ∃ mods ∈ node.children, mods.isA .modifiers = true
    ∧ Annotated text mods markers.mutate
    ∧ (t.deprecated = true ↔ Annotated text mods markers.deprecated)

/-- A declaration of a tree and a list of its modifiers. -/
def IsMatch (tree node mods : Tree) : Prop :=
  node ∈ tree.preorder ∧ (∃ kind, IsOfKind node kind) ∧ mods ∈ node.children
    ∧ mods.isA .modifiers = true

/-- A target begins before another, or with it and ends after it. -/
def Precedes (a b : Target) : Prop :=
  a.start < b.start ∨ a.start = b.start ∧ b.stop < a.stop

/-! ## Declarations and their modifiers -/

theorem isOfKind_iff {node : Tree} {kind : TargetKind} :
    IsOfKind node kind ↔ node.kind?.bind TargetKind.ofKind? = some kind := by
  have hkinds : ∀ k, (k, kind) ∈ declarationKinds ↔ TargetKind.ofKind? k = some kind := by
    intro k
    cases k <;> cases kind <;> decide
  unfold IsOfKind kind?
  cases node.label with
  | named k => simp [hkinds]
  | _ => simp

theorem IsOfKind.isDeclaration {node : Tree} {kind : TargetKind} (h : IsOfKind node kind) :
    ∃ k, node.label = .named k ∧ isDeclaration k = true := by
  obtain ⟨k, hl, hk⟩ := h
  refine ⟨k, hl, ?_⟩
  cases k <;> first | rfl | simp [declarationKinds] at hk

theorem mem_declarations_iff {tree node mods : Tree} :
    (node, mods) ∈ declarations tree ↔ IsMatch tree node mods := by
  unfold declarations IsMatch
  simp only [List.mem_flatMap, isOfKind_iff]
  constructor
  · rintro ⟨n, hn, hmem⟩
    split at hmem
    next kind hk =>
      obtain ⟨m, hm, heq⟩ := List.mem_map.1 hmem
      obtain ⟨rfl, rfl⟩ := Prod.mk.inj heq
      obtain ⟨hm, hmods⟩ := List.mem_filter.1 hm
      exact ⟨hn, ⟨kind, hk⟩, hm, hmods⟩
    next => cases hmem
  · rintro ⟨hn, ⟨kind, hk⟩, hm, hmods⟩
    refine ⟨node, hn, ?_⟩
    simp only [hk]
    exact List.mem_map.2 ⟨mods, List.mem_filter.2 ⟨hm, hmods⟩, rfl⟩

/-! ## Numbers -/

/-- **Numbering changes only the numbers.** -/
theorem forall₂_number (done ts : List Target) :
    List.Forall₂ (fun t t' => { t with ordinal := t'.ordinal } = t') ts (number done ts) := by
  induction ts generalizing done with
  | nil => exact .nil
  | cons t ts ih => exact .cons rfl (ih _)

/-- **A target's number is how many of its kind come before it.** -/
theorem ordinal_of_number {done ts before after : List Target} {t : Target}
    (h : number done ts = before ++ t :: after) :
    t.ordinal = done.countP (fun u => u.kind == t.kind)
      + before.countP (fun u => u.kind == t.kind) := by
  induction ts generalizing done before with
  | nil => simp [number] at h
  | cons u ts ih =>
    rw [number] at h
    cases before with
    | nil =>
      obtain ⟨rfl, -⟩ := List.cons.inj h
      simp [List.countP_eq_length_filter]
    | cons v before =>
      obtain ⟨rfl, hrest⟩ := List.cons.inj h
      rw [ih hrest, List.countP_cons, List.countP_cons, Nat.add_assoc]
      exact congrArg _ (Nat.add_comm _ _)

/-- What a target is known by in the names of its mutants. -/
def place (t : Target) : TargetKind × Nat := (t.kind, t.ordinal)

/-- **No two targets have the same kind and number.** -/
theorem nodup_places_number (done ts : List Target) :
    ((number done ts).map place).Nodup := by
  induction ts generalizing done with
  | nil => exact .nil
  | cons t ts ih =>
    rw [number, List.map_cons]
    refine List.nodup_cons.2 ⟨fun hmem => ?_, ih (t :: done)⟩
    -- a later target of the kind has the first one before it as well
    obtain ⟨u, hu, hplace⟩ := List.mem_map.1 hmem
    obtain ⟨before, after, hsplit⟩ := List.append_of_mem hu
    have hord := ordinal_of_number hsplit
    obtain ⟨hkind, hnum⟩ := Prod.mk.inj hplace
    simp only at hkind hnum
    rw [hnum, List.countP_cons, hkind, beq_self_eq_true, if_pos rfl,
      List.countP_eq_length_filter] at hord
    omega

/-! ## Repeated places -/

/-- What is left has no place twice, and none that has been seen. -/
theorem nodup_distinct (seen : List Span) (found : List (Tree × Tree)) :
    ((distinct seen found).map (·.1.span)).Nodup
      ∧ ∀ s ∈ (distinct seen found).map (·.1.span), s ∉ seen := by
  induction found generalizing seen with
  | nil => exact ⟨.nil, fun _ h => absurd h List.not_mem_nil⟩
  | cons x found ih =>
    obtain ⟨node, mods⟩ := x
    rw [distinct]
    split
    next => exact ih seen
    next hseen =>
      obtain ⟨hnodup, hnew⟩ := ih (node.span :: seen)
      rw [List.map_cons]
      refine ⟨List.nodup_cons.2 ⟨fun h => hnew _ h List.mem_cons_self, hnodup⟩, ?_⟩
      refine List.forall_mem_cons.2 ⟨by simpa using hseen, fun s hs h => ?_⟩
      exact hnew s hs (List.mem_cons_of_mem _ h)

/-- **If a place determines its pair, only repeated pairs are left out.** -/
theorem mem_distinct_iff {seen : List Span} {found : List (Tree × Tree)}
    (hinj : ∀ x ∈ found, ∀ y ∈ found, x.1.span = y.1.span → x = y) {x : Tree × Tree} :
    x ∈ distinct seen found ↔ x ∈ found ∧ x.1.span ∉ seen := by
  induction found generalizing seen with
  | nil => simp [distinct]
  | cons y found ih =>
    obtain ⟨node, mods⟩ := y
    obtain ⟨hy, hinj'⟩ := List.forall_mem_cons.1 hinj
    have ih : ∀ {seen}, x ∈ distinct seen found ↔ x ∈ found ∧ x.1.span ∉ seen :=
      ih fun x hx y hy => hinj' x hx y (List.mem_cons_of_mem _ hy)
    rw [distinct]
    split
    next hseen =>
      have hseen : node.span ∈ seen := by simpa using hseen
      rw [ih, List.mem_cons]
      refine ⟨fun h => ⟨.inr h.1, h.2⟩, ?_⟩
      rintro ⟨rfl | hx, hns⟩
      · exact absurd hseen hns
      · exact ⟨hx, hns⟩
    next hseen =>
      have hseen : node.span ∉ seen := by simpa using hseen
      rw [List.mem_cons, ih, List.mem_cons, List.mem_cons]
      constructor
      · rintro (rfl | ⟨hx, hns⟩)
        · exact ⟨.inl rfl, hseen⟩
        · exact ⟨.inr hx, fun h => hns (.inr h)⟩
      · rintro ⟨rfl | hx, hns⟩
        · exact .inl rfl
        · by_cases hspan : x.1.span = node.span
          · exact .inl (hy x (List.mem_cons_of_mem _ hx) hspan.symm).symm
          · exact .inr ⟨hx, fun h => h.elim hspan hns⟩

/-! ## Sound texts -/

section Sound

variable {text : String} {tree node mods : Tree}

/-- A node below the root of a sound text has a text of its own. -/
theorem exists_reads (h : IsParse text tree) {c n : Tree} (hc : c ∈ tree.children)
    (hn : n ∈ c.preorder) : ∃ s, Reads text n s := by
  obtain ⟨hlt, hstart, hstop⟩ := h.cuts hc hn
  exact Text.exists_slice? (Nat.le_of_lt hlt) hstart hstop

theorem reads_nodeText {n : Tree} (h : ∃ s, Reads text n s) {s : String} :
    nodeText text n = s ↔ Reads text n s := by
  obtain ⟨s', hs'⟩ := h
  unfold Reads at hs' ⊢
  rw [nodeText, hs']
  simp

theorem mem_children_of_child? {t c : Tree} {f : Field} (h : t.child? f = some c) :
    c ∈ t.children := List.mem_of_find?_eq_some h

theorem isA_iff_kind? {t : Tree} {k : Kind} : t.isA k = true ↔ t.kind? = some k := by
  unfold isA kind?
  cases t.label with
  | named l => simp
  | _ => simp

/-- **The name of an annotation is its last segment.** -/
theorem annotationName?_eq_some_iff {a : Tree} (hr : ∀ n ∈ a.preorder, ∃ s, Reads text n s)
    {s : String} : annotationName? text a = some s ↔ LastSegment text a s := by
  unfold annotationName? LastSegment
  rw [Option.bind_eq_bind, Option.bind_eq_some_iff]
  refine exists_congr fun name => and_congr_right fun hname => ?_
  have hmem := mem_children_of_child? hname
  simp only [isA_iff_kind?]
  split
  next hk =>
    have hreads := hr name (mem_preorder_of_child hmem (mem_preorder_self name))
    simp [hk, reads_nodeText hreads]
  next hk =>
    simp only [hk, Option.map_eq_some_iff, Option.some.injEq, reduceCtorEq, false_and, false_or,
      true_and]
    refine exists_congr fun last => and_congr_right fun hlast => ?_
    have hmem' := mem_preorder_of_child (mem_children_of_child? hlast) (mem_preorder_self last)
    exact reads_nodeText (hr last (mem_preorder_of_child hmem hmem'))
  next hi hs =>
    constructor
    · nofun
    · rintro (⟨hk, -⟩ | ⟨hk, -⟩)
      · exact absurd hk hi
      · exact absurd hk hs

/-- **The names of annotations are those that modifiers are annotated
with.** -/
theorem mem_annotationNames_iff (hr : ∀ n ∈ mods.preorder, ∃ s, Reads text n s) {s : String} :
    s ∈ annotationNames text mods ↔ Annotated text mods s := by
  unfold annotationNames Annotated namedChildren
  simp only [List.mem_filterMap, List.mem_filter, Bool.or_eq_true]
  refine exists_congr fun a => ?_
  constructor
  · rintro ⟨⟨⟨ha, -⟩, hkind⟩, hname⟩
    exact ⟨ha, hkind, (annotationName?_eq_some_iff fun n hn =>
      hr n (mem_preorder_of_child ha hn)).1 hname⟩
  · rintro ⟨ha, hkind, hname⟩
    refine ⟨⟨⟨ha, ?_⟩, hkind⟩, (annotationName?_eq_some_iff fun n hn =>
      hr n (mem_preorder_of_child ha hn)).2 hname⟩
    rcases hkind with h | h
    · rw [beq_iff_eq.1 h]
      rfl
    · rw [beq_iff_eq.1 h]
      rfl

/-- A declaration of a sound text stands below the root. -/
theorem IsMatch.exists_child (h : IsParse text tree) (hmatch : IsMatch tree node mods) :
    ∃ c ∈ tree.children, node ∈ c.preorder := by
  obtain ⟨hn, ⟨kind, hkind⟩, -⟩ := hmatch
  obtain ⟨k, hl, hk⟩ := hkind.isDeclaration
  refine h.exists_child hn ?_
  rw [hl]
  rintro ⟨⟩
  cases hk

/-- All nodes of a declaration of a sound text have texts. -/
theorem IsMatch.exists_reads (h : IsParse text tree) (hmatch : IsMatch tree node mods) :
    ∀ n ∈ node.preorder, ∃ s, Reads text n s := by
  obtain ⟨c, hc, hn⟩ := hmatch.exists_child h
  exact fun n hn' => Target.exists_reads h hc (mem_preorder_trans hn' hn)

theorem IsMatch.declares (h : IsParse text tree) (hmatch : IsMatch tree node mods) :
    Declares node.children := by
  obtain ⟨hn, ⟨kind, hkind⟩, -⟩ := hmatch
  obtain ⟨k, hl, hk⟩ := hkind.isDeclaration
  exact h.declares hn hl hk

theorem IsMatch.mem_annotationNames_iff (h : IsParse text tree)
    (hmatch : IsMatch tree node mods) {s : String} :
    s ∈ annotationNames text mods ↔ Annotated text mods s :=
  Target.mem_annotationNames_iff fun n hn =>
    hmatch.exists_reads h n (mem_preorder_of_child hmatch.2.2.1 hn)

theorem ofDeclaration?_eq {kind : TargetKind} (hk : IsOfKind node kind) (markers : Markers) :
    ofDeclaration? markers text node mods
      = if (annotationNames text mods).contains markers.mutate then
          some {
            kind := kind
            name := ((node.child? .name).map (nodeText text)).getD ""
            start := node.start
            stop := node.stop
            ordinal := 0
            marked := true
            deprecated := (annotationNames text mods).contains markers.deprecated
              && markers.deprecated != markers.mutate }
        else none := by
  unfold ofDeclaration?
  rw [isOfKind_iff.1 hk]
  rfl

/-- The declared name is the text of the node known as the name. -/
theorem IsMatch.exists_name (h : IsParse text tree) (hmatch : IsMatch tree node mods) :
    ∃ c, node.child? .name = some c
      ∧ Reads text c (((node.child? .name).map (nodeText text)).getD "") := by
  obtain ⟨d, hd, hf⟩ := (hmatch.declares h).name
  have hsome : (node.child? .name).isSome = true :=
    List.find?_isSome.2 ⟨d, hd, by simp [hf]⟩
  obtain ⟨c, hc⟩ := Option.isSome_iff_exists.1 hsome
  refine ⟨c, hc, ?_⟩
  have hmem := mem_preorder_of_child (mem_children_of_child? hc) (mem_preorder_self c)
  rw [hc]
  exact (reads_nodeText (hmatch.exists_reads h c hmem)).1 rfl

/-- **A declaration whose modifiers have the marker becomes a target that
describes it.** -/
theorem describes_of_ofDeclaration? (h : IsParse text tree) {markers : Markers}
    (hm : markers.mutate ≠ markers.deprecated) (hmatch : IsMatch tree node mods) {t : Target}
    (ht : ofDeclaration? markers text node mods = some t) : Describes markers text node t := by
  obtain ⟨kind, hkind⟩ := hmatch.2.1
  rw [ofDeclaration?_eq hkind] at ht
  split at ht
  next hmark =>
    cases ht
    rw [List.contains_iff_mem, hmatch.mem_annotationNames_iff h] at hmark
    refine ⟨hkind, hmatch.exists_name h, rfl, rfl, rfl, mods, hmatch.2.2.1, hmatch.2.2.2, hmark, ?_⟩
    rw [Bool.and_eq_true, List.contains_iff_mem, hmatch.mem_annotationNames_iff h, bne_iff_ne]
    exact and_iff_left hm.symm
  next => cases ht

/-- A target is what its declaration is, and begins and ends with it. -/
theorem place_of_ofDeclaration? {markers : Markers} {t : Target}
    (ht : ofDeclaration? markers text node mods = some t) :
    IsOfKind node t.kind ∧ t.start = node.start ∧ t.stop = node.stop := by
  obtain ⟨kind, hkind, -⟩ := Option.bind_eq_some_iff.1 ht
  rw [ofDeclaration?_eq (isOfKind_iff.2 hkind)] at ht
  split at ht
  next =>
    cases ht
    exact ⟨isOfKind_iff.2 hkind, rfl, rfl⟩
  next => cases ht

/-- **A declaration becomes a target exactly if its modifiers have the
marker.** -/
theorem isSome_ofDeclaration?_iff (h : IsParse text tree) {markers : Markers}
    (hmatch : IsMatch tree node mods) :
    (ofDeclaration? markers text node mods).isSome = true
      ↔ Annotated text mods markers.mutate := by
  obtain ⟨kind, hkind⟩ := hmatch.2.1
  rw [ofDeclaration?_eq hkind, ← hmatch.mem_annotationNames_iff h, ← List.contains_iff_mem]
  split
  next hmark => exact iff_of_true rfl hmark
  next hmark => exact iff_of_false nofun hmark

/-- A node of which there is a pair is a declaration. -/
theorem isMatch_of_mem_pairs {x : Tree × Tree} {n : Tree} (hn : n ∈ tree.preorder)
    (hx : x ∈ (match n.kind?.bind TargetKind.ofKind? with
      | some _ => (n.children.filter fun c : Tree => c.isA .modifiers).map fun mods => (n, mods)
      | none => [])) : x.1 = n ∧ IsMatch tree n x.2 := by
  split at hx
  next kind hk =>
    obtain ⟨m, hm, rfl⟩ := List.mem_map.1 hx
    obtain ⟨hm, hmods⟩ := List.mem_filter.1 hm
    exact ⟨rfl, hn, ⟨kind, isOfKind_iff.2 hk⟩, hm, hmods⟩
  next => cases hx

/-- **The declarations of a sound text stand in document order.** -/
theorem pairwise_declarations (h : IsParse text tree) :
    (declarations tree).Pairwise fun x y => Tree.Precedes x.1 y.1 := by
  have hnodes := pairwise_flatMap_preorder h.laid.ordered h.laid.nested
    fun c hc => (h.laid.nested c hc).pairwise_preorder
  unfold declarations
  rw [List.pairwise_flatMap]
  constructor
  · -- a declaration has one list of modifiers at most
    intro n hn
    split
    next kind hk =>
      obtain ⟨k, hl, hdecl⟩ := (isOfKind_iff.2 hk).isDeclaration
      have hone := (h.declares hn hl hdecl).modifiers
      rw [List.pairwise_map]
      refine List.pairwise_iff_getElem.2 fun i j hi hj hij => ?_
      omega
    next => exact .nil
  · rw [preorder_eq]
    refine .cons ?_ ?_
    · intro n _ x hx
      obtain ⟨-, hmatch⟩ := isMatch_of_mem_pairs (mem_preorder_self tree) hx
      obtain ⟨k, hl, hdecl⟩ := hmatch.2.1.choose_spec.isDeclaration
      rw [h.label] at hl
      cases hl
      cases hdecl
    · refine hnodes.imp_of_mem fun {a b} ha hb hab x hx y hy => ?_
      have hmem : ∀ {n}, n ∈ tree.children.flatMap preorder → n ∈ tree.preorder := fun hn => by
        obtain ⟨c, hc, hn⟩ := List.mem_flatMap.1 hn
        exact mem_preorder_of_child hc hn
      obtain ⟨rfl, hmatch⟩ := isMatch_of_mem_pairs (hmem ha) hx
      obtain ⟨rfl, -⟩ := isMatch_of_mem_pairs (hmem hb) hy
      exact hab (hmatch.declares h).two

theorem nodup_declarations (h : IsParse text tree) :
    ((declarations tree).map (·.1.span)).Nodup := by
  rw [List.nodup_iff_pairwise_ne, List.pairwise_map]
  refine (pairwise_declarations h).imp fun {x y} hxy hspan => ?_
  unfold Tree.Precedes Tree.start Tree.stop at hxy
  rw [hspan] at hxy
  omega

/-- **The place of a declaration determines it and its modifiers.** -/
theorem IsMatch.eq_of_span (h : IsParse text tree) {node' mods' : Tree}
    (hmatch : IsMatch tree node mods) (hmatch' : IsMatch tree node' mods')
    (hspan : node.span = node'.span) : (node, mods) = (node', mods') :=
  List.inj_on_of_nodup_map (nodup_declarations h) (mem_declarations_iff.2 hmatch)
    (mem_declarations_iff.2 hmatch') hspan

end Sound

/-! ## Sorting -/

theorem before_trans (a b c : Target) (hab : before a b = true) (hbc : before b c = true) :
    before a c = true := by
  simp only [before, Bool.or_eq_true, Bool.and_eq_true, decide_eq_true_eq, beq_iff_eq] at *
  omega

theorem before_total (a b : Target) : (before a b || before b a) = true := by
  simp only [before, Bool.or_eq_true, Bool.and_eq_true, decide_eq_true_eq, beq_iff_eq]
  omega

theorem before_of_precedes {a b : Target} (h : Precedes a b) : before a b = true := by
  simp only [before, Bool.or_eq_true, Bool.and_eq_true, decide_eq_true_eq, beq_iff_eq]
  unfold Precedes at h
  omega

/-- No two targets that are in their order have the same range. -/
theorem nodup_ranges {ts : List Target} (h : ts.Pairwise Precedes) :
    (ts.map fun t => (t.start, t.stop)).Nodup := by
  rw [List.nodup_iff_pairwise_ne, List.pairwise_map]
  refine h.imp fun {a b} hab heq => ?_
  obtain ⟨h₁, h₂⟩ := Prod.mk.inj heq
  unfold Precedes at hab
  omega

/-- **Sorting brings targets into the one order they have.** -/
theorem mergeSort_eq_of_perm {ts us : List Target} (hperm : ts.Perm us)
    (hus : us.Pairwise Precedes) : ts.mergeSort before = us := by
  have hp : (ts.mergeSort before).Perm us := (List.mergeSort_perm ts before).trans hperm
  refine List.Perm.eq_of_pairwise ?_ (List.pairwise_mergeSort before_trans before_total ts)
    (hus.imp before_of_precedes) hp
  intro a b ha hb hab hba
  refine List.inj_on_of_nodup_map (nodup_ranges hus) (hp.mem_iff.1 ha) hb ?_
  simp only [before, Bool.or_eq_true, Bool.and_eq_true, decide_eq_true_eq, beq_iff_eq] at hab hba
  exact Prod.ext (by show a.start = b.start; omega) (by show a.stop = b.stop; omega)

/-! ## The search -/

/-- A source file has the tree of its text. -/
theorem parseSound_of_parse {path : Path} {text : String} {file : SourceFile}
    (h : SourceFile.parse path text = .ok file) : parseSound file.text = .ok file.tree := by
  unfold SourceFile.parse at h
  split at h
  next tree htree =>
    cases h
    exact htree
  next => cases h

theorem isParse_of_parse {path : Path} {text : String} {file : SourceFile}
    (h : SourceFile.parse path text = .ok file) : IsParse file.text file.tree :=
  isParse_of_parseSound (parseSound_of_parse h)

/-- A text free of faults is a source file. -/
theorem parse_eq_ok (path : Path) {text : String}
    (h : (Syntax.parse text).firstFault.isNone = true) :
    SourceFile.parse path text = .ok ⟨path, text, Syntax.parse text⟩ := by
  have hfault := Option.isNone_iff_eq_none.1 h
  simp only [SourceFile.parse, parseSound, hfault]

section Search

variable {text : String} {tree : Tree} {markers : Markers}

/-- The targets in document order, before they are numbered. -/
def unnumbered (markers : Markers) (text : String) (tree : Tree) : List Target :=
  (declarations tree).filterMap fun x => ofDeclaration? markers text x.1 x.2

theorem pairwise_unnumbered (h : IsParse text tree) :
    (unnumbered markers text tree).Pairwise Precedes := by
  unfold unnumbered
  rw [List.pairwise_filterMap]
  refine (pairwise_declarations h).imp_of_mem fun {x y} hx hy hxy t ht u hu => ?_
  obtain ⟨-, hts, hte⟩ := place_of_ofDeclaration? ht
  obtain ⟨-, hus, hue⟩ := place_of_ofDeclaration? hu
  unfold Precedes
  rw [hts, hte, hus, hue]
  exact hxy

/-- **In whatever order the declarations come up, and however often, the
targets are the same.** -/
theorem ofDeclarations_eq (h : IsParse text tree) {found : List (Tree × Tree)}
    (hfound : ∀ node mods, (node, mods) ∈ found ↔ IsMatch tree node mods) :
    ofDeclarations markers text found = number [] (unnumbered markers text tree) := by
  have hinj : ∀ x ∈ found, ∀ y ∈ found, x.1.span = y.1.span → x = y := fun x hx y hy =>
    ((hfound x.1 x.2).1 hx).eq_of_span h ((hfound y.1 y.2).1 hy)
  have hperm : (distinct [] found).Perm (declarations tree) := by
    refine (List.perm_ext_iff_of_nodup (.of_map _ (nodup_distinct [] found).1)
      (.of_map _ (nodup_declarations h))).2 fun x => ?_
    rw [mem_distinct_iff hinj, and_iff_left List.not_mem_nil, hfound, mem_declarations_iff]
  unfold ofDeclarations
  exact congrArg (number []) (mergeSort_eq_of_perm (hperm.filterMap _) (pairwise_unnumbered h))

theorem locate_eq {path : Path} {file : SourceFile}
    (h : SourceFile.parse path text = .ok file) :
    locate markers file = number [] (unnumbered markers file.text file.tree) :=
  ofDeclarations_eq (isParse_of_parse h) fun _ _ => mem_declarations_iff

/-- What file a text is and what its targets are, both told by its tree. -/
theorem parse_and_locate_eq (path : Path) {ts : List Target}
    (h : (Syntax.parse text).firstFault.isNone = true
      ∧ number [] (unnumbered markers text (Syntax.parse text)) = ts) :
    SourceFile.parse path text = .ok ⟨path, text, Syntax.parse text⟩
      ∧ locate markers ⟨path, text, Syntax.parse text⟩ = ts := by
  have hfile := parse_eq_ok path h.1
  exact ⟨hfile, (locate_eq hfile).trans h.2⟩

/-- **Every target is a declaration** of its kind with modifiers, and lies where
that does. -/
theorem exists_isMatch_of_mem_locate {path : Path} {file : SourceFile}
    (h : SourceFile.parse path text = .ok file) {t : Target} (ht : t ∈ locate markers file) :
    ∃ node mods, IsMatch file.tree node mods
      ∧ IsOfKind node t.kind ∧ t.start = node.start ∧ t.stop = node.stop := by
  rw [locate_eq h] at ht
  obtain ⟨u, hu, hut⟩ := exists_mem_left (forall₂_number [] _) ht
  obtain ⟨⟨node, mods⟩, hx, hdecl⟩ := List.mem_filterMap.1 hu
  refine ⟨node, mods, mem_declarations_iff.1 hx, ?_⟩
  obtain ⟨hkind, hstart, hstop⟩ := place_of_ofDeclaration? hdecl
  rw [← hut]
  exact ⟨hkind, hstart, hstop⟩

/-- **Every target cuts its file**: it begins and ends between two of its
characters. -/
theorem exists_slice?_of_mem_locate {path : Path} {file : SourceFile}
    (h : SourceFile.parse path text = .ok file) {t : Target} (ht : t ∈ locate markers file) :
    ∃ span, file.slice? t.start t.stop = some span := by
  obtain ⟨node, mods, hmatch, -, hstart, hstop⟩ := exists_isMatch_of_mem_locate h ht
  show ∃ span, Text.slice? file.text t.start t.stop = some span
  rw [hstart, hstop]
  exact hmatch.exists_reads (isParse_of_parse h) node (mem_preorder_self node)

theorem nodup_places_locate {path : Path} {file : SourceFile}
    (h : SourceFile.parse path text = .ok file) : ((locate markers file).map place).Nodup := by
  rw [locate_eq h]
  exact nodup_places_number [] _

/-- The declarations that become targets. -/
def markedNodes (markers : Markers) (text : String) (tree : Tree) : List Tree :=
  ((declarations tree).filter fun x => (ofDeclaration? markers text x.1 x.2).isSome).map (·.1)

theorem nodup_markedNodes (h : IsParse text tree) : (markedNodes markers text tree).Nodup := by
  have hsub : ((declarations tree).filter fun x =>
      (ofDeclaration? markers text x.1 x.2).isSome).Sublist (declarations tree) :=
    List.filter_sublist
  have hnodup := (nodup_declarations h).sublist (hsub.map fun x => x.1.span)
  refine .of_map Tree.span ?_
  unfold markedNodes
  rw [List.map_map]
  exact hnodup

theorem mem_markedNodes_iff (h : IsParse text tree) {n : Tree} :
    n ∈ markedNodes markers text tree ↔ n ∈ tree.preorder ∧ Marked markers text n := by
  unfold markedNodes Marked
  rw [List.mem_map]
  constructor
  · rintro ⟨⟨n, mods⟩, hx, rfl⟩
    obtain ⟨hx, hsome⟩ := List.mem_filter.1 hx
    have hmatch := mem_declarations_iff.1 hx
    exact ⟨hmatch.1, hmatch.2.1, mods, hmatch.2.2.1, hmatch.2.2.2,
      (isSome_ofDeclaration?_iff h hmatch).1 hsome⟩
  · rintro ⟨hn, hkind, mods, hmods, hisA, hmark⟩
    have hmatch : IsMatch tree n mods := ⟨hn, hkind, hmods, hisA⟩
    exact ⟨(n, mods), List.mem_filter.2 ⟨mem_declarations_iff.2 hmatch,
      (isSome_ofDeclaration?_iff h hmatch).2 hmark⟩, rfl⟩

/-- **Targets go with the declarations they describe, one by one.** -/
theorem describes_markedNodes (h : IsParse text tree)
    (hm : markers.mutate ≠ markers.deprecated) :
    List.Forall₂ (Describes markers text) (markedNodes markers text tree)
      (number [] (unnumbered markers text tree)) := by
  have hpairs := forall₂_filterMap (fun x : Tree × Tree => ofDeclaration? markers text x.1 x.2)
    (declarations tree)
  have hnumbered := forall₂_comp hpairs (forall₂_number [] (unnumbered markers text tree))
  unfold markedNodes
  rw [List.forall₂_map_left_iff]
  have hmem := (List.forall₂_and_left _ _).2 ⟨fun x hx => (List.mem_filter.1 hx).1, hnumbered⟩
  refine hmem.imp ?_
  rintro x t' ⟨hx, t, ht, hnumber⟩
  have hd := describes_of_ofDeclaration? h hm (mem_declarations_iff.1 hx) ht
  rw [← hnumber]
  exact { hd with }

end Search

/-- Numbers keep the order. -/
theorem pairwise_number {ts : List Target} (h : ts.Pairwise Precedes) :
    (number [] ts).Pairwise Precedes := by
  have hspans : ts.map (fun t => (t.start, t.stop))
      = (number [] ts).map fun t => (t.start, t.stop) :=
    map_eq_map_of_forall₂ ((forall₂_number [] ts).imp fun t t' ht => by rw [← ht])
  let R : Nat × Nat → Nat × Nat → Prop := fun a b => a.1 < b.1 ∨ a.1 = b.1 ∧ b.2 < a.2
  have hpair : (ts.map fun t => (t.start, t.stop)).Pairwise R := List.pairwise_map.2 h
  rw [hspans] at hpair
  exact (List.pairwise_map (f := fun t : Target => (t.start, t.stop))).1 hpair

/-- **Targets are found exactly.** In whatever order the declarations with
modifiers of a source file come up, and however often each does, the
targets are the same: one for each declaration that has the marker and
no others, in document order with the outer before the inner, each with
the kind, the name and the place of its declaration, with the other
marker noted where the same modifiers have it, and numbered by how many of
its kind come before. -/
theorem locate_exact {path : Path} {text : String} {file : SourceFile}
    (hfile : SourceFile.parse path text = .ok file) {markers : Markers}
    (hm : markers.mutate ≠ markers.deprecated) {found : List (Tree × Tree)}
    (hfound : ∀ node mods, (node, mods) ∈ found ↔ IsMatch file.tree node mods) :
    ofDeclarations markers file.text found = locate markers file
      ∧ (∃ nodes : List Tree, nodes.Nodup
        ∧ (∀ n, n ∈ nodes ↔ n ∈ file.tree.preorder ∧ Marked markers file.text n)
        ∧ List.Forall₂ (Describes markers file.text) nodes (locate markers file))
      ∧ (locate markers file).Pairwise Precedes
      ∧ ∀ before t after, locate markers file = before ++ t :: after →
        t.ordinal = before.countP fun u => u.kind == t.kind := by
  have h := isParse_of_parse hfile
  rw [locate_eq hfile]
  refine ⟨ofDeclarations_eq h hfound, ⟨_, nodup_markedNodes h, fun n => mem_markedNodes_iff h,
    describes_markedNodes h hm⟩, pairwise_number (pairwise_unnumbered h), ?_⟩
  intro before t after hsplit
  rw [ordinal_of_number hsplit, List.countP_nil, Nat.zero_add]

/-- Declarations in declarations. -/
def nestedText : String :=
  "@Mutate class A \x7b @Mutate A() \x7b \x7d @x.Mutate(1) @Deprecated void m() \x7b \x7d \x7d"

/-- Found from the last to the first and then once more from the first to
the last. -/
theorem locate_exact_nested :
    ∃ file, SourceFile.parse ⟨"A.java"⟩ nestedText = .ok file
      ∧ (locate {} file).map (fun t => (t.describe, t.deprecated))
        = [("type declaration 'A' #0", false), ("constructor 'A' #0", false),
          ("method 'm' #0", true)]
      ∧ ofDeclarations {} file.text
          ((declarations file.tree).reverse ++ declarations file.tree) = locate {} file := by
  let file : SourceFile := ⟨⟨"A.java"⟩, nestedText, Syntax.parse nestedText⟩
  obtain ⟨hfile, hlocate⟩ : SourceFile.parse ⟨"A.java"⟩ nestedText = .ok file
      ∧ locate {} file = [⟨.typeDeclaration, "A", 0, 73, 0, true, false⟩,
        ⟨.constructor, "A", 18, 33, 0, true, false⟩, ⟨.method, "m", 34, 71, 0, true, true⟩] :=
    parse_and_locate_eq _ (by decide +kernel)
  refine ⟨file, hfile, ?_, (locate_exact hfile (by decide) fun node mods => ?_).1⟩
  · rw [hlocate]
    decide +kernel
  · rw [List.mem_append, List.mem_reverse, or_self, mem_declarations_iff]

end JavaMutants.Target
