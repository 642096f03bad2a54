import JavaMutants.Proofs.Syntax.Parse
import JavaMutants.Target

/-!
# Declarations

What the grammar makes of the declarations that can be targets. Each has
its modifiers first and nowhere else, so there is at most one list of
them; each has a name; and none has fewer than two children, so a
declaration never takes the same place as one inside it. All of this is
read off the rules (`declares_of_derives`) and then holds of every
declaration of a sound text (`IsParse.declares`).
-/

namespace JavaMutants

open Syntax Tree Grammar Rule

/-- The kinds of nodes that can be targets. -/
def isDeclaration (k : Kind) : Bool := (TargetKind.ofKind? k).isSome

/-- **What a declaration has below it.** -/
structure Declares (cs : List Tree) : Prop where
  /-- There are two nodes or more. -/
  two : 2 ≤ cs.length
  /-- One of them is the name. -/
  name : ∃ c ∈ cs, c.field = some .name
  /-- No more than one of them is a list of modifiers. -/
  modifiers : (cs.filter (·.isA .modifiers)).length ≤ 1

/-! ## The rules -/

/-- The parts that are modifiers. -/
def showsModifiers : Part → Bool
  | .modifiers => true
  | .node .modifiers => true
  | _ => false

theorem showsModifiers_of_shows (p : Part)
    (h : (rules p).shows (.named .modifiers) showsModifiers = true) :
    showsModifiers p = true := by
  have h' := forall_part_of_all
    (fun p => !(rules p).shows (.named .modifiers) showsModifiers || showsModifiers p)
    (by decide) (fun l n => by rw [rules_binary_high]; rfl) p
  simpa [h] using h'

/-- Modifiers are one node at most. -/
theorem length_le_one_of_mods {ts rest : List Token} {nodes : List Tree}
    (h : Derives rules mods none ts nodes rest) : nodes.length ≤ 1 := by
  rcases h.of_either with h | h
  · obtain ⟨cs, rfl, -⟩ := h.of_part.of_tree
    exact Nat.le_refl 1
  · obtain ⟨rfl, -⟩ := h.of_nothing
    exact Nat.zero_le 1

/-- **What begins with modifiers and has a name and no other modifiers is
a declaration.** -/
theorem declares_of_derives {tail : Rules} (htwo : 2 ≤ (both mods tail).least count)
    (hname : tail.gives .name = true)
    (hmods : tail.shows (.named .modifiers) showsModifiers = false) {ts rest : List Token}
    {nodes : List Tree} (h : Derives rules (both mods tail) none ts nodes rest) :
    Declares nodes := by
  have htwo' := Nat.le_trans htwo (h.least_le count_le nofun)
  obtain ⟨first, mid, others, rfl, hfirst, hothers⟩ := h.of_both
  refine ⟨htwo', ?_, ?_⟩
  · obtain ⟨n, hn, hf⟩ := hothers.gives hname
    exact ⟨n, List.mem_append_right _ hn, hf⟩
  · have hnone : others.filter (·.isA .modifiers) = [] := by
      refine List.filter_eq_nil_iff.2 fun n hn hm => ?_
      rcases hothers.shows rfl showsModifiers_of_shows hn (beq_iff_eq.1 hm) with ⟨m, hm, -⟩ | h
      · exact absurd hm List.not_mem_nil
      · rw [hmods] at h
        cases h
    rw [List.filter_append, hnone, List.append_nil]
    exact Nat.le_trans (List.length_filter_le _ _) (length_le_one_of_mods hfirst)

/-- What comes after the modifiers of a declaration. -/
def afterModifiers (k : Kind) : Rules :=
  match body k with
  | .both _ tail => tail
  | _ => nothing

theorem body_eq_both {k : Kind} (hk : isDeclaration k = true) :
    body k = both mods (afterModifiers k) := by
  cases k <;> first | rfl | cases hk

/-- **The rule of every kind of declaration makes a declaration.** -/
theorem declares_of_body {k : Kind} (hk : isDeclaration k = true) {ts rest : List Token}
    {nodes : List Tree} (h : Derives rules (body k) none ts nodes rest) : Declares nodes := by
  cases k with
  | classDeclaration | interfaceDeclaration | enumDeclaration | recordDeclaration
  | annotationTypeDeclaration | constructorDeclaration | compactConstructorDeclaration
  | methodDeclaration =>
    exact declares_of_derives (by decide) (by decide) (by decide) h
  | _ => cases hk

/-- A rule that makes no declarations respects what is said of them. -/
theorem respects_of_avoids_declarations {rule : Rules}
    (h : rule.avoids isDeclaration isInner = true) :
    rule.Respects rules isInner fun k cs => isDeclaration k = true → Declares cs := by
  refine respects_of_avoids (fun k cs hk hk' => ?_) h
  rw [hk] at hk'
  cases hk'

/-- Whether a part is that of one kind of nodes. -/
def isNodePart : Part → Bool
  | .node _ => true
  | _ => false

/-- **Every rule makes declarations as the rule of their kind does.** -/
theorem respects_declares (p : Part) :
    (rules p).Respects rules isInner fun k cs => isDeclaration k = true → Declares cs := by
  have hother := forall_part (fun p => isNodePart p || (rules p).avoids isDeclaration isInner)
    (fun _ => rfl) (by decide) (fun l n => by rw [rules_binary_high]; rfl) p
  cases p with
  | node k =>
    have hbody : (body k).avoids isDeclaration isInner = true := by cases k <;> rfl
    exact ⟨fun _ _ _ hd hk => declares_of_body hk hd, respects_of_avoids_declarations hbody⟩
  | _ => exact respects_of_avoids_declarations hother

/-! ## Sound texts -/

/-- What is known of the children without comments is known of the
children. -/
theorem Declares.of_bareAll {cs : List Tree} (h : Declares (bareAll cs)) : Declares cs := by
  constructor
  · refine Nat.le_trans h.two ?_
    rw [bareAll_eq_map, List.length_map]
    exact List.length_filter_le _ _
  · obtain ⟨c, hc, hf⟩ := h.name
    obtain ⟨d, hd, -, rfl⟩ := mem_bareAll_iff.1 hc
    exact ⟨d, hd, by rwa [field_bare] at hf⟩
  · -- modifiers are no comments, so none of them is left out
    have hfilter : (bareAll cs).filter (·.isA .modifiers)
        = (cs.filter (·.isA .modifiers)).map bare := by
      rw [bareAll_eq_map, List.filter_map, List.filter_filter]
      refine congrArg _ (List.filter_congr fun c _ => ?_)
      cases hm : c.isA .modifiers with
      | false =>
        have hne : c.label ≠ .named .modifiers := by simpa [isA] using hm
        simp [isA, label_bare, hne]
      | true => simp [isA, label_bare, isComment, beq_iff_eq.1 hm]
    have hm := h.modifiers
    rwa [hfilter, List.length_map] at hm

/-- **The declarations of a sound text are such as the rules make them.** -/
theorem Syntax.IsParse.declares {text : String} {tree n : Tree} (h : IsParse text tree)
    (hn : n ∈ tree.preorder) {k : Kind} (hl : n.label = .named k)
    (hk : isDeclaration k = true) : Declares n.children := by
  obtain ⟨c, hc, hnc⟩ := h.exists_child hn (by
    rw [hl]
    rintro ⟨⟩
    cases hk)
  have hcomment : n.isComment = false := by
    unfold isComment isA
    rw [hl]
    cases k <;> first | rfl | cases hk
  have hdecl := h.respects (fun p _ => respects_declares p)
    (respects_of_avoids_declarations rfl) hc hnc hcomment hl hk
  exact hdecl.of_bareAll

end JavaMutants
