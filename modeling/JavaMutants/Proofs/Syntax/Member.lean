import JavaMutants.Proofs.Syntax.Parse

/-!
# Where members stand

Methods and constructors are members: they stand right below the bodies of
types, or below the root, and nowhere else (`IsParse.isHouse_of_member`). It is
read off the rules which nodes a node with a label can stand right below
(`Rule.confines`), and `Derives.confined` says that it is so in every tree.
-/

namespace JavaMutants.Syntax

open Syntax.Tree

section Confined

variable {Part : Type} {grammar : Part → Rule Part}

/-- **Whether a rule puts nodes with a label below nodes of some kinds only**, given
which parts show such nodes. No step goes on from one. -/
def Rule.confines (l : Label) (kinds : Kind → Bool) (shown named : Part → Bool) :
    Rule Part → Bool
  | .both a b | .either a b =>
    a.confines l kinds shown named && b.confines l kinds shown named
  | .many a | .field _ a | .steps a => a.confines l kinds shown named
  | .tree kind a | .wrap _ kind _ a =>
    a.confines l kinds shown named && (kinds kind || !a.shows l shown)
  | .onto a b => a.confines l kinds shown named && b.confines l kinds shown named
      && !(Rule.onto a b).shows l shown
  | .part p => named p
  | _ => true

/-- Nodes with a label stand below nodes of some kinds only. -/
def Tree.Confined (l : Label) (kinds : Kind → Bool) (t : Tree) : Prop :=
  t.Respects fun k cs => (∃ c ∈ cs, c.label = l) → kinds k = true

/-- **In every tree that is derived nodes with a label stand below nodes of some kinds
only**, if all rules say so. -/
theorem Derives.confined {l : Label} (hl : l.isFault = false) {kinds : Kind → Bool}
    {shown named : Part → Bool}
    (hshown : ∀ p, (grammar p).shows l shown = true → shown p = true)
    (hg : ∀ p, named p = true → (grammar p).confines l kinds shown named = true)
    {rule : Rule Part} {left : Option (List Tree)} {ts rest : List Token} {nodes : List Tree}
    (h : Derives grammar rule left ts nodes rest)
    (hr : rule.confines l kinds shown named = true)
    (hstep : left.isSome → rule.shows l shown = false)
    (hleft : ∀ n ∈ left.getD [], n.label ≠ l ∧ n.Confined l kinds) :
    ∀ n ∈ nodes, n.Confined l kinds := by
  -- what a rule gives that shows no such node
  have hnone : ∀ {rule : Rule Part} {left : Option (List Tree)} {ts rest : List Token}
      {nodes : List Tree}, Derives grammar rule left ts nodes rest → rule.shows l shown = false →
      (∀ n ∈ left.getD [], n.label ≠ l) → ∀ n ∈ nodes, n.label ≠ l := by
    intro rule left ts rest nodes h hr hleft n hn hnl
    rcases h.shows hl hshown hn hnl with ⟨m, hm, hml⟩ | hs
    · exact hleft m hm hml
    · rw [hr] at hs
      cases hs
  have hover : ∀ before {kind : Kind} {a : Rule Part} {ts rest : List Token} {nodes : List Tree},
      Derives grammar a none ts nodes rest → (kinds kind || !a.shows l shown) = true →
      (∀ n ∈ before, n.label ≠ l) → (∃ c ∈ before ++ nodes, c.label = l) →
      kinds kind = true := by
    rintro before kind a ts rest nodes h hk hbefore ⟨c, hc, hcl⟩
    refine (Bool.or_eq_true_iff.1 hk).resolve_right fun hs => ?_
    rcases List.mem_append.1 hc with hc | hc
    · exact hbefore c hc hcl
    · exact hnone h (by simpa using hs) (fun _ h => absurd h List.not_mem_nil) c hc hcl
  have hnil : ∀ k : Kind, (∃ c ∈ ([] : List Tree), c.label = l) → kinds k = true :=
    fun _ ⟨_, hc, _⟩ => absurd hc List.not_mem_nil
  induction h with
  | nothing | finish | manyNil | barring => exact fun _ hn => absurd hn List.not_mem_nil
  | token => exact fun _ hn => List.mem_singleton.1 hn ▸ respects_tokenLeaf fun k _ => hnil k
  | angle => exact fun _ hn => List.mem_singleton.1 hn ▸ respects_tokenLeaf nofun
  | part _ ih => exact ih (hg _ hr) nofun hleft
  | both _ _ iha ihb =>
    obtain ⟨hra, hrb⟩ := Bool.and_eq_true_iff.1 hr
    exact fun n hn => (List.mem_append.1 hn).elim (iha hra nofun hleft n) (ihb hrb nofun hleft n)
  | first _ ih =>
    exact ih (Bool.and_eq_true_iff.1 hr).1 (fun h => (Bool.or_eq_false_iff.1 (hstep h)).1) hleft
  | second _ ih =>
    exact ih (Bool.and_eq_true_iff.1 hr).2 (fun h => (Bool.or_eq_false_iff.1 (hstep h)).2) hleft
  | manyCons _ _ iha ihs =>
    exact fun n hn => (List.mem_append.1 hn).elim (iha hr nofun hleft n) (ihs hr nofun hleft n)
  | field _ ih =>
    intro n hn
    obtain ⟨m, hm, rfl⟩ := List.mem_map.1 hn
    exact (ih hr nofun hleft m hm).withField _
  | tree h ih =>
    obtain ⟨hra, hk⟩ := Bool.and_eq_true_iff.1 hr
    intro n hn
    obtain rfl := List.mem_singleton.1 hn
    exact respects_above (hover [] h hk fun _ h => absurd h List.not_mem_nil)
      (ih hra nofun hleft)
  | onto ha _ iha ihb =>
    obtain ⟨hr, hs⟩ := Bool.and_eq_true_iff.1 hr
    obtain ⟨hra, hrb⟩ := Bool.and_eq_true_iff.1 hr
    obtain ⟨hsa, hsb⟩ := Bool.or_eq_false_iff.1 (Bool.not_inj hs)
    exact ihb hrb (fun _ => hsb) fun n hn =>
      ⟨hnone ha hsa (fun _ h => absurd h List.not_mem_nil) n hn, iha hra nofun hleft n hn⟩
  | stepsNil | keep => exact fun n hn => (hleft n hn).2
  | stepsCons ha _ iha ihs =>
    exact ihs hr hstep fun n hn =>
      ⟨hnone ha (hstep rfl) (fun n hn => (hleft n hn).1) n hn, iha hr hstep hleft n hn⟩
  | @wrap _ _ g _ _ _ _ _ _ h ih =>
    obtain ⟨hra, hk⟩ := Bool.and_eq_true_iff.1 hr
    intro n hn
    obtain rfl := List.mem_singleton.1 hn
    refine respects_above (hover _ h hk fun n hn => ?_) fun c hc => ?_
    · obtain ⟨m, hm, rfl⟩ := List.mem_map.1 hn
      rw [label_withField]
      exact (hleft m hm).1
    · rcases List.mem_append.1 hc with hc | hc
      · obtain ⟨m, hm, rfl⟩ := List.mem_map.1 hc
        exact (hleft m hm).2.withField _
      · exact ih hra nofun (fun _ h => absurd h List.not_mem_nil) c hc

end Confined

/-! ## Methods and constructors -/

namespace Grammar

/-- The kinds of members that have statements of their own. -/
def memberKinds : List Kind :=
  [.methodDeclaration, .constructorDeclaration, .compactConstructorDeclaration]

/-- The kinds of what has members right below it. -/
def isHouse (k : Kind) : Bool := [.classBody, .interfaceBody, .enumBodyDeclarations].contains k

/-- The parts that such a member can be the whole of. -/
def showsMember (p : Part) : Bool :=
  p == .member || p == .topLevel || memberKinds.any fun k => p == .node k

theorem showsMember_of_shows : ∀ k ∈ memberKinds, ∀ p,
    (rules p).shows (.named k) showsMember = true → showsMember p = true := by
  intro k hk p h
  simp only [memberKinds, List.mem_cons, List.not_mem_nil, or_false] at hk
  have h' : (!(rules p).shows (.named k) showsMember || showsMember p) = true := by
    rcases hk with rfl | rfl | rfl <;>
      exact forall_part_of_all (fun p => !(rules p).shows (.named _) showsMember || showsMember p)
        (by decide)
        (fun l n => by rw [rules_binary_high]; rfl) p
  simpa [h] using h'

/-- **In every rule members stand in the bodies of types.** -/
theorem confines_rules : ∀ k ∈ memberKinds, ∀ p, isInner p = true →
    (rules p).confines (.named k) isHouse showsMember isInner = true := by
  intro k hk p hp
  simp only [memberKinds, List.mem_cons, List.not_mem_nil, or_false] at hk
  have h' : (!isInner p || (rules p).confines (.named k) isHouse showsMember isInner) = true := by
    rcases hk with rfl | rfl | rfl <;>
      exact forall_part_of_all
        (fun p => !isInner p || (rules p).confines (.named _) isHouse showsMember isInner)
        (by decide)
        (fun l n => by rw [rules_binary_high]; rfl) p
  simpa [hp] using h'

end Grammar

open Grammar

/-- **Below the root, methods and constructors stand right below the bodies of
types.** -/
theorem IsParse.isHouse_of_member {text : String} {tree c parent m : Tree}
    (h : IsParse text tree) (hc : c ∈ tree.children) (hparent : parent ∈ c.preorder)
    (hm : m ∈ parent.children) {k : Kind} (hk : k ∈ memberKinds) (hl : m.label = .named k) :
    ∃ house, parent.label = .named house ∧ isHouse house = true := by
  have hcomment : parent.isComment = false := by
    by_contra hcomment
    rw [(h.laid.tidy c hc parent hparent (by simpa using hcomment)).2] at hm
    exact absurd hm List.not_mem_nil
  have hmcomment : m.isComment = false := by
    simp only [memberKinds, List.mem_cons, List.not_mem_nil, or_false] at hk
    rcases hk with rfl | rfl | rfl <;> simp [isComment, isA, hl]
  obtain ⟨d, hd, hbare⟩ := h.bare_mem hc hparent hcomment
  have hmem : m.bare ∈ parent.bare.children := by
    rw [children_bare]
    exact mem_bareAll_iff.2 ⟨m, hm, hmcomment, rfl⟩
  cases hpl : parent.label with
  | named house =>
    have hconfined := h.derives.confined (l := .named k) rfl (showsMember_of_shows k hk)
      (confines_rules k hk) (by
        simp only [memberKinds, List.mem_cons, List.not_mem_nil, or_false] at hk
        rcases hk with rfl | rfl | rfl <;> rfl) (by simp) (fun _ hn => absurd hn List.not_mem_nil)
    refine ⟨house, rfl, hconfined d hd parent.bare hbare house (by rw [label_bare, hpl]) ?_⟩
    exact ⟨m.bare, hmem, by rw [label_bare, hl]⟩
  | _ =>
    -- what has no kind has nothing below it
    have hnil := h.derives.children_eq_nil hd hbare (by simp [label_bare, hpl])
    rw [hnil] at hmem
    exact absurd hmem List.not_mem_nil

end JavaMutants.Syntax
