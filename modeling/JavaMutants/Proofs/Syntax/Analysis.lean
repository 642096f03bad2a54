import JavaMutants.Proofs.Syntax.Derivation
import JavaMutants.Proofs.Syntax.Tree

/-!
# What a rule can give

Bounds on the nodes of a rule that can be read off the rule itself. Each
is a function by recursion on rules, given what it says of the named
parts, and each comes with a statement that the nodes of every derivation
keep to it, provided that what is said of a part is borne out by the
rule of that part. The recursion of the grammar is never unrolled: it is
the induction over derivations that closes it.

* `Rule.least`: how many nodes there are at least;
* `Rule.shows`: whether one of the nodes can have a label;
* `Rule.gives`: whether one of the nodes certainly has a field.

Two more statements are about all nodes of the trees that are derived:
they are formed and have true flags (`Derives.formed`,
`Derives.flagged`), and the children of a node are such as the rule for
its kind makes them (`Derives.respects`).
-/

namespace JavaMutants.Syntax

variable {Part : Type} {grammar : Part → Rule Part}

open Syntax.Tree

/-! ## Steps -/

/-- A step makes something of something. -/
theorem Derives.ne_nil_of_step {rule : Rule Part} {left : Option (List Tree)}
    {ts rest : List Token} {nodes : List Tree} (h : Derives grammar rule left ts nodes rest)
    (hs : left.isSome) (hne : left ≠ some []) : nodes ≠ [] := by
  induction h with
  | nothing | token | angle | finish | part | both | manyNil | manyCons | barring | field |
    tree | onto => exact absurd hs (by simp)
  | first _ ih => exact ih hs hne
  | second _ ih => exact ih hs hne
  | stepsNil => exact fun h => hne (congrArg some h)
  | stepsCons _ _ iha ihs => exact ihs rfl fun h => iha hs hne (Option.some.inj h)
  | keep => exact fun h => hne (congrArg some h)
  | wrap => exact List.cons_ne_nil _ _

/-! ## How many nodes there are -/

/-- **How many nodes a rule gives at least**, given the same of the parts.
A step gives at least one if it goes on from one. -/
def Rule.least (parts : Part → Nat) : Rule Part → Nat
  | .mark _ _ | .word _ _ | .name _ _ | .piece _ | .angle => 1
  | .part p => parts p
  | .both a b => a.least parts + b.least parts
  | .either a b => min (a.least parts) (b.least parts)
  | .field _ a => a.least parts
  | .tree _ _ | .wrap _ _ _ _ | .keep | .steps _ => 1
  | .onto a _ => min (a.least parts) 1
  | .nothing | .finish | .many _ | .barring _ => 0

/-- A rule for a token gives at least what the token gives. -/
theorem Rule.least_le_one_of_token? {parts : Part → Nat} {rule : Rule Part} {x : Lexeme}
    {label : Label} (h : rule.token? x = some label) : rule.least parts ≤ 1 := by
  rcases Rule.token?_eq_some h with ⟨p, rfl, -⟩ | ⟨k, rfl, -⟩ | ⟨kind, taken, w, rfl, -⟩ |
    ⟨kind, rfl, -⟩ <;> exact Nat.le_refl 1

/-- **There are no fewer nodes than the rule says.** -/
theorem Derives.least_le {parts : Part → Nat}
    (hparts : ∀ p, parts p ≤ (grammar p).least parts) {rule : Rule Part}
    {left : Option (List Tree)} {ts rest : List Token} {nodes : List Tree}
    (h : Derives grammar rule left ts nodes rest) (hne : left ≠ some []) :
    rule.least parts ≤ nodes.length := by
  induction h with
  | nothing | finish | manyNil | manyCons | barring => exact Nat.zero_le _
  | token h => exact Rule.least_le_one_of_token? h
  | angle => exact Nat.le_refl 1
  | part _ ih => exact Nat.le_trans (hparts _) (ih hne)
  | both _ _ iha ihb =>
    rw [List.length_append]
    exact Nat.add_le_add (iha hne) (ihb hne)
  | first _ ih => exact Nat.le_trans (Nat.min_le_left _ _) (ih hne)
  | second _ ih => exact Nat.le_trans (Nat.min_le_right _ _) (ih hne)
  | field _ ih =>
    rw [List.length_map]
    exact ih hne
  | tree => exact Nat.le_refl 1
  | @onto a b ts nodes₁ mid nodes₂ rest ha hb iha =>
    rw [Rule.least]
    rcases Nat.eq_zero_or_pos (a.least parts) with h0 | hpos
    · rw [h0]
      exact Nat.zero_le _
    · have hleft : nodes₁ ≠ [] := List.ne_nil_of_length_pos (Nat.lt_of_lt_of_le hpos (iha hne))
      have hnodes := hb.ne_nil_of_step rfl fun h => hleft (Option.some.inj h)
      exact Nat.le_trans (Nat.min_le_right _ _) (List.length_pos_iff.2 hnodes)
  | stepsNil => exact List.length_pos_iff.2 fun h => hne (congrArg some h)
  | stepsCons ha hs =>
    have hmid := ha.ne_nil_of_step rfl hne
    have hnodes := hs.ne_nil_of_step rfl fun h => hmid (Option.some.inj h)
    exact List.length_pos_iff.2 hnodes
  | keep => exact List.length_pos_iff.2 fun h => hne (congrArg some h)
  | wrap => exact Nat.le_refl 1

/-! ## What labels nodes have -/

/-- **Whether a rule can give a node with a label** that is not carried
over, given the same of the parts. -/
def Rule.shows (l : Label) (parts : Part → Bool) : Rule Part → Bool
  | .mark _ label | .word _ label => label == l
  | .name kind _ | .piece kind => .named kind == l
  | .angle => .punct .gt == l
  | .part p => parts p
  | .both a b | .either a b | .onto a b => a.shows l parts || b.shows l parts
  | .many a | .field _ a | .steps a => a.shows l parts
  | .tree kind _ | .wrap _ kind _ _ => .named kind == l
  | .nothing | .finish | .barring _ | .keep => false

theorem label_tokenLeaf {label l : Label} {s : Span} (h : (tokenLeaf label s).label = l)
    (hl : l.isFault = false) : label = l := by
  unfold tokenLeaf at h
  split at h
  next => exact h
  next =>
    subst h
    exact absurd hl (by simp [Tree.leaf, Tree.label, Label.isFault])

theorem Rule.shows_of_token? {parts : Part → Bool} {rule : Rule Part} {x : Lexeme}
    {label : Label} (h : rule.token? x = some label) : rule.shows label parts = true := by
  rcases Rule.token?_eq_some h with ⟨p, rfl, -⟩ | ⟨k, rfl, -⟩ | ⟨kind, taken, w, rfl, -, rfl, -⟩ |
    ⟨kind, rfl, -, rfl⟩ <;> exact beq_self_eq_true _

/-- **Nodes have only labels that the rule shows**, or were carried
over. -/
theorem Derives.shows {l : Label} (hl : l.isFault = false) {parts : Part → Bool}
    (hparts : ∀ p, (grammar p).shows l parts = true → parts p = true) {rule : Rule Part}
    {left : Option (List Tree)} {ts rest : List Token} {nodes : List Tree}
    (h : Derives grammar rule left ts nodes rest) {n : Tree} (hn : n ∈ nodes)
    (hnl : n.label = l) : (∃ m ∈ left.getD [], m.label = l) ∨ rule.shows l parts = true := by
  induction h generalizing n with
  | nothing | finish | manyNil | barring => exact absurd hn List.not_mem_nil
  | token h =>
    obtain rfl := List.mem_singleton.1 hn
    obtain rfl := label_tokenLeaf hnl hl
    exact .inr (Rule.shows_of_token? h)
  | angle =>
    obtain rfl := List.mem_singleton.1 hn
    obtain rfl := label_tokenLeaf hnl hl
    exact .inr rfl
  | part _ ih => exact (ih hn hnl).imp_right fun h => hparts _ h
  | both _ _ iha ihb =>
    rw [Rule.shows, Bool.or_eq_true]
    rcases List.mem_append.1 hn with hn | hn
    · exact (iha hn hnl).imp_right .inl
    · exact (ihb hn hnl).imp_right .inr
  | first _ ih =>
    rw [Rule.shows, Bool.or_eq_true]
    exact (ih hn hnl).imp_right .inl
  | second _ ih =>
    rw [Rule.shows, Bool.or_eq_true]
    exact (ih hn hnl).imp_right .inr
  | manyCons _ _ iha ihs =>
    rcases List.mem_append.1 hn with hn | hn
    · exact iha hn hnl
    · exact ihs hn hnl
  | field _ ih =>
    obtain ⟨m, hm, rfl⟩ := List.mem_map.1 hn
    rw [label_withField] at hnl
    exact ih hm hnl
  | tree =>
    obtain rfl := List.mem_singleton.1 hn
    exact .inr (beq_iff_eq.2 hnl)
  | onto _ _ iha ihb =>
    rw [Rule.shows, Bool.or_eq_true]
    rcases ihb hn hnl with ⟨m, hm, hml⟩ | hb
    · exact (iha hm hml).imp_right .inl
    · exact .inr (.inr hb)
  | stepsNil => exact .inl ⟨n, hn, hnl⟩
  | stepsCons _ _ iha ihs =>
    rcases ihs hn hnl with ⟨m, hm, hml⟩ | hs
    · exact iha hm hml
    · exact .inr hs
  | keep => exact .inl ⟨n, hn, hnl⟩
  | wrap =>
    obtain rfl := List.mem_singleton.1 hn
    exact .inr (beq_iff_eq.2 hnl)

/-! ## What is certainly there -/

/-- **Whether a rule certainly gives a name known by a field.** -/
def Rule.gives (f : Field) : Rule Part → Bool
  | .field g (.name _ _) => g == f
  | .both a b => a.gives f || b.gives f
  | .either a b => a.gives f && b.gives f
  | _ => false

/-- **Where the rule says so, there is a node with the field.** -/
theorem Derives.gives {f : Field} {rule : Rule Part} {ts rest : List Token} {nodes : List Tree}
    (h : Derives grammar rule none ts nodes rest) (hg : rule.gives f = true) :
    ∃ n ∈ nodes, n.field = some f := by
  induction rule generalizing ts nodes rest with
  | field g a =>
    cases a with
    | name kind taken =>
      obtain ⟨nodes₁, rfl, ha⟩ := h.of_field
      cases ha with
      | token =>
        refine ⟨_, List.mem_singleton.2 rfl, ?_⟩
        rw [field_withField, beq_iff_eq.1 hg]
        rfl
    | _ => simp [Rule.gives] at hg
  | both a b iha ihb =>
    obtain ⟨nodes₁, mid, nodes₂, rfl, ha, hb⟩ := h.of_both
    rcases Bool.or_eq_true_iff.1 hg with hg | hg
    · obtain ⟨n, hn, hf⟩ := iha ha hg
      exact ⟨n, List.mem_append_left _ hn, hf⟩
    · obtain ⟨n, hn, hf⟩ := ihb hb hg
      exact ⟨n, List.mem_append_right _ hn, hf⟩
  | either a b iha ihb =>
    obtain ⟨hga, hgb⟩ := Bool.and_eq_true_iff.1 hg
    rcases h.of_either with h | h
    · exact iha h hga
    · exact ihb h hgb
  | _ => simp [Rule.gives] at hg

/-! ## What holds of all trees -/

/-- What holds of the leaves of tokens and is kept by giving fields and by
putting nodes below a new one, holds of all nodes that are derived. -/
theorem Derives.forall_nodes {P : Tree → Prop} (hleaf : ∀ l s, P (leaf l s))
    (hfield : ∀ t f, P t → P (t.withField f))
    (habove : ∀ k cs, (∀ c ∈ cs, P c) → P (above (.named k) cs)) {rule : Rule Part}
    {left : Option (List Tree)} {ts rest : List Token} {nodes : List Tree}
    (h : Derives grammar rule left ts nodes rest) (hleft : ∀ n ∈ left.getD [], P n) :
    ∀ n ∈ nodes, P n := by
  induction h with
  | nothing | finish | manyNil | barring => exact fun _ hn => absurd hn List.not_mem_nil
  | token => exact fun _ hn => List.mem_singleton.1 hn ▸ hleaf _ _
  | angle => exact fun _ hn => List.mem_singleton.1 hn ▸ hleaf _ _
  | part _ ih => exact ih hleft
  | both _ _ iha ihb =>
    exact fun n hn => (List.mem_append.1 hn).elim (iha hleft n) (ihb hleft n)
  | first _ ih => exact ih hleft
  | second _ ih => exact ih hleft
  | manyCons _ _ iha ihs =>
    exact fun n hn => (List.mem_append.1 hn).elim (iha hleft n) (ihs hleft n)
  | field _ ih =>
    intro n hn
    obtain ⟨m, hm, rfl⟩ := List.mem_map.1 hn
    exact hfield m _ (ih hleft m hm)
  | tree _ ih => exact fun _ hn => List.mem_singleton.1 hn ▸ habove _ _ (ih hleft)
  | onto _ _ iha ihb => exact ihb (iha hleft)
  | stepsNil => exact hleft
  | stepsCons _ _ iha ihs => exact ihs (iha hleft)
  | keep => exact hleft
  | wrap _ _ ih =>
    intro n hn
    obtain rfl := List.mem_singleton.1 hn
    refine habove _ _ fun c hc => ?_
    rcases List.mem_append.1 hc with hc | hc
    · obtain ⟨m, hm, rfl⟩ := List.mem_map.1 hc
      exact hfield m _ (hleft m hm)
    · exact ih (fun _ h => absurd h List.not_mem_nil) c hc

section Nodes

variable {rule : Rule Part} {ts rest : List Token} {nodes : List Tree}

/-- Every node that is derived reaches from its first child to its
last. -/
theorem Derives.formed (h : Derives grammar rule none ts nodes rest) : ∀ n ∈ nodes, Formed n :=
  h.forall_nodes formed_leaf (fun _ f ht => ht.withField f) (fun _ _ hcs => formed_above hcs)
    fun _ hn => absurd hn List.not_mem_nil

/-- Every node that is derived and has no kind is a leaf. -/
theorem Derives.children_eq_nil (h : Derives grammar rule none ts nodes rest) {n m : Tree}
    (hn : n ∈ nodes) (hm : m ∈ n.preorder) (hl : ∀ k, m.label ≠ .named k) : m.children = [] := by
  have hall : ∀ n ∈ nodes, ∀ m ∈ n.preorder, (∀ k, m.label ≠ .named k) → m.children = [] := by
    refine h.forall_nodes ?_ ?_ ?_ fun _ hn => absurd hn List.not_mem_nil
    · intro l s m hm _
      rcases mem_preorder_iff.1 hm with rfl | ⟨c, hc, -⟩
      · rfl
      · exact absurd hc List.not_mem_nil
    · intro t f ht m hm hl
      rcases mem_preorder_iff.1 hm with rfl | ⟨c, hc, hmc⟩
      · rw [label_withField] at hl
        rw [children_withField]
        exact ht t (mem_preorder_self t) hl
      · rw [children_withField] at hc
        exact ht m (mem_preorder_of_child hc hmc) hl
    · intro k cs hcs m hm hl
      rcases mem_preorder_iff.1 hm with rfl | ⟨c, hc, hmc⟩
      · exact absurd rfl (hl k)
      · exact hcs c hc m hmc hl
  exact hall n hn m hm hl

/-- Every node that is derived has true flags. -/
theorem Derives.flagged (h : Derives grammar rule none ts nodes rest) :
    ∀ n ∈ nodes, Flagged n :=
  h.forall_nodes flagged_leaf (fun _ f ht => ht.withField f) (fun _ _ hcs => flagged_above hcs)
    fun _ hn => absurd hn List.not_mem_nil

end Nodes

/-! ## What stands below a node -/

/-- **A rule respects a statement about children** if the statement holds
of every node that the rule puts over others, with the nodes it puts it
over, and if it names only parts of which the same is known. -/
def Rule.Respects (grammar : Part → Rule Part) (named : Part → Bool)
    (B : Kind → List Tree → Prop) : Rule Part → Prop
  | .mark _ label | .word _ label => ∀ k, label = .named k → B k []
  | .name kind _ | .piece kind => B kind []
  | .both a b | .either a b | .onto a b => a.Respects grammar named B ∧ b.Respects grammar named B
  | .many a | .field _ a | .steps a => a.Respects grammar named B
  | .tree kind a =>
    (∀ ts nodes rest, Derives grammar a none ts nodes rest → B kind nodes)
      ∧ a.Respects grammar named B
  | .wrap kinds kind f a =>
    (∀ left ts nodes rest, applies kinds left = true → Derives grammar a none ts nodes rest →
      B kind (left.map (withField f) ++ nodes)) ∧ a.Respects grammar named B
  | .part p => named p = true
  | .nothing | .angle | .finish | .barring _ | .keep => True

/-- The statement about children, for all nodes of a tree. -/
def Tree.Respects (B : Kind → List Tree → Prop) (t : Tree) : Prop :=
  ∀ n ∈ t.preorder, ∀ k, n.label = .named k → B k n.children

theorem Tree.Respects.withField {B : Kind → List Tree → Prop} {t : Tree} (h : t.Respects B)
    (f : Option Field) : (t.withField f).Respects B := by
  intro n hn k hk
  rcases mem_preorder_iff.1 hn with rfl | ⟨c, hc, hnc⟩
  · rw [label_withField] at hk
    rw [children_withField]
    exact h t (mem_preorder_self t) k hk
  · rw [children_withField] at hc
    exact h n (mem_preorder_of_child hc hnc) k hk

theorem Tree.respects_above {B : Kind → List Tree → Prop} {kind : Kind} {cs : List Tree}
    (hB : B kind cs) (hcs : ∀ c ∈ cs, c.Respects B) : (above (.named kind) cs).Respects B := by
  intro n hn k hk
  rcases mem_preorder_iff.1 hn with rfl | ⟨c, hc, hnc⟩
  · cases hk
    exact hB
  · exact hcs c hc n hnc k hk

theorem Tree.respects_tokenLeaf {B : Kind → List Tree → Prop} {label : Label} {s : Span}
    (h : ∀ k, label = .named k → B k []) : (tokenLeaf label s).Respects B := by
  intro n hn k hk
  rcases mem_preorder_iff.1 hn with rfl | ⟨c, hc, -⟩
  · exact h k (label_tokenLeaf hk rfl)
  · exact absurd hc List.not_mem_nil

theorem Rule.Respects.of_token? {named : Part → Bool} {B : Kind → List Tree → Prop}
    {rule : Rule Part}
    (hr : rule.Respects grammar named B) {x : Lexeme} {label : Label}
    (h : rule.token? x = some label) : ∀ k, label = .named k → B k [] := by
  rcases Rule.token?_eq_some h with ⟨p, rfl, -⟩ | ⟨k, rfl, -⟩ | ⟨kind, taken, w, rfl, -, rfl, -⟩ |
    ⟨kind, rfl, -, rfl⟩
  · exact hr
  · exact hr
  · rintro k ⟨⟩
    exact hr
  · rintro k ⟨⟩
    exact hr

/-- **Children are such as the rules make them**, at every node of what is
derived. -/
theorem Derives.respects {named : Part → Bool} {B : Kind → List Tree → Prop}
    (hg : ∀ p, named p = true → (grammar p).Respects grammar named B) {rule : Rule Part} {left : Option (List Tree)}
    {ts rest : List Token} {nodes : List Tree} (h : Derives grammar rule left ts nodes rest)
    (hr : rule.Respects grammar named B) (hleft : ∀ n ∈ left.getD [], n.Respects B) :
    ∀ n ∈ nodes, n.Respects B := by
  induction h with
  | nothing | finish | manyNil | barring => exact fun _ hn => absurd hn List.not_mem_nil
  | token h =>
    exact fun _ hn => List.mem_singleton.1 hn ▸ respects_tokenLeaf (hr.of_token? h)
  | angle => exact fun _ hn => List.mem_singleton.1 hn ▸ respects_tokenLeaf nofun
  | part _ ih => exact ih (hg _ hr) hleft
  | both _ _ iha ihb =>
    exact fun n hn => (List.mem_append.1 hn).elim (iha hr.1 hleft n) (ihb hr.2 hleft n)
  | first _ ih => exact ih hr.1 hleft
  | second _ ih => exact ih hr.2 hleft
  | manyCons _ _ iha ihs =>
    exact fun n hn => (List.mem_append.1 hn).elim (iha hr hleft n) (ihs hr hleft n)
  | field _ ih =>
    intro n hn
    obtain ⟨m, hm, rfl⟩ := List.mem_map.1 hn
    exact (ih hr hleft m hm).withField _
  | tree h ih =>
    intro n hn
    obtain rfl := List.mem_singleton.1 hn
    exact respects_above (hr.1 _ _ _ h) (ih hr.2 hleft)
  | onto _ _ iha ihb => exact ihb hr.2 (iha hr.1 hleft)
  | stepsNil => exact hleft
  | stepsCons _ _ iha ihs => exact ihs hr (iha hr hleft)
  | keep => exact hleft
  | wrap hk h ih =>
    intro n hn
    obtain rfl := List.mem_singleton.1 hn
    refine respects_above (hr.1 _ _ _ _ hk h) fun c hc => ?_
    rcases List.mem_append.1 hc with hc | hc
    · obtain ⟨m, hm, rfl⟩ := List.mem_map.1 hc
      exact (hleft m hm).withField _
    · exact ih hr.2 (fun _ h => absurd h List.not_mem_nil) c hc

/-- **Whether a rule makes no node of some kinds** by itself, and names
only parts of which something is known. -/
def Rule.avoids (kinds : Kind → Bool) (named : Part → Bool) : Rule Part → Bool
  | .mark _ (.named k) | .word _ (.named k) => !kinds k
  | .name kind _ | .piece kind => !kinds kind
  | .both a b | .either a b | .onto a b => a.avoids kinds named && b.avoids kinds named
  | .many a | .field _ a | .steps a => a.avoids kinds named
  | .tree kind a | .wrap _ kind _ a => !kinds kind && a.avoids kinds named
  | .part p => named p
  | _ => true

/-- A rule that makes no node of some kinds respects whatever is said of
these kinds only. -/
theorem Rule.respects_of_avoids {kinds : Kind → Bool} {named : Part → Bool} {B : Kind → List Tree → Prop}
    (hB : ∀ k cs, kinds k = false → B k cs) {rule : Rule Part}
    (h : rule.avoids kinds named = true) : rule.Respects grammar named B := by
  induction rule with
  | nothing | angle | finish | barring | keep => exact trivial
  | part p => exact h
  | mark p label | word p label =>
    intro k hk
    subst hk
    exact hB k [] (by simpa [Rule.avoids] using h)
  | name kind | piece kind => exact hB kind [] (by simpa [Rule.avoids] using h)
  | both a b iha ihb | either a b iha ihb | onto a b iha ihb =>
    obtain ⟨ha, hb⟩ := Bool.and_eq_true_iff.1 h
    exact ⟨iha ha, ihb hb⟩
  | many a ih | field f a ih | steps a ih => exact ih h
  | tree kind a ih =>
    obtain ⟨hk, ha⟩ := Bool.and_eq_true_iff.1 h
    exact ⟨fun _ nodes _ _ => hB kind nodes (by simpa using hk), ih ha⟩
  | wrap kinds' kind f a ih =>
    obtain ⟨hk, ha⟩ := Bool.and_eq_true_iff.1 h
    exact ⟨fun _ _ _ _ _ _ => hB kind _ (by simpa using hk), ih ha⟩

end JavaMutants.Syntax
