import JavaMutants.Proofs.Syntax.Ending

/-!
# What a rule certainly contains

Whether there is a leaf with one of some labels in what a rule gives
(`Rule.contains`), and whether it gives exactly one node (`Rule.isSingle`).
With both it can be told what stands around a node that is known by a field:
the node contains such a leaf, and something with such a leaf comes after it
(`Guarded`). `Rule.guards` reads this off the rules, for all nodes of some
kinds, and `Derives.guarded` says that it is so in every tree.

A step goes on from what was read before, which may be the node in question.
So these are statements about a beginning together with its steps: what a
beginning contains is still there afterwards, and it stays one node.
-/

namespace JavaMutants.Syntax

open Syntax.Tree

variable {Part : Type} {grammar : Part → Rule Part}

/-! ## Leaves that are certainly there -/

/-- **Trees contain a leaf with one of some labels**, or a fault. -/
def Contains (labels : Label → Bool) (ts : List Tree) : Prop :=
  ∃ x ∈ leavesAll ts, labels x.1 = true ∨ x.1.isFault = true

section Contains

variable {labels : Label → Bool} {ts us : List Tree} {f : Option Field} {l : Label}

theorem not_contains_nil : ¬ Contains labels [] := fun ⟨_, hx, _⟩ => by simp at hx

theorem Contains.ne_nil (h : Contains labels ts) : ts ≠ [] := by
  rintro rfl
  exact not_contains_nil h

theorem Contains.append_left (h : Contains labels ts) (us : List Tree) :
    Contains labels (ts ++ us) := by
  obtain ⟨x, hx, hl⟩ := h
  exact ⟨x, by rw [leavesAll_append]; exact List.mem_append_left _ hx, hl⟩

theorem Contains.append_right (h : Contains labels us) (ts : List Tree) :
    Contains labels (ts ++ us) := by
  obtain ⟨x, hx, hl⟩ := h
  exact ⟨x, by rw [leavesAll_append]; exact List.mem_append_right _ hx, hl⟩

theorem Contains.map_withField (h : Contains labels ts) : Contains labels (ts.map (withField f)) := by
  unfold Contains
  rw [leavesAll_map_withField]
  exact h

theorem Contains.above (h : Contains labels ts) : Contains labels [Tree.above l ts] := by
  unfold Contains
  rw [leavesAll_cons, leavesAll_nil, List.append_nil,
    leaves_of_children_ne_nil (show (Tree.above l ts).children ≠ [] from h.ne_nil)]
  exact h

theorem contains_tokenLeaf {s : Span} (h : labels l = true) : Contains labels [tokenLeaf l s] := by
  refine ⟨((tokenLeaf l s).label, s), List.mem_append_left _ (List.mem_singleton.2 rfl), ?_⟩
  show labels (tokenLeaf l s).label = true ∨ (tokenLeaf l s).label.isFault = true
  unfold tokenLeaf
  split
  next => exact .inl h
  next => exact .inr rfl

end Contains

/-- **Whether there certainly is a leaf with one of some labels** in what a
rule gives, given the same of the parts. -/
def Rule.contains (labels : Label → Bool) (parts : Part → Bool) : Rule Part → Bool
  | .mark _ label | .word _ label => labels label
  | .name kind _ | .piece kind => labels (.named kind)
  | .angle => labels (.punct .gt)
  | .part p => parts p
  | .both a b => a.contains labels parts || b.contains labels parts
  | .either a b => a.contains labels parts && b.contains labels parts
  | .onto a _ | .field _ a | .tree _ a | .wrap _ _ _ a => a.contains labels parts
  | .nothing | .finish | .many _ | .barring _ | .steps _ | .keep => false

theorem Rule.contains_of_token? {labels : Label → Bool} {parts : Part → Bool} {rule : Rule Part}
    (hr : rule.contains labels parts = true) {x : Lexeme} {label : Label}
    (h : rule.token? x = some label) : labels label = true := by
  rcases Rule.token?_eq_some h with ⟨p, rfl, -⟩ | ⟨k, rfl, -⟩ | ⟨kind, taken, w, rfl, -, rfl, -⟩ |
    ⟨kind, rfl, -, rfl⟩ <;> exact hr

/-- **Where the rule says so, there is such a leaf**, and what was there before
is still there. -/
theorem Derives.contains {labels : Label → Bool} {parts : Part → Bool}
    (hparts : ∀ p, parts p = true → (grammar p).contains labels parts = true) {rule : Rule Part}
    {left : Option (List Tree)} {ts rest : List Token} {nodes : List Tree}
    (h : Derives grammar rule left ts nodes rest)
    (hr : rule.contains labels parts = true ∨ Contains labels (left.getD [])) :
    Contains labels nodes := by
  induction h with
  | nothing | finish | manyNil | manyCons | barring =>
    exact absurd hr (by simp [Rule.contains, not_contains_nil])
  | token h =>
    exact contains_tokenLeaf (Rule.contains_of_token? (hr.resolve_right not_contains_nil) h)
  | angle => exact contains_tokenLeaf (hr.resolve_right not_contains_nil)
  | part _ ih => exact ih (hr.imp_left (hparts _))
  | both _ _ iha ihb =>
    rcases Bool.or_eq_true_iff.1 (hr.resolve_right not_contains_nil) with ha | hb
    · exact (iha (.inl ha)).append_left _
    · exact (ihb (.inl hb)).append_right _
  | first _ ih => exact ih (hr.imp_left fun h => (Bool.and_eq_true_iff.1 h).1)
  | second _ ih => exact ih (hr.imp_left fun h => (Bool.and_eq_true_iff.1 h).2)
  | field _ ih => exact (ih (.inl (hr.resolve_right not_contains_nil))).map_withField
  | tree _ ih => exact (ih (.inl (hr.resolve_right not_contains_nil))).above
  | onto _ _ iha ihb => exact ihb (.inr (iha (.inl (hr.resolve_right not_contains_nil))))
  | stepsNil | keep => exact hr.resolve_left nofun
  | stepsCons _ _ iha ihs => exact ihs (.inr (iha (.inr (hr.resolve_left nofun))))
  | wrap _ _ ih =>
    rcases hr with hr | hleft
    · exact ((ih (.inl hr)).append_right _).above
    · exact (Contains.append_left (Contains.map_withField hleft) _).above

/-! ## One node -/

/-- **Whether a rule gives exactly one node**, given the same of the parts.
A step does if it goes on from one. -/
def Rule.isSingle (parts : Part → Bool) : Rule Part → Bool
  | .mark _ _ | .word _ _ | .name _ _ | .piece _ | .angle => true
  | .part p => parts p
  | .either a b | .onto a b => a.isSingle parts && b.isSingle parts
  | .field _ a | .steps a => a.isSingle parts
  | .tree _ _ | .wrap _ _ _ _ | .keep => true
  | .nothing | .finish | .both _ _ | .many _ | .barring _ => false

/-- **Where the rule says so, there is one node.** -/
theorem Derives.exists_eq_singleton {parts : Part → Bool}
    (hparts : ∀ p, parts p = true → (grammar p).isSingle parts = true) {rule : Rule Part}
    {left : Option (List Tree)} {ts rest : List Token} {nodes : List Tree}
    (h : Derives grammar rule left ts nodes rest) (hr : rule.isSingle parts = true)
    (hleft : ∀ l ∈ left, ∃ m, l = [m]) : ∃ n, nodes = [n] := by
  induction h with
  | nothing | finish | both | manyNil | manyCons | barring => cases hr
  | token | angle | tree | wrap => exact ⟨_, rfl⟩
  | part _ ih => exact ih (hparts _ hr) hleft
  | first _ ih => exact ih (Bool.and_eq_true_iff.1 hr).1 hleft
  | second _ ih => exact ih (Bool.and_eq_true_iff.1 hr).2 hleft
  | field _ ih =>
    obtain ⟨n, rfl⟩ := ih hr nofun
    exact ⟨_, rfl⟩
  | onto _ _ iha ihb =>
    obtain ⟨hra, hrb⟩ := Bool.and_eq_true_iff.1 hr
    refine ihb hrb ?_
    rintro _ ⟨⟩
    exact iha hra nofun
  | stepsNil | keep => exact hleft _ rfl
  | stepsCons _ _ iha ihs =>
    refine ihs hr ?_
    rintro _ ⟨⟩
    exact iha hr hleft

/-! ## What is known by a field, and what comes after it -/

/-- What is known of the parts of a grammar: which of them certainly contain a
leaf with one of some labels, and which give exactly one node. -/
structure Facts (Part : Type) where
  /-- The labels. -/
  labels : Label → Bool
  /-- The parts with such a leaf. -/
  full : Part → Bool
  /-- The parts that give one node. -/
  single : Part → Bool

/-- The facts are borne out by the rules. -/
structure Facts.Sound (facts : Facts Part) (grammar : Part → Rule Part) : Prop where
  /-- There is such a leaf in the parts that are said to have one. -/
  full : ∀ p, facts.full p = true → (grammar p).contains facts.labels facts.full = true
  /-- The parts that are said to give one node do. -/
  single : ∀ p, facts.single p = true → (grammar p).isSingle facts.single = true

/-- Whether a rule gives one node, with a leaf with one of some labels. -/
def Rule.isFull (facts : Facts Part) (rule : Rule Part) : Bool :=
  rule.isSingle facts.single && rule.contains facts.labels facts.full

section Full

variable {facts : Facts Part} {rule : Rule Part} {ts rest : List Token} {nodes : List Tree}

theorem Derives.exists_full (hfacts : facts.Sound grammar) (hr : rule.isFull facts = true)
    (h : Derives grammar rule none ts nodes rest) :
    ∃ n, nodes = [n] ∧ Contains facts.labels [n] := by
  obtain ⟨hsingle, hcontains⟩ := Bool.and_eq_true_iff.1 hr
  obtain ⟨n, rfl⟩ := h.exists_eq_singleton hfacts.single hsingle nofun
  exact ⟨n, rfl, h.contains hfacts.full (.inl hcontains)⟩

end Full

/-- **Whether what a rule gives and knows by a field is full**: one node with a
leaf with one of some labels. No part gives anything known by the field. -/
def Rule.fills (f : Field) (facts : Facts Part) : Rule Part → Bool
  | .field g a => !a.knows f (fun _ => false) && (g != f || a.isFull facts)
  | .both a b | .either a b => a.fills f facts && b.fills f facts
  | rule => !rule.knows f fun _ => false

/-- **Whether something comes after all that a rule gives and knows by a field**,
and certainly has a leaf with one of some labels. -/
def Rule.seals (f : Field) (facts : Facts Part) : Rule Part → Bool
  | .both _ b => b.contains facts.labels facts.full && !b.knows f (fun _ => false)
      || b.seals f facts
  | _ => false

section Guarded

variable {f : Field} {facts : Facts Part}

/-- **A child that is known by a field has something in it and something after
it.** -/
structure Guarded (f : Field) (labels : Label → Bool) (cs : List Tree) : Prop where
  /-- There is a leaf in it. -/
  full : ∀ c ∈ cs, c.field = some f → Contains labels [c]
  /-- There is a leaf after it. -/
  sealed : ∀ c ∈ cs, c.field = some f → ∃ as bs, cs = as ++ bs ∧ c ∈ as ∧ Contains labels bs

theorem guarded_of_forall_ne {labels : Label → Bool} {cs : List Tree}
    (h : ∀ c ∈ cs, c.field ≠ some f) : Guarded f labels cs :=
  ⟨fun c hc hf => absurd hf (h c hc), fun c hc hf => absurd hf (h c hc)⟩

variable (hknows : ∀ p, (grammar p).knows f (fun _ => false) = false) {rule : Rule Part}
  {ts rest : List Token} {nodes : List Tree}
include hknows

theorem Derives.field_ne (h : Derives grammar rule none ts nodes rest)
    (hr : rule.knows f (fun _ => false) = false) : ∀ n ∈ nodes, n.field ≠ some f :=
  h.knows (fun p hp => (hknows p).symm.trans hp) hr nofun

variable (hfacts : facts.Sound grammar)
include hfacts

/-- **Where the rule says so, what is known by the field is full.** -/
theorem Derives.contains_of_fills (h : Derives grammar rule none ts nodes rest)
    (hr : rule.fills f facts = true) :
    ∀ n ∈ nodes, n.field = some f → Contains facts.labels [n] := by
  induction rule generalizing ts nodes rest with
  | field g a =>
    obtain ⟨ms, rfl, ha⟩ := h.of_field
    obtain ⟨hk, hg⟩ := Bool.and_eq_true_iff.1 hr
    have hne := ha.field_ne hknows (by simpa using hk)
    intro n hn hf
    obtain ⟨m, hm, rfl⟩ := List.mem_map.1 hn
    rcases Bool.or_eq_true_iff.1 hg with hg | hfull
    · -- it is known by another field
      rw [field_withField] at hf
      cases hmf : m.field with
      | none =>
        rw [hmf] at hf
        exact absurd (Option.some.inj hf) (by simpa using hg)
      | some e =>
        rw [hmf] at hf
        exact absurd (hmf.trans hf) (hne m hm)
    · obtain ⟨m', rfl, hm'⟩ := ha.exists_full hfacts hfull
      rw [List.mem_singleton.1 hm]
      show Contains facts.labels ([m'].map (withField (some g)))
      exact hm'.map_withField
  | both a b iha ihb =>
    obtain ⟨as, mid, bs, rfl, ha, hb⟩ := h.of_both
    obtain ⟨hra, hrb⟩ := Bool.and_eq_true_iff.1 hr
    intro n hn
    rcases List.mem_append.1 hn with hn | hn
    · exact iha ha hra n hn
    · exact ihb hb hrb n hn
  | either a b iha ihb =>
    obtain ⟨hra, hrb⟩ := Bool.and_eq_true_iff.1 hr
    rcases h.of_either with h | h
    · exact iha h hra
    · exact ihb h hrb
  | _ =>
    have hne := h.field_ne hknows (by simpa [Rule.fills] using hr)
    exact fun n hn hf => absurd hf (hne n hn)

/-- **Where the rule says so, something comes after what is known by the field.** -/
theorem Derives.exists_of_seals (h : Derives grammar rule none ts nodes rest)
    (hr : rule.seals f facts = true) :
    ∃ as bs, nodes = as ++ bs ∧ (∀ n ∈ bs, n.field ≠ some f) ∧ Contains facts.labels bs := by
  induction rule generalizing ts nodes rest with
  | both a b _ ihb =>
    obtain ⟨as, mid, bs, rfl, -, hb⟩ := h.of_both
    rcases Bool.or_eq_true_iff.1 hr with hr | hr
    · obtain ⟨hfull, hk⟩ := Bool.and_eq_true_iff.1 hr
      exact ⟨as, bs, rfl, hb.field_ne hknows (by simpa using hk),
        hb.contains hfacts.full (.inl hfull)⟩
    · obtain ⟨cs, ds, rfl, hne, hds⟩ := ihb hb hr
      exact ⟨as ++ cs, ds, by rw [List.append_assoc], hne, hds⟩
  | _ => cases hr

/-- **Children that a rule gives are guarded**, if the rule says so. -/
theorem Derives.guarded_of_fills (h : Derives grammar rule none ts nodes rest)
    (hfills : rule.fills f facts = true) (hseals : rule.seals f facts = true) :
    Guarded f facts.labels nodes := by
  refine ⟨h.contains_of_fills hknows hfacts hfills, fun c hc hf => ?_⟩
  obtain ⟨as, bs, rfl, hne, hbs⟩ := h.exists_of_seals hknows hfacts hseals
  refine ⟨as, bs, rfl, ?_, hbs⟩
  rcases List.mem_append.1 hc with hc | hc
  · exact hc
  · exact absurd hf (hne c hc)

end Guarded

/-! ## All nodes of some kinds -/

/-- **One node with such a leaf stays one**, whatever steps are taken. -/
theorem Derives.exists_full_of_left {labels : Label → Bool} {rule : Rule Part}
    {left : Option (List Tree)} {ts rest : List Token} {nodes : List Tree}
    (h : Derives grammar rule left ts nodes rest) (hs : left.isSome)
    (hleft : ∀ l ∈ left, ∃ m, l = [m] ∧ Contains labels [m]) :
    ∃ n, nodes = [n] ∧ Contains labels [n] := by
  induction h with
  | nothing | token | angle | finish | part | both | manyNil | manyCons | barring | field |
    tree | onto => exact absurd hs (by simp)
  | first _ ih => exact ih hs hleft
  | second _ ih => exact ih hs hleft
  | stepsNil | keep => exact hleft _ rfl
  | stepsCons _ _ iha ihs =>
    refine ihs rfl ?_
    rintro _ ⟨⟩
    exact iha hs hleft
  | wrap =>
    obtain ⟨m, rfl, hm⟩ := hleft _ rfl
    exact ⟨_, rfl, ((Contains.map_withField hm).append_left _).above⟩

/-- **Whether the nodes of some kinds are guarded** that a rule makes, and
whether every beginning is one node with a leaf with one of some labels. -/
def Rule.guards (kinds : Kind → Bool) (f : Field) (facts : Facts Part) (named : Part → Bool) :
    Rule Part → Bool
  | .both a b | .either a b => a.guards kinds f facts named && b.guards kinds f facts named
  | .many a | .field _ a | .steps a => a.guards kinds f facts named
  | .tree kind a =>
    a.guards kinds f facts named && (!kinds kind || a.fills f facts && a.seals f facts)
  | .wrap _ kind _ a => a.guards kinds f facts named
      && (!kinds kind || a.contains facts.labels facts.full && !a.knows f fun _ => false)
  | .onto a b => a.guards kinds f facts named && b.guards kinds f facts named && a.isFull facts
  | .part p => named p
  | _ => true

/-- **In every tree that is derived the nodes of some kinds are guarded**, if all
rules say so. -/
theorem Derives.guarded {kinds : Kind → Bool} {f : Field} {facts : Facts Part}
    {named : Part → Bool} (hknows : ∀ p, (grammar p).knows f (fun _ => false) = false)
    (hfacts : facts.Sound grammar)
    (hg : ∀ p, named p = true → (grammar p).guards kinds f facts named = true) {rule : Rule Part}
    {left : Option (List Tree)} {ts rest : List Token} {nodes : List Tree}
    (h : Derives grammar rule left ts nodes rest) (hr : rule.guards kinds f facts named = true)
    (hfull : ∀ l ∈ left, ∃ m, l = [m] ∧ Contains facts.labels [m])
    (hleft : ∀ n ∈ left.getD [],
      n.Respects fun k cs => kinds k = true → Guarded f facts.labels cs) :
    ∀ n ∈ nodes, n.Respects fun k cs => kinds k = true → Guarded f facts.labels cs := by
  have hnil : Guarded f facts.labels [] := guarded_of_forall_ne fun _ h => absurd h List.not_mem_nil
  induction h with
  | nothing | finish | manyNil | barring => exact fun _ hn => absurd hn List.not_mem_nil
  | token => exact fun _ hn => List.mem_singleton.1 hn ▸ respects_tokenLeaf fun _ _ _ => hnil
  | angle => exact fun _ hn => List.mem_singleton.1 hn ▸ respects_tokenLeaf nofun
  | part _ ih => exact ih (hg _ hr) hfull hleft
  | both _ _ iha ihb =>
    obtain ⟨hra, hrb⟩ := Bool.and_eq_true_iff.1 hr
    exact fun n hn => (List.mem_append.1 hn).elim (iha hra hfull hleft n) (ihb hrb hfull hleft n)
  | first _ ih => exact ih (Bool.and_eq_true_iff.1 hr).1 hfull hleft
  | second _ ih => exact ih (Bool.and_eq_true_iff.1 hr).2 hfull hleft
  | manyCons _ _ iha ihs =>
    exact fun n hn => (List.mem_append.1 hn).elim (iha hr hfull hleft n) (ihs hr hfull hleft n)
  | field _ ih =>
    intro n hn
    obtain ⟨m, hm, rfl⟩ := List.mem_map.1 hn
    exact (ih hr hfull hleft m hm).withField _
  | tree h ih =>
    obtain ⟨hra, hk⟩ := Bool.and_eq_true_iff.1 hr
    intro n hn
    obtain rfl := List.mem_singleton.1 hn
    refine respects_above (fun hkind => ?_) (ih hra hfull hleft)
    obtain ⟨hfills, hseals⟩ := Bool.and_eq_true_iff.1 ((Bool.or_eq_true_iff.1 hk).resolve_left
      (by simp [hkind]))
    exact h.guarded_of_fills hknows hfacts hfills hseals
  | onto ha _ iha ihb =>
    obtain ⟨hr, hra'⟩ := Bool.and_eq_true_iff.1 hr
    obtain ⟨hra, hrb⟩ := Bool.and_eq_true_iff.1 hr
    refine ihb hrb ?_ (iha hra hfull hleft)
    rintro _ ⟨⟩
    exact ha.exists_full hfacts hra'
  | stepsNil | keep => exact hleft
  | stepsCons ha _ iha ihs =>
    refine ihs hr ?_ (iha hr hfull hleft)
    rintro _ ⟨⟩
    exact ha.exists_full_of_left rfl hfull
  | @wrap _ kind g a left ts nodes rest _ h ih =>
    obtain ⟨hra, hk⟩ := Bool.and_eq_true_iff.1 hr
    obtain ⟨m, rfl, hm⟩ := hfull _ rfl
    intro n hn
    obtain rfl := List.mem_singleton.1 hn
    refine respects_above (fun hkind => ?_) fun c hc => ?_
    · -- what was read before is guarded by the nodes of the step
      obtain ⟨hcontains, hka⟩ := Bool.and_eq_true_iff.1 ((Bool.or_eq_true_iff.1 hk).resolve_left
        (by simp [hkind]))
      have hne := h.field_ne hknows (by simpa using hka)
      have hnodes := h.contains hfacts.full (.inl hcontains)
      have hfirst : ∀ c ∈ [m].map (withField g) ++ nodes, c.field = some f →
          c ∈ [m].map (withField g) := fun c hc hf =>
        (List.mem_append.1 hc).resolve_right fun hc => hne c hc hf
      refine ⟨fun c hc hf => ?_, fun c hc hf => ⟨_, nodes, rfl, hfirst c hc hf, hnodes⟩⟩
      rw [List.mem_singleton.1 (hfirst c hc hf)]
      exact Contains.map_withField hm
    · rcases List.mem_append.1 hc with hc | hc
      · obtain ⟨m', hm', rfl⟩ := List.mem_map.1 hc
        exact (hleft m' hm').withField _
      · exact ih hra nofun (fun _ h => absurd h List.not_mem_nil) c hc

end JavaMutants.Syntax
