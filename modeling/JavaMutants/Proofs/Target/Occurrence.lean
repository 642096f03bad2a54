import JavaMutants.Proofs.Syntax.Choice
import JavaMutants.Proofs.Syntax.Sound
import JavaMutants.Proofs.Target.Locate

/-!
# Where declarations come from

A declaration in a tree was read by the rule of its kind, from tokens that
come after the first of the text (`respects_occurs`). The rule of every
kind of declaration ends with a body (`endsWithBody_declaration`), so the
tokens of a declaration stand on their own: they are read as the same kind
of declaration wherever they stand (`Target.IsMatch.exists_own`).
-/

namespace JavaMutants.Syntax

/-- **Tokens come after others**, be it after the beginning of a mark that
was taken apart. -/
inductive Follows : List Token → List Token → Prop where
  /-- They are all of them. -/
  | refl {ts} : Follows ts ts
  /-- They come after a token. -/
  | token {t ts us} (h : Follows ts us) : Follows (t :: ts) us
  /-- They come after a closing angle bracket. -/
  | angle {p q s ts us} (hp : p.afterAngle? = some q) (h : Follows (afterAngle q s ts) us) :
      Follows (⟨.punct p, s⟩ :: ts) us

theorem Follows.trans {ts us vs : List Token} (h : Follows ts us) (h' : Follows us vs) :
    Follows ts vs := by
  induction h with
  | refl => exact h'
  | token _ ih => exact .token (ih h')
  | angle hp _ ih => exact .angle hp (ih h')

/-- Tokens that do not begin with what is left of a mark are the last of
those they come after. -/
theorem Follows.exists_append {ts us : List Token} (h : Follows ts us)
    (hus : ∀ t ∈ us.head?, ∀ (p : Punct) (q : Punct), p.afterAngle? = some (some q) →
      t.lexeme ≠ .punct q) :
    ∃ before, ts = before ++ us := by
  induction h with
  | refl => exact ⟨[], rfl⟩
  | @token t ts us _ ih =>
    obtain ⟨before, rfl⟩ := ih hus
    exact ⟨t :: before, rfl⟩
  | @angle p q s ts us hp _ ih =>
    obtain ⟨before, hbefore⟩ := ih hus
    cases q with
    | none => exact ⟨⟨.punct p, s⟩ :: before, congrArg _ hbefore⟩
    | some q =>
      cases before with
      | nil =>
        have hhead : us.head? = some ⟨.punct q, ⟨s.start + 1, s.stop⟩⟩ := by
          rw [← List.nil_append us, ← hbefore]
          rfl
        exact absurd rfl (hus _ hhead p q hp)
      | cons t before =>
        obtain ⟨-, rfl⟩ := List.cons.inj hbefore
        exact ⟨⟨.punct p, s⟩ :: before, rfl⟩

/-- What is left comes after what is taken. -/
theorem Derives.follows {Part : Type} {grammar : Part → Rule Part} {rule : Rule Part}
    {left : Option (List Tree)} {ts rest : List Token} {nodes : List Tree}
    (h : Derives grammar rule left ts nodes rest) : Follows ts rest := by
  induction h with
  | nothing | manyNil | barring | stepsNil | keep => exact .refl
  | token | finish => exact .token .refl
  | angle hp => exact .angle hp .refl
  | part _ ih | first _ ih | second _ ih | field _ ih | tree _ ih | wrap _ _ ih => exact ih
  | both _ _ iha ihb | manyCons _ _ iha ihb | onto _ _ iha ihb | stepsCons _ _ iha ihb =>
    exact iha.trans ihb

end JavaMutants.Syntax

namespace JavaMutants

open Syntax Tree Grammar Rule

/-! ## Declarations are read by their rules -/

/-- **A declaration occurs among tokens**: the rule of its kind makes its
children of some that come after the first. -/
def Occurs (code : List Token) (k : Kind) (cs : List Tree) : Prop :=
  isDeclaration k = true → ∃ ts rest, Follows code ts ∧ outcome (body k) [] ts = some (cs, rest)

theorem occurs_of_not {code : List Token} {k : Kind} (cs : List Tree)
    (hk : isDeclaration k = false) : Occurs code k cs := fun h => by
  rw [hk] at h
  cases h

theorem avoids_body (k : Kind) : (body k).avoids isDeclaration isInner = true := by
  cases k <;> rfl

theorem avoids_of_not_node {p : Part} (h : isNodePart p = false) :
    (rules p).avoids isDeclaration isInner = true := by
  have h' := forall_part (fun p => isNodePart p || (rules p).avoids isDeclaration isInner)
    (fun _ => rfl) (by decide) (fun l n => by rw [rules_binary_high]; rfl) p
  simpa [h] using h'

/-- A leaf that is no declaration has nothing to show. -/
theorem respects_leaf_occurs {code : List Token} {rule : Rules}
    (h : rule.avoids isDeclaration isInner = true) {x : Lexeme} {label : Label}
    (hx : rule.token? x = some label) (s : Span) :
    (tokenLeaf label s).Respects (Occurs code) := by
  refine respects_tokenLeaf ?_
  rcases token?_eq_some hx with ⟨p, rfl, -⟩ | ⟨k, rfl, -⟩ | ⟨kind, taken, w, rfl, -, rfl, -⟩ |
    ⟨kind, rfl, -, rfl⟩ <;> rintro k ⟨⟩ <;>
    exact occurs_of_not _ (by simpa [avoids] using h)

/-- **Every declaration in what is read occurs among the tokens**, or was
carried over. The induction is on the depth of reading. -/
theorem respects_occurs {code : List Token} {n : Nat} {rule : Rules} {step : Bool}
    {left : List Tree} {ts rest : List Token} {nodes : List Tree}
    (hn : rule.enough isTaking reach ts ≤ n) (hplaced : rule.isPlaced step = true)
    (hp : rule.isPaced isTaking = true) (havoids : rule.avoids isDeclaration isInner = true)
    (hts : Follows code ts) (hleft : ∀ t ∈ left, t.Respects (Occurs code))
    (h : outcome rule left ts = some (nodes, rest)) : ∀ t ∈ nodes, t.Respects (Occurs code) := by
  induction n generalizing rule step left ts rest nodes with
  | zero =>
    have hpos := rule.need_pos isTaking reach
    unfold enough at hn
    omega
  | succ n ih =>
    have hnil : ∀ t ∈ [], Tree.Respects (Occurs code) t := fun _ ht => absurd ht List.not_mem_nil
    have hd := derives_of_outcome_step hplaced h
    cases rule with
    | nothing =>
      rw [outcome_nothing] at h
      cases h
      exact hnil
    | keep =>
      rw [outcome_keep] at h
      cases h
      exact hleft
    | finish =>
      generalize carried step left = l at hd
      cases hd with
      | token hx => cases hx
      | finish => exact hnil
    | barring lexemes =>
      generalize carried step left = l at hd
      cases hd with
      | token hx => cases hx
      | barring => exact hnil
    | mark | word | name | piece =>
      generalize carried step left = l at hd
      cases hd with
      | token hx => exact fun t ht => List.mem_singleton.1 ht ▸ respects_leaf_occurs havoids hx _
    | angle =>
      generalize carried step left = l at hd
      cases hd with
      | token hx => cases hx
      | angle => exact fun t ht => List.mem_singleton.1 ht ▸ respects_tokenLeaf nofun
    | part p =>
      rw [outcome_part] at h
      have hn' := paced_rules.enough_part hn
      cases hnode : isNodePart p with
      | false =>
        exact ih hn' (isPlaced_rules p) (isPaced_rules p) (avoids_of_not_node hnode) hts hleft h
      | true =>
        -- the rule of a kind of nodes, which may be that of a declaration
        obtain ⟨k, rfl⟩ : ∃ k, p = .node k := by
          cases p <;> first | exact ⟨_, rfl⟩ | cases hnode
        have hbody : (body k).isPaced isTaking = true := isPaced_rules (.node k)
        have hplaced' : (body k).isPlaced false = true := isPlaced_rules (.node k)
        obtain ⟨cs, rfl, hcs⟩ := (outcome_tree_eq_some_iff hbody).1 h
        have hall := ih (enough_inner (a := body k) (Nat.le_succ_of_le hn')) hplaced' hbody
          (avoids_body k) hts hnil hcs
        exact fun t ht => List.mem_singleton.1 ht ▸
          respects_above (fun _ => ⟨ts, rest, hts, hcs⟩) hall
    | both a b =>
      simp only [isPlaced, Bool.and_eq_true] at hplaced
      obtain ⟨hpa, hpb⟩ := Bool.and_eq_true_iff.1 hp
      obtain ⟨haa, hab⟩ := Bool.and_eq_true_iff.1 havoids
      obtain ⟨ns, mid, ms, rfl, ha, hb⟩ := (outcome_both_eq_some_iff hp).1 h
      have hmid := hts.trans (derives_of_outcome hplaced.1.2 ha).follows
      have hns := ih (enough_first hn) hplaced.1.2 hpa haa hts hleft ha
      have hms := ih (enough_second (length_of_outcome ha) hn) hplaced.2 hpb hab hmid hnil hb
      exact fun t ht => (List.mem_append.1 ht).elim (hns t) (hms t)
    | either a b =>
      obtain ⟨hra, hrb⟩ := Bool.and_eq_true_iff.1 hplaced
      obtain ⟨hpa, hpb⟩ := Bool.and_eq_true_iff.1 hp
      obtain ⟨haa, hab⟩ := Bool.and_eq_true_iff.1 havoids
      rcases (outcome_either_eq_some_iff hp).1 h with ha | ⟨-, hb⟩
      · exact ih (enough_left hn) hra hpa haa hts hleft ha
      · exact ih (enough_right hn) hrb hpb hab hts hleft hb
    | many a =>
      simp only [isPlaced, Bool.and_eq_true] at hplaced
      obtain ⟨hc, hpa⟩ := Bool.and_eq_true_iff.1 hp
      rcases (outcome_many_eq_some_iff hp).1 h with ⟨ns, mid, ms, rfl, ha, hs⟩ | ⟨-, rfl, -⟩
      · have hmid := hts.trans (derives_of_outcome hplaced.2 ha).follows
        have hns := ih (enough_inner hn) hplaced.2 hpa havoids hts hnil ha
        have hmany : (many a).isPlaced false = true := hplaced.2
        have hms := ih (enough_again hc (length_of_outcome ha) hn) hmany hp havoids hmid hnil hs
        exact fun t ht => (List.mem_append.1 ht).elim (hns t) (hms t)
      · exact hnil
    | field f a =>
      simp only [isPlaced, Bool.and_eq_true] at hplaced
      have hpa : a.isPaced isTaking = true := hp
      obtain ⟨ns, rfl, ha⟩ := (outcome_field_eq_some_iff hpa).1 h
      have hns := ih (enough_inner hn) hplaced.2 hpa havoids hts hleft ha
      intro t ht
      obtain ⟨m, hm, rfl⟩ := List.mem_map.1 ht
      exact (hns m hm).withField _
    | tree kind a =>
      simp only [isPlaced, Bool.and_eq_true] at hplaced
      have hpa : a.isPaced isTaking = true := hp
      obtain ⟨hk, haa⟩ := Bool.and_eq_true_iff.1 havoids
      obtain ⟨ns, rfl, ha⟩ := (outcome_tree_eq_some_iff hpa).1 h
      have hns := ih (enough_inner hn) hplaced.2 hpa haa hts hnil ha
      exact fun t ht => List.mem_singleton.1 ht ▸
        respects_above (occurs_of_not _ (by simpa using hk)) hns
    | onto a b =>
      simp only [isPlaced, Bool.and_eq_true] at hplaced
      obtain ⟨hpa, hpb⟩ := Bool.and_eq_true_iff.1 hp
      obtain ⟨haa, hab⟩ := Bool.and_eq_true_iff.1 havoids
      obtain ⟨ns, mid, ha, hb⟩ := (outcome_onto_eq_some_iff hp).1 h
      have hmid := hts.trans (derives_of_outcome hplaced.1.2 ha).follows
      have hns := ih (enough_first hn) hplaced.1.2 hpa haa hts hnil ha
      exact ih (enough_second (length_of_outcome ha) hn) hplaced.2 hpb hab hmid hns hb
    | steps a =>
      obtain ⟨rfl, hra⟩ := Bool.and_eq_true_iff.1 hplaced
      obtain ⟨hc, hpa⟩ := Bool.and_eq_true_iff.1 hp
      rcases of_outcome_steps hp h with ⟨ns, mid, ha, hs⟩ | ⟨rfl, -⟩
      · have hmid := hts.trans (derives_of_outcome_step hra ha).follows
        have hns := ih (enough_inner hn) hra hpa havoids hts hleft ha
        have hn' : (steps a).enough isTaking reach mid ≤ n :=
          enough_again hc (length_of_outcome ha) hn
        have hsteps : (steps a).isPlaced true = true := hra
        exact ih hn' hsteps hp havoids hmid hns hs
      · exact hleft
    | wrap kinds kind f a =>
      obtain ⟨rfl, hra⟩ := Bool.and_eq_true_iff.1 hplaced
      have hpa : a.isPaced isTaking = true := hp
      obtain ⟨hk, haa⟩ := Bool.and_eq_true_iff.1 havoids
      obtain ⟨ns, rfl, ha⟩ := of_outcome_wrap hpa h
      have hns := ih (enough_inner hn) hra hpa haa hts hnil ha
      refine fun t ht => List.mem_singleton.1 ht ▸
        respects_above (occurs_of_not _ (by simpa using hk)) fun c hc => ?_
      rcases List.mem_append.1 hc with hc | hc
      · obtain ⟨m, hm, rfl⟩ := List.mem_map.1 hc
        exact (hleft m hm).withField _
      · exact hns c hc

/-! ## Declarations stand on their own -/

/-- A kind of nodes that are something in braces ends with its body. -/
theorem endsWithBody_the {k : Kind} {inner : Rules} (hbody : body k = braces inner)
    (hplaced : inner.isPlaced false = true) (hp : inner.isPaced isTaking = true)
    (htrack : inner.track? false isBalanced .outer = some .outer) : EndsWithBody (the k) := by
  have hbraces := endsWithBody_braces hplaced hp htrack
  have hpb : (braces inner).isPaced isTaking = true := hbody ▸ isPaced_rules (.node k)
  have htree : EndsWithBody (rules (.node k)) := by
    show EndsWithBody (tree k (body k))
    rw [hbody]
    exact hbraces.tree hpb k
  exact htree.part

theorem endsWithBody_block : EndsWithBody (field .body (part .block)) :=
  have hblock : EndsWithBody (rules .block) := endsWithBody_the rfl rfl rfl rfl
  hblock.part.field rfl .body

theorem endsWithBody_classBody : EndsWithBody (field .body (part .classBody)) :=
  have hbody : EndsWithBody (rules .classBody) := endsWithBody_the rfl rfl rfl rfl
  hbody.part.field rfl .body

/-- **The rule of every kind of declaration ends with a body.** -/
theorem endsWithBody_declaration {k : Kind} (hk : isDeclaration k = true) :
    EndsWithBody (body k) := by
  -- what comes before the body keeps count of brackets
  cases k with
  | classDeclaration =>
    iterate 7 refine EndsWithBody.both ?_ rfl rfl rfl
    exact endsWithBody_classBody
  | recordDeclaration =>
    iterate 6 refine EndsWithBody.both ?_ rfl rfl rfl
    exact endsWithBody_classBody
  | interfaceDeclaration =>
    iterate 6 refine EndsWithBody.both ?_ rfl rfl rfl
    exact (endsWithBody_the rfl rfl rfl rfl).field rfl .body
  | enumDeclaration =>
    iterate 4 refine EndsWithBody.both ?_ rfl rfl rfl
    exact (endsWithBody_the rfl rfl rfl rfl).field rfl .body
  | annotationTypeDeclaration =>
    iterate 3 refine EndsWithBody.both ?_ rfl rfl rfl
    exact (endsWithBody_the rfl rfl rfl rfl).field rfl .body
  | constructorDeclaration =>
    iterate 5 refine EndsWithBody.both ?_ rfl rfl rfl
    exact (endsWithBody_the rfl rfl rfl rfl).field rfl .body
  | compactConstructorDeclaration =>
    iterate 2 refine EndsWithBody.both ?_ rfl rfl rfl
    exact endsWithBody_block
  | methodDeclaration =>
    iterate 7 refine EndsWithBody.both ?_ rfl rfl rfl
    have hblocked : isBlocked (.punct .semicolon) [.block, .node .block] = true := by decide
    exact endsWithBody_block.or_semicolon rfl fun t ts ht =>
      outcome_of_refuses hblocked (by decide) ht []
  | _ => cases hk

/-- A declaration that has modifiers begins with one. -/
theorem head_of_declaration {k : Kind} (hk : isDeclaration k = true) {ts rest : List Token}
    {nodes : List Tree} (h : Derives rules (body k) none ts nodes rest) {n : Tree}
    (hn : n ∈ nodes) (hl : n.label = .named .modifiers) :
    ∃ t us, ts = t :: us ∧ t.lexeme ∈ modifierLexemes := by
  have hshows : (afterModifiers k).shows (.named .modifiers) showsModifiers = false := by
    cases k with
    | classDeclaration | interfaceDeclaration | enumDeclaration | recordDeclaration
    | annotationTypeDeclaration | constructorDeclaration | compactConstructorDeclaration
    | methodDeclaration => decide
    | _ => cases hk
  rw [body_eq_both hk] at h
  obtain ⟨first, mid, others, rfl, hfirst, hothers⟩ := h.of_both
  rcases List.mem_append.1 hn with hn | hn
  · rcases hfirst.of_either with hfirst | hfirst
    · exact head_of_modifiers hfirst
    · obtain ⟨rfl, -⟩ := hfirst.of_nothing
      exact absurd hn List.not_mem_nil
  · -- the modifiers come first
    rcases hothers.shows rfl showsModifiers_of_shows hn hl with ⟨m, hm, -⟩ | h
    · exact absurd hm List.not_mem_nil
    · rw [hshows] at h
      cases h

/-- A modifier is not what is left of a mark. -/
theorem ne_afterAngle_of_modifier {x : Lexeme} (hx : x ∈ modifierLexemes) {p q : Punct}
    (h : p.afterAngle? = some (some q)) : x ≠ .punct q := by
  rintro rfl
  cases p <;> cases h <;> revert hx <;> decide

/-- **Tokens with their braces closed end** in a semicolon or a brace. -/
theorem exists_last_of_closed {own : List Token} (h : Closed own) :
    ∃ us u, own = us ++ [u] ∧ (u.lexeme = .punct .semicolon ∨ u.lexeme = .punct .braceClose) := by
  cases h with
  | @semicolon head t _ _ _ ht => exact ⟨head, t, rfl, .inl ht⟩
  | @braces head t inner u _ _ _ _ _ _ _ hu => exact ⟨head ++ t :: inner, u, by simp, .inr hu⟩

/-- The end of the text cannot be crossed. -/
theorem ne_finish_of_crossAll? {strict : Bool} {d e : Depth} {ts : List Token}
    (h : crossAll? strict d ts = some e) : ∀ t ∈ ts, t.lexeme ≠ .finish := by
  induction ts generalizing d with
  | nil => exact fun _ ht => absurd ht List.not_mem_nil
  | cons t ts ih =>
    obtain ⟨m, ht, hts⟩ := Option.bind_eq_some_iff.1 h
    refine List.forall_mem_cons.2 ⟨fun hx => ?_, ih hts⟩
    rw [hx] at ht
    cases ht

theorem ne_finish_of_closed {own : List Token} (h : Closed own) :
    ∀ t ∈ own, t.lexeme ≠ .finish := by
  cases h with
  | @semicolon head t e hhead he ht =>
    refine fun u hu => (List.mem_append.1 hu).elim (ne_finish_of_crossAll? hhead u) fun hu => ?_
    rw [List.mem_singleton.1 hu, ht]
    nofun
  | @braces head t inner v e e' hhead he ht hinner he' hv =>
    intro u hu
    simp only [List.mem_append, List.mem_cons, List.not_mem_nil, or_false] at hu
    rcases hu with hu | rfl | hu | rfl
    · exact ne_finish_of_crossAll? hhead u hu
    · rw [ht]
      nofun
    · exact ne_finish_of_crossAll? hinner u hu
    · rw [hv]
      nofun

/-- **A node begins with the first of the tokens it was read from and ends
with the last of them.** -/
theorem Syntax.IsParse.bounds_of_derives {text : String} {tree d n : Tree} {k : Kind}
    (h : IsParse text tree) (hd : d ∈ bareAll tree.children) (hn : n ∈ d.preorder)
    (hk : isInner (.node k) = true) {before own rest : List Token}
    (hcode : Token.code text.toList = before ++ (own ++ rest))
    (hderives : Derives rules (body k) none (own ++ rest) n.children rest) {t u : Token}
    {ts us : List Token} (hfirst : own = t :: ts) (hlast : own = us ++ [u])
    (hfin : ∀ v ∈ own, v.lexeme ≠ .finish) :
    n.start = t.span.start ∧ n.stop = u.span.stop := by
  have hne : n.children ≠ [] := by
    have hleast := hderives.least_le count_le nofun
    exact List.ne_nil_of_length_pos (Nat.lt_of_lt_of_le (of_decide_eq_true hk) hleast)
  -- its leaves are those tokens
  have hleaves : Takes (own ++ rest) n.leaves rest := by
    have hregular : (Rule.tree k (body k)).isRegular count isInner = true :=
      isRegular_rules (.node k) hk
    obtain ⟨ls, htakes, hls⟩ :=
      hderives.takes count_le isRegular_rules (Bool.and_eq_true_iff.1 hregular).2
    rw [leaves_of_children_ne_nil hne, hls]
    exact htakes
  have hlaid := laid_of_derives h.derives h.whole
  obtain ⟨a, c, hlies⟩ := (hcode ▸ Token.lies_code text.toList).of_append
  have hlt : ∀ v ∈ own, v.span.start < v.span.stop := fun v hv => by
    have hv' : v ∈ Token.code text.toList := by
      rw [hcode]
      exact List.mem_append_right _ (List.mem_append_left _ hv)
    exact h.lt_of_mem_scan (List.mem_filter.1 hv').1 (hfin v hv)
  exact ((hlaid.nested d hd).of_mem_preorder hn).bounds_of_takes hleaves hlies
    (fun x hx => h.whole x (mem_leavesAll_iff.2 ⟨d, hd, mem_leaves_of_mem_preorder hn hx⟩))
    hfirst hlast hfin hlt

namespace Target

section Own

variable {text : String} {tree node mods : Tree} {k : Kind}

/-- **The declarations of a sound text were read by their rules.** -/
theorem exists_outcome_of_declaration (h : parseSound text = .ok tree) {c : Tree}
    (hc : c ∈ tree.children) (hnc : node ∈ c.preorder) (hl : node.label = .named k)
    (hk : isDeclaration k = true) :
    (∃ d ∈ bareAll tree.children, node.bare ∈ d.preorder)
      ∧ ∃ ts rest, Follows (Token.code text.toList) ts
        ∧ outcome (body k) [] ts = some (node.bare.children, rest) := by
  have hparse := isParse_of_parseSound h
  have hcomment : node.isComment = false := by
    unfold isComment isA
    rw [hl]
    cases k <;> first | rfl | cases hk
  obtain ⟨d, hd, hnd⟩ := hparse.bare_mem hc hnc hcomment
  have hplaced : (body .program).isPlaced false = true := rfl
  have hoccurs := respects_occurs (Nat.le_refl _) hplaced rfl rfl Follows.refl
    (fun _ ht => absurd ht List.not_mem_nil) (outcome_of_parseSound h)
  exact ⟨⟨d, hd, hnd⟩, hoccurs d hd node.bare hnd k (by rw [label_bare, hl]) hk⟩

/-- The same of a declaration. -/
theorem bounds_of_outcome (h : IsParse text tree) {d n : Tree} (hd : d ∈ bareAll tree.children)
    (hn : n ∈ d.preorder) (hk : isDeclaration k = true) {before own rest : List Token}
    (hcode : Token.code text.toList = before ++ (own ++ rest))
    (hout : outcome (body k) [] (own ++ rest) = some (n.children, rest)) {t u : Token}
    {ts us : List Token} (hfirst : own = t :: ts) (hlast : own = us ++ [u])
    (hfin : ∀ v ∈ own, v.lexeme ≠ .finish) :
    n.start = t.span.start ∧ n.stop = u.span.stop := by
  have hplaced : (body k).isPlaced false = true := isPlaced_rules (.node k)
  have hinner : isInner (.node k) = true := by cases k <;> first | rfl | cases hk
  exact h.bounds_of_derives hd hn hinner hcode (derives_of_outcome hplaced hout) hfirst hlast hfin

/-- **A declaration of a sound text was read from tokens that stand on their
own**: it begins with the first of them, which is a modifier, and ends with
the last of them, which is a semicolon or a brace. -/
theorem IsMatch.exists_own (h : parseSound text = .ok tree) (hmatch : IsMatch tree node mods)
    (hl : node.label = .named k) (hk : isDeclaration k = true) :
    ∃ before t ts us u rest, Token.code text.toList = before ++ (t :: ts ++ rest)
      ∧ t.lexeme ∈ modifierLexemes ∧ t :: ts = us ++ [u]
      ∧ (u.lexeme = .punct .semicolon ∨ u.lexeme = .punct .braceClose)
      ∧ Stands (body k) (t :: ts) node.bare.children
      ∧ t.span.start = node.start ∧ u.span.stop = node.stop := by
  have hparse := isParse_of_parseSound h
  obtain ⟨c, hc, hnc⟩ := hmatch.exists_child hparse
  obtain ⟨⟨d, hd, hnd⟩, ts, rest, hfollows, hout⟩ :=
    exists_outcome_of_declaration h hc hnc hl hk
  have hplaced : (body k).isPlaced false = true := isPlaced_rules (.node k)
  have hderives := derives_of_outcome hplaced hout
  -- the first token is a modifier
  have hmods : mods.bare ∈ node.bare.children := by
    rw [children_bare]
    refine mem_bareAll_iff.2 ⟨mods, hmatch.2.2.1, ?_, rfl⟩
    have hm : mods.label = .named .modifiers := by simpa [isA] using hmatch.2.2.2
    simp [isComment, isA, hm]
  obtain ⟨t, ts', rfl, ht⟩ := head_of_declaration hk hderives hmods (by
    rw [label_bare]
    exact beq_iff_eq.1 hmatch.2.2.2)
  -- it comes after other tokens, and those up to the body stand on their own
  obtain ⟨own, hown, hstands⟩ := (endsWithBody_declaration hk).exists_own hout
  obtain ⟨us, u, hlast, hu⟩ := exists_last_of_closed hstands.closed
  obtain ⟨ts, rfl⟩ : ∃ ts, own = t :: ts := by
    cases own with
    | nil => exact absurd hlast.symm (by simp)
    | cons v vs =>
      obtain ⟨rfl, -⟩ := List.cons.inj hown
      exact ⟨vs, rfl⟩
  obtain ⟨before, hcode⟩ := hfollows.exists_append fun v hv p q hq => by
    cases hv
    exact ne_afterAngle_of_modifier ht hq
  rw [hown] at hcode hout
  obtain ⟨hstart, hstop⟩ := bounds_of_outcome hparse hd hnd hk hcode hout rfl hlast
    (ne_finish_of_closed hstands.closed)
  rw [Tree.start, span_bare] at hstart
  rw [Tree.stop, span_bare] at hstop
  exact ⟨before, t, ts, us, u, rest, hcode, ht, hlast, hu, hstands, hstart.symm, hstop.symm⟩

end Own

end Target

end JavaMutants
