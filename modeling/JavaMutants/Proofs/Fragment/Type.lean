import JavaMutants.Proofs.Fragment.Body
import JavaMutants.Proofs.Fragment.Reading
import JavaMutants.Proofs.Syntax.Content
import JavaMutants.Proofs.Syntax.Word

/-!
# The type of a method

Every method has a type before its name (`exists_type_of_method`), whatever modifiers,
annotations, type parameters and comments come first. What kind of node it is and what
its text is are two things: a type is a node of the kind of `void` or of `boolean`
exactly if that word is all its text (`isA_iff_slice?`). A longer type that begins with
the word is one of an array and has a bracket in it, and a longer word is another word.
-/

namespace JavaMutants

open Syntax Text Tree Grammar Rule

/-! ## Types that are words -/

/-- The keywords that are types by themselves, and the kinds of the nodes that they
are. -/
def wordTypes : List (Keyword × Kind) := [(.boolean_, .booleanType), (.void_, .voidType)]

section Types

variable {k : Keyword} {kind : Kind} {ts rest : List Token} {nodes : List Tree}

/-- **A type of one word is read from that word**, and from nothing else. -/
theorem cases_of_simpleType (hk : (k, kind) ∈ wordTypes)
    (h : Derives rules (part (.simpleType .body)) none ts nodes rest) :
    (∃ s, ts = ⟨.word (some k), s⟩ :: rest ∧ nodes = [tokenLeaf (.named kind) s])
      ∨ (∀ n ∈ nodes, n.label ≠ .named kind) ∧ ∀ s us, ts ≠ ⟨.word (some k), s⟩ :: us := by
  -- a rule that neither gives such a node nor begins with such a word
  have hother : ∀ {r : Rules}, r.shows (.named kind) (fun _ => true) = false →
      refuses (.word (some k)) [] r = true → Derives rules r none ts nodes rest →
      (∀ n ∈ nodes, n.label ≠ .named kind) ∧ ∀ s us, ts ≠ ⟨.word (some k), s⟩ :: us := by
    intro r hshows hrefuses hr
    refine ⟨fun n hn hl => ?_, ?_⟩
    · rcases hr.shows rfl (fun _ _ => rfl) hn hl with ⟨m, hm, -⟩ | hs
      · exact absurd hm List.not_mem_nil
      · rw [hshows] at hs
        cases hs
    · rintro s us rfl
      exact not_derives_of_refuses rfl hrefuses rfl hr
  obtain ⟨r, hr, hd⟩ := h.of_part.of_alt (List.cons_ne_nil _ _)
  simp only [wordTypes, List.mem_cons, Prod.mk.injEq, List.not_mem_nil, or_false] at hk hr
  rcases hk with ⟨rfl, rfl⟩ | ⟨rfl, rfl⟩ <;> rcases hr with rfl | rfl | rfl | rfl | rfl
  case inl.inr.inr.inl | inr.inr.inr.inr.inl => exact .inl hd.of_word
  all_goals exact .inr (hother rfl rfl hd)

/-- A type begins with a word. -/
theorem head_of_simpleType (h : Derives rules (part (.simpleType .body)) none ts nodes rest) :
    ∃ w s us, ts = ⟨.word w, s⟩ :: us := by
  have hkeys : ∀ (ks : List Keyword) {cs : List Tree}, ks ≠ [] →
      Derives rules (alt (ks.map key)) none ts cs rest → ∃ w s us, ts = ⟨.word w, s⟩ :: us := by
    intro ks cs hne hks
    obtain ⟨r, hr, hd⟩ := hks.of_alt (by simpa using hne)
    obtain ⟨k, -, rfl⟩ := List.mem_map.1 hr
    obtain ⟨s, rfl, -⟩ := hd.of_word
    exact ⟨some k, s, rest, rfl⟩
  obtain ⟨r, hr, hd⟩ := h.of_part.of_alt (List.cons_ne_nil _ _)
  simp only [List.mem_cons, List.not_mem_nil, or_false] at hr
  rcases hr with rfl | rfl | rfl | rfl | rfl
  · obtain ⟨cs, -, hcs⟩ := hd.of_tree
    exact hkeys [.byte_, .short_, .int_, .long_, .char_] nofun hcs
  · obtain ⟨cs, -, hcs⟩ := hd.of_tree
    exact hkeys [.float_, .double_] nofun hcs
  · obtain ⟨s, rfl, -⟩ := hd.of_word
    exact ⟨_, s, rest, rfl⟩
  · obtain ⟨s, rfl, -⟩ := hd.of_word
    exact ⟨_, s, rest, rfl⟩
  · cases hd with
    | token hx => cases hx
    | onto hname _ =>
      obtain ⟨w, s, rfl, -⟩ := hname.of_name
      exact ⟨w, s, _, rfl⟩

/-- A type is one node, which has no name before it is given one. -/
theorem exists_of_plainType (h : Derives rules (part (.plainType .body)) none ts nodes rest) :
    ∃ n, nodes = [n] ∧ n.field = none := by
  have hcases : ∀ p, tailParts.contains p = true →
      p = .plainType .body ∨ p = .simpleType .body ∨ p = .node .typeParameters := by
    simp [tailParts]
  have hsingle : ∀ p, tailParts.contains p = true → (rules p).isSingle tailParts.contains = true :=
    fun p hp => by rcases hcases p hp with rfl | rfl | rfl <;> rfl
  obtain ⟨n, rfl⟩ := h.exists_eq_singleton hsingle rfl nofun
  refine ⟨n, rfl, ?_⟩
  by_contra hne
  obtain ⟨f, hf⟩ := Option.ne_none_iff_exists'.1 hne
  have hknows : ∀ p, (rules p).knows f (fun q => !tailParts.contains q) = true →
      (!tailParts.contains p) = true := by
    intro p hp
    by_contra hmem
    rcases hcases p (by simpa using hmem) with rfl | rfl | rfl <;> cases hp
  exact h.knows hknows rfl nofun n (List.mem_singleton_self n) hf

/-- There is a bracket in dimensions. -/
theorem contains_dimensions
    (h : Derives rules (field .dimensions (part .dimensions)) none ts nodes rest) :
    Contains (· == .punct .bracketOpen) nodes := by
  have hparts : ∀ p, List.contains [.dimensions, .node .dimensions] p = true →
      (rules p).contains (· == .punct .bracketOpen)
        (List.contains [.dimensions, .node .dimensions]) = true := by
    intro p hp
    simp only [List.contains_cons, List.contains_nil, Bool.or_false, Bool.or_eq_true,
      beq_iff_eq] at hp
    rcases hp with rfl | rfl <;> rfl
  exact h.contains hparts (.inl rfl)

/-- **The type of a member** is a word that is one by itself, or it begins with another word,
or there is a bracket in it. -/
theorem cases_of_memberType (hk : (k, kind) ∈ wordTypes)
    (h : Derives rules memberType none ts nodes rest) :
    ∃ n w s us, nodes = [n] ∧ n.field = some .type_ ∧ ts = ⟨.word w, s⟩ :: us
      ∧ ((w = some k ∧ n = (tokenLeaf (.named kind) s).withField (some .type_))
        ∨ n.label ≠ .named kind ∧ (w = some k → Contains (· == .punct .bracketOpen) [n])) := by
  obtain ⟨ns, rfl, htype⟩ := h.of_field
  obtain ⟨n, rfl, hnone⟩ := exists_of_plainType htype
  have hfield : (n.withField (some .type_)).field = some .type_ := by
    rw [field_withField, hnone]
    rfl
  refine ⟨n.withField (some .type_), ?_⟩
  have honto := htype.of_part
  cases honto with
  | token hx => cases hx
  | onto hsimple hstep =>
    obtain ⟨w, s, us, rfl⟩ := head_of_simpleType hsimple
    refine ⟨w, s, us, rfl, hfield, rfl, ?_⟩
    rw [label_withField]
    rcases hstep.of_either with hwrap | hkeep
    · cases hwrap with
      | wrap _ hdimensions =>
        refine .inr ⟨?_, fun _ => ?_⟩
        · simp only [wordTypes, List.mem_cons, Prod.mk.injEq, List.not_mem_nil, or_false] at hk
          rcases hk with ⟨-, rfl⟩ | ⟨-, rfl⟩ <;> nofun
        · exact ((contains_dimensions hdimensions).append_right _).above.map_withField
    · cases hkeep
      rcases cases_of_simpleType hk hsimple with ⟨s', hts, hn⟩ | ⟨hlabel, hts⟩
      · obtain ⟨heq, -⟩ := List.cons.inj hts
        cases heq
        rw [List.singleton_inj.1 hn]
        exact .inl ⟨rfl, rfl⟩
      · refine .inr ⟨hlabel n (List.mem_singleton_self n), ?_⟩
        rintro rfl
        exact absurd rfl (hts s us)

/-- **What is derived is known as a type only if the rule says so itself**, or makes an
object. -/
theorem field_ne_type_of_derives {rule : Rules}
    (hr : rule.knows .type_ (· == .creation) = false)
    (h : Derives rules rule none ts nodes rest) : ∀ n ∈ nodes, n.field ≠ some .type_ := by
  have hparts : ∀ p, (rules p).knows .type_ (· == .creation) = true → (p == .creation) = true := by
    intro p hp
    have h' := forall_part (fun p => p == .creation || !(rules p).knows .type_ (· == .creation))
      (fun k => rfl) (by rfl) (fun l n => by rw [rules_binary_high]; rfl) p
    simpa [hp] using h'
  exact h.knows hparts hr nofun

end Types

/-! ## The type of a method -/

section Sound

variable {text : String} {tree c node : Tree}

/-- **Every method has a type**, which was read as the type of a member. -/
theorem exists_type_of_method (h : parseSound text = .ok tree) (hc : c ∈ tree.children)
    (hn : node ∈ c.preorder) (hl : node.label = .named .methodDeclaration) :
    ∃ type ts rest, node.child? .type_ = some type ∧ Follows (Token.code text.toList) ts
      ∧ Derives rules memberType none ts [type.bare] rest := by
  have hplaced : (body .methodDeclaration).isPlaced false = true :=
    isPlaced_rules (.node .methodDeclaration)
  obtain ⟨-, ts, rest, hfollows, hout⟩ := Target.exists_outcome_of_declaration h hc hn hl rfl
  obtain ⟨mods, _, _, heq, hmods, hrest⟩ := (derives_of_outcome hplaced hout).of_both
  obtain ⟨params, _, _, rfl, hparams, hrest⟩ := hrest.of_both
  obtain ⟨types, _, others, rfl, htype, hothers⟩ := hrest.of_both
  obtain ⟨n, -, -, -, rfl, hfield, -⟩ := cases_of_memberType List.mem_cons_self htype
  rw [children_bare, List.singleton_append, ← List.append_assoc] at heq
  obtain ⟨type, hchild, rfl⟩ := exists_child?_of_bareAll (isParse_of_parseSound h) hc hn heq hfield
    (fun n hn => (List.mem_append.1 hn).elim (field_ne_type_of_derives rfl hmods n)
      (field_ne_type_of_derives rfl hparams n))
    (field_ne_type_of_derives rfl hothers)
  exact ⟨type, _, _, hchild, hfollows.trans (hmods.follows.trans hparams.follows), htype⟩

/-- What has the text of a keyword has no bracket in it. -/
theorem not_contains_bracket (h : IsParse text tree) (hn : node ∈ c.preorder)
    (hc : c ∈ bareAll tree.children) {k : Keyword}
    (hs : slice? text node.start node.stop = some k.text) :
    ¬ Contains (· == .punct .bracketOpen) [node] := by
  rintro ⟨⟨label, s⟩, hx, hlabel⟩
  obtain ⟨t, ht, hleaf⟩ := mem_leavesAll_iff.1 hx
  obtain rfl := List.mem_singleton.1 ht
  have hcode : (label, s) ∈ leavesAll (bareAll tree.children) :=
    mem_leavesAll_iff.2 ⟨c, hc, mem_leaves_of_mem_preorder hn hleaf⟩
  obtain rfl : label = .punct .bracketOpen := by
    simpa [h.whole _ hcode] using hlabel
  obtain ⟨a, d, htext, hspan⟩ := h.takes.exists_spelling (Token.lies_code text.toList) hcode
  obtain ⟨b, e, rfl, hb, hstop⟩ := slice?_eq_some_iff.1 hs
  obtain ⟨hlo, hhi⟩ := (h.nested_code hc hn).bounds_leaf hleaf
  rw [hspan, ← hb] at hlo
  rw [hspan, ← hstop, ← hb] at hhi
  have hwithin : Punct.bracketOpen.text.toList <:+: k.text.toList := by
    refine Text.infix_of_byteLength (a := a) (u := b.toList) (c := d) (w := e.toList) ?_ ?_ ?_
    · rw [← List.nil_append (a ++ _), ← htext]
      simp
    · exact hlo
    · rw [byteLength_append b.toList]
      exact hhi
  have hpart := Keyword.isWordPart_of_mem_text (hwithin.subset (show '[' ∈ _ by decide))
  exact absurd hpart (by decide +kernel)

/-- **A type is a word by itself exactly if that is its text.** -/
theorem isA_iff_slice? (h : IsParse text tree) (hc : c ∈ tree.children) (hn : node ∈ c.preorder)
    (hcomment : node.isComment = false) {ts rest : List Token}
    (hfollows : Follows (Token.code text.toList) ts)
    (hderives : Derives rules memberType none ts [node.bare] rest) {k : Keyword} {kind : Kind}
    (hk : (k, kind) ∈ wordTypes) :
    node.isA kind = true ↔ slice? text node.start node.stop = some k.text := by
  obtain ⟨n, w, s, us, hns, -, rfl, hcases⟩ := cases_of_memberType hk hderives
  obtain rfl := List.singleton_inj.1 hns
  obtain ⟨d, hd, hnd⟩ := h.bare_mem hc hn hcomment
  obtain ⟨before, hcode⟩ := hfollows.exists_append (by
    rintro t ⟨⟩
    nofun)
  have ht : (⟨.word w, s⟩ : Token) ∈ Token.code text.toList :=
    hcode ▸ List.mem_append_right _ List.mem_cons_self
  have hlt : s.start < s.stop := h.lt_of_mem_scan (List.mem_filter.1 ht).1 nofun
  have hspan : node.bare.span = node.span := span_bare node
  -- it begins with that word
  obtain ⟨a, cs, hlies⟩ := (hcode ▸ Token.lies_code text.toList).of_append
  obtain ⟨ls, htakes, hls⟩ := hderives.takes count_le isRegular_rules rfl
  obtain ⟨hstart, hstop⟩ := (h.nested_code hd hnd).bounds_of_word rfl
    (show Takes _ node.bare.leaves _ by
      rw [show node.bare.leaves = ls by simpa using hls]
      exact htakes) hlies
  rw [Tree.start, hspan] at hstart
  rw [Tree.stop, hspan] at hstop
  rw [show node.start = s.start from hstart]
  constructor
  · intro hl
    rcases hcases with ⟨rfl, heq⟩ | ⟨hlabel, -⟩
    · rw [Tree.stop, ← hspan, heq]
      exact h.slice?_of_word ht rfl
    · rw [label_bare] at hlabel
      exact absurd (beq_iff_eq.1 hl) hlabel
  · intro hs
    obtain rfl := h.eq_of_slice?_word ht rfl hstop hs
    rcases hcases with ⟨-, heq⟩ | ⟨-, hbracket⟩
    · refine beq_iff_eq.2 ?_
      rw [← label_bare, heq, label_withField, tokenLeaf, if_pos hlt]
      rfl
    · exact absurd (hbracket rfl) (not_contains_bracket h hnd hd (by
        rw [Tree.start, Tree.stop, hspan, hstart]
        exact hs))

end Sound

end JavaMutants
