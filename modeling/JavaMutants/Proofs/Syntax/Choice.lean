import JavaMutants.Proofs.Syntax.Boundary
import JavaMutants.Proofs.Syntax.Locality

/-!
# Which alternative is read

Of several alternatives the first that can be read is (`outcome_alt`). What
rules an alternative out is mostly the token in front (`refuses`). Where
declarations begin alike, with modifiers, it is the token after those: the
modifiers are the same to all of them (`outcome_both_eq_none`).

Two things need more. Annotations alone go on as far as they come first
among the modifiers (`outcome_many_either`), so a declaration is not taken
for that of a module or a package. And after a modifier that also begins a
statement or an initializer there is neither a round bracket nor a brace
(`ne_of_derives_mods`).
-/

namespace JavaMutants.Syntax.Grammar

open Rule Syntax.Tree

/-! ## The token in front -/

/-- **Whether a rule cannot be read** in front of a lexeme, given parts that
do not begin with it. -/
def refuses (x : Lexeme) (blocked : List Part) (rule : Rules) : Bool :=
  rule.isPlaced false && !rule.passes x isSilent
    && !rule.opens x isSilent fun q => !blocked.contains q

section Refusal

variable {x : Lexeme} {blocked : List Part} {rule : Rules} {t : Token} {ts : List Token}

theorem not_derives_of_refuses (hb : isBlocked x blocked = true)
    (hr : refuses x blocked rule = true) (ht : t.lexeme = x) {nodes : List Tree}
    {rest : List Token} : ¬ Derives rules rule none (t :: ts) nodes rest := by
  simp only [refuses, Bool.and_eq_true, Bool.not_eq_true'] at hr
  intro h
  rcases opens_of_derives hb ht h with ⟨-, -, hp⟩ | ho
  · rw [hr.1.2] at hp
    cases hp
  · rw [hr.2] at ho
    cases ho

/-- **What cannot be read is not read.** -/
theorem outcome_of_refuses (hb : isBlocked x blocked = true)
    (hr : refuses x blocked rule = true) (ht : t.lexeme = x) (left : List Tree) :
    outcome rule left (t :: ts) = none := by
  have hplaced : rule.isPlaced false = true := by
    simp only [refuses, Bool.and_eq_true] at hr
    exact hr.1.1
  exact outcome_eq_none hplaced fun _ _ => not_derives_of_refuses hb hr ht

/-- What is optional and cannot be read is left out. -/
theorem outcome_opt_of_refuses (hp : rule.isPaced isTaking = true)
    (hb : isBlocked x blocked = true) (hr : refuses x blocked rule = true) (ht : t.lexeme = x)
    (left : List Tree) : outcome (opt rule) left (t :: ts) = some ([], t :: ts) := by
  have hpo : (either rule nothing).isPaced isTaking = true := Bool.and_eq_true_iff.2 ⟨hp, rfl⟩
  show outcome (either rule nothing) left (t :: ts) = _
  rw [outcome_either hpo, outcome_of_refuses hb hr ht, Option.none_or, outcome_nothing]

/-- **A token that cannot be crossed is not read** by a rule that keeps
count of brackets and takes a token. -/
theorem outcome_eq_none_of_cross? (hplaced : rule.isPlaced false = true)
    (htrack : rule.track? false isBalanced .outer = some .outer)
    (htakes : rule.consumes isTaking = true) (ht : t.lexeme.cross? false .outer = none)
    (left : List Tree) : outcome rule left (t :: ts) = none := by
  refine Option.eq_none_iff_forall_ne_some.2 fun ⟨nodes, rest⟩ hy => ?_
  have hsame := (derives_of_outcome hplaced hy).beyond track?_of_isBalanced htrack
  have hlen := length_of_outcome hy
  obtain ⟨before, -, hrest, -⟩ := exists_crossAll? false .outer rest
  rw [← hsame, beyond_cons_of_none ht] at hrest
  rw [hrest, htakes] at hlen
  simp at hlen
  omega

end Refusal

/-! ## Alternatives -/

section Alternatives

variable {a b : Rules} {left : List Tree} {ts : List Token}

theorem isPaced_alt {rs : List Rules} (h : ∀ r ∈ rs, r.isPaced isTaking = true) :
    (alt rs).isPaced isTaking = true := by
  induction rs with
  | nil => rfl
  | cons r rs ih =>
    obtain ⟨hr, hrs⟩ := List.forall_mem_cons.1 h
    cases rs with
    | nil => exact hr
    | cons r' rs => exact Bool.and_eq_true_iff.2 ⟨hr, ih hrs⟩

/-- **Of several rules the first that can be read is read.** -/
theorem outcome_alt (rs : List Rules) {rs' : List Rules} {r : Rules}
    (hp : ∀ r' ∈ rs ++ r :: rs', r'.isPaced isTaking = true)
    (hnone : ∀ r' ∈ rs, outcome r' left ts = none) {x : List Tree × List Token}
    (h : outcome r left ts = some x) : outcome (alt (rs ++ r :: rs')) left ts = some x := by
  induction rs with
  | nil =>
    cases rs' with
    | nil => exact h
    | cons r' rs' =>
      have hpe : (either r (alt (r' :: rs'))).isPaced isTaking = true := isPaced_alt hp
      show outcome (either r (alt (r' :: rs'))) left ts = some x
      rw [outcome_either hpe, h, Option.some_or]
  | cons r₁ rs ih =>
    obtain ⟨hr₁, hrs⟩ := List.forall_mem_cons.1 hp
    obtain ⟨hnone₁, hnones⟩ := List.forall_mem_cons.1 hnone
    have hpe : (either r₁ (alt (rs ++ r :: rs'))).isPaced isTaking = true :=
      Bool.and_eq_true_iff.2 ⟨hr₁, isPaced_alt hrs⟩
    have halt : alt (r₁ :: rs ++ r :: rs') = either r₁ (alt (rs ++ r :: rs')) := by
      cases rs <;> rfl
    rw [halt, outcome_either hpe, hnone₁, Option.none_or]
    exact ih hrs hnones

/-- What begins as something that can be read and goes on as nothing can
is not read. -/
theorem outcome_both_eq_none (hp : (both a b).isPaced isTaking = true) {ns : List Tree}
    {mid : List Token} (ha : outcome a left ts = some (ns, mid)) (hb : outcome b [] mid = none) :
    outcome (both a b) left ts = none := by
  rw [outcome_both hp, ha, Option.bind_some, hb, Option.map_none]

/-- **A rule as often as it can be read comes first** among the repetitions
of it or another one. -/
theorem outcome_many_either (hp : (many (either a b)).isPaced isTaking = true)
    (hpa : (many a).isPaced isTaking = true) {ns : List Tree} {mid : List Token}
    (h : outcome (many a) [] ts = some (ns, mid)) :
    outcome (many (either a b)) [] ts
      = (outcome (many (either a b)) [] mid).map fun y => (ns ++ y.1, y.2) := by
  obtain ⟨hc, hpe⟩ := Bool.and_eq_true_iff.1 hp
  obtain ⟨hca, -⟩ := Bool.and_eq_true_iff.1 hpa
  generalize hn : ts.length = n
  induction n using Nat.strongRecOn generalizing ts ns with
  | _ n ih =>
    rcases (outcome_many_eq_some_iff hpa).1 h with ⟨n₁, ts₁, ms, rfl, ha, hs⟩ | ⟨-, rfl, rfl⟩
    · have hlen := length_of_outcome ha
      rw [hca] at hlen
      have hlt : ts₁.length < n := by
        simp at hlen
        omega
      have he : outcome (either a b) [] ts = some (n₁, ts₁) := by
        rw [outcome_either hpe, ha, Option.some_or]
      -- what is left can be read, be it as nothing
      obtain ⟨y, hy⟩ : ∃ y, outcome (many (either a b)) [] mid = some y := by
        rw [outcome_many hp]
        exact Option.isSome_iff_exists.1 (by simp)
      rw [outcome_many hp, he, Option.bind_some, ih _ hlt hs rfl, hy]
      simp
    · simp

end Alternatives

/-! ## Modifiers -/

/-- The lexemes that begin modifiers. -/
def modifierLexemes : List Lexeme :=
  .punct .at :: .punct .nonSealed :: Words.modifiers.map fun k => .word (some k)

/-- A modifier. -/
def modifier : Rules :=
  either (part .annotationAny) (alt (sym .nonSealed :: Words.modifiers.map key))

theorem rules_modifiers : rules .modifiers = tree .modifiers (both modifier (many modifier)) := rfl

section Modifiers

variable {ts mid rest : List Token} {nodes : List Tree}

/-- An annotation begins with its mark. -/
theorem head_of_annotationAny (h : Derives rules (part .annotationAny) none ts nodes rest) :
    ∃ s us, ts = ⟨.punct .at, s⟩ :: us := by
  rcases h.of_part.of_either with h | h
  · obtain ⟨cs, rfl, hcs⟩ := h.of_part.of_tree
    obtain ⟨_, _, _, rfl, hat, -⟩ := hcs.of_both
    obtain ⟨s, rfl, -⟩ := hat.of_mark
    exact ⟨s, _, rfl⟩
  · obtain ⟨cs, rfl, hcs⟩ := h.of_part.of_tree
    obtain ⟨_, _, _, rfl, hat, -⟩ := hcs.of_both
    obtain ⟨s, rfl, -⟩ := hat.of_mark
    exact ⟨s, _, rfl⟩

/-- **A modifier is one token or begins with the mark of an annotation.** -/
theorem cases_of_modifier (h : Derives rules modifier none ts nodes rest) :
    ∃ t us, ts = t :: us ∧ t.lexeme ∈ modifierLexemes
      ∧ (t.lexeme = .punct .at ∨ rest = us) := by
  rcases h.of_either with h | h
  · obtain ⟨s, us, rfl⟩ := head_of_annotationAny h
    exact ⟨_, us, rfl, List.mem_cons_self, .inl rfl⟩
  · obtain ⟨r, hr, h⟩ := h.of_alt (List.cons_ne_nil _ _)
    rcases List.mem_cons.1 hr with rfl | hr
    · obtain ⟨s, rfl, -⟩ := h.of_mark
      exact ⟨_, rest, rfl, List.mem_cons_of_mem _ List.mem_cons_self, .inr rfl⟩
    · obtain ⟨k, hk, rfl⟩ := List.mem_map.1 hr
      obtain ⟨s, rfl, -⟩ := h.of_word
      exact ⟨_, rest, rfl, List.mem_cons_of_mem _ (List.mem_cons_of_mem _
        (List.mem_map.2 ⟨k, hk, rfl⟩)), .inr rfl⟩

/-- **Modifiers begin with a modifier.** -/
theorem head_of_modifiers (h : Derives rules (part .modifiers) none ts nodes rest) :
    ∃ t us, ts = t :: us ∧ t.lexeme ∈ modifierLexemes := by
  obtain ⟨cs, rfl, hcs⟩ := h.of_part.of_tree
  obtain ⟨_, _, _, rfl, hfirst, -⟩ := hcs.of_both
  obtain ⟨t, us, rfl, ht, -⟩ := cases_of_modifier hfirst
  exact ⟨t, us, rfl, ht⟩

/-- After a modifier of one token there is another modifier, or modifiers
end. -/
theorem second_of_modifiers {t u : Token} {us : List Token}
    (h : Derives rules (part .modifiers) none (t :: u :: us) nodes rest)
    (ht : t.lexeme ≠ .punct .at) : u.lexeme ∈ modifierLexemes ∨ rest = u :: us := by
  obtain ⟨cs, rfl, hcs⟩ := h.of_part.of_tree
  obtain ⟨_, mid, _, rfl, hfirst, hothers⟩ := hcs.of_both
  obtain ⟨t', us', heq, -, hmid⟩ := cases_of_modifier hfirst
  obtain ⟨rfl, rfl⟩ := List.cons.inj heq
  obtain rfl := hmid.resolve_left ht
  rcases hothers.of_many with ⟨-, rfl⟩ | ⟨_, _, _, -, hsecond, -⟩
  · exact .inr rfl
  · obtain ⟨v, vs, heq, hv, -⟩ := cases_of_modifier hsecond
    obtain ⟨rfl, -⟩ := List.cons.inj heq
    exact .inl hv

/-- **Annotations alone end where modifiers do**, or in front of one. -/
theorem outcome_annotations {ns : List Tree}
    (h : outcome (part .modifiers) [] ts = some (ns, mid)) :
    ∃ ms mid', outcome (part .annotations) [] ts = some (ms, mid')
      ∧ (mid' = mid ∨ ∃ t us, mid' = t :: us ∧ t.lexeme ∈ modifierLexemes) := by
  have hp : (both modifier (many modifier)).isPaced isTaking = true := by decide
  have hpm : (many modifier).isPaced isTaking = true := by decide
  have hpa : (many (part .annotationAny)).isPaced isTaking = true := by decide
  -- modifiers are read as often as there are some
  rw [outcome_part, rules_modifiers] at h
  obtain ⟨cs, -, hcs⟩ := (outcome_tree_eq_some_iff hp).1 h
  obtain ⟨_, _, _, rfl, hfirst, hothers⟩ := (outcome_both_eq_some_iff hp).1 hcs
  have hmany : outcome (many modifier) [] ts = some (_, mid) :=
    (outcome_many_eq_some_iff hpm).2 (.inl ⟨_, _, _, rfl, hfirst, hothers⟩)
  obtain ⟨⟨ms, mid'⟩, hann⟩ : ∃ y, outcome (many (part .annotationAny)) [] ts = some y := by
    rw [outcome_many hpa]
    exact Option.isSome_iff_exists.1 (by simp)
  refine ⟨ms, mid', (outcome_part _).trans hann, ?_⟩
  unfold modifier at hmany
  rw [outcome_many_either hpm hpa hann, Option.map_eq_some_iff] at hmany
  obtain ⟨⟨ns', mid''⟩, hmid, heq⟩ := hmany
  obtain rfl : mid'' = mid := congrArg Prod.snd heq
  rcases (outcome_many_eq_some_iff hpm).1 hmid with ⟨_, _, _, -, hnext, -⟩ | ⟨-, -, rfl⟩
  · have hd : Derives rules modifier none mid' _ _ := derives_of_outcome rfl hnext
    obtain ⟨t, us, rfl, ht, -⟩ := cases_of_modifier hd
    exact .inr ⟨t, us, rfl, ht⟩
  · exact .inl rfl

end Modifiers

end JavaMutants.Syntax.Grammar
