import JavaMutants.Proofs.Syntax.Analysis

/-!
# What a rule can begin with

With a token in front, a rule either reads nothing at all or begins with
that token. Whether it can do the one (`Rule.passes`) and the other
(`Rule.opens`) is told by its form, given the same of the parts it names;
`Derives.opens` is the statement about derivations.

This is how alternatives are ruled out: of several rules only those are
read that can begin with the token in front (`Derives.of_alt`).
-/

namespace JavaMutants.Syntax

variable {Part : Type} {grammar : Part → Rule Part}

/-- **Whether a rule can read nothing** in front of a lexeme, given the
same of the parts. -/
def Rule.passes (x : Lexeme) (silent : Part → Bool) : Rule Part → Bool
  | .nothing | .many _ | .steps _ | .keep => true
  | .part p => silent p
  | .both a b | .onto a b => a.passes x silent && b.passes x silent
  | .either a b => a.passes x silent || b.passes x silent
  | .barring lexemes => !lexemes.contains x
  | .field _ a => a.passes x silent
  | _ => false

/-- **Whether a rule can begin with a lexeme**, given the same of the
parts. A node that could stand over nothing counts as beginning with
anything. -/
def Rule.opens (x : Lexeme) (silent heads : Part → Bool) : Rule Part → Bool
  | .part p => heads p
  | .angle =>
    match x with
    | .punct p => p.afterAngle?.isSome
    | _ => false
  | .finish => x == .finish
  | .both a b | .onto a b =>
    a.opens x silent heads || a.passes x silent && b.opens x silent heads
  | .either a b => a.opens x silent heads || b.opens x silent heads
  | .many a | .field _ a | .steps a => a.opens x silent heads
  | .tree _ a | .wrap _ _ _ a => a.opens x silent heads || a.passes x silent
  | rule => (rule.token? x).isSome

theorem Rule.opens_of_token? {rule : Rule Part} {x : Lexeme} {label : Label}
    (h : rule.token? x = some label) (silent heads : Part → Bool) :
    rule.opens x silent heads = true := by
  have hsome := Option.isSome_of_eq_some h
  rcases Rule.token?_eq_some h with ⟨p, rfl, -⟩ | ⟨k, rfl, -⟩ | ⟨kind, taken, w, rfl, -⟩ |
    ⟨kind, rfl, -⟩ <;> exact hsome

section Tables

variable {silent heads : Part → Bool} {x : Lexeme}

/-- **A rule reads nothing or begins with the token in front.** -/
theorem Derives.opens (hsilent : ∀ p, (grammar p).passes x silent = true → silent p = true)
    (hopen : ∀ p, (grammar p).opens x silent heads = true → heads p = true) {rule : Rule Part}
    {left : Option (List Tree)} {ts rest : List Token} {nodes : List Tree}
    (h : Derives grammar rule left ts nodes rest) {t : Token} {us : List Token}
    (hts : ts = t :: us) (ht : t.lexeme = x) :
    (nodes = left.getD [] ∧ rest = ts ∧ rule.passes x silent = true)
      ∨ rule.opens x silent heads = true := by
  induction h with
  | nothing => exact .inl ⟨rfl, rfl, rfl⟩
  | token h =>
    obtain ⟨rfl, -⟩ := List.cons.inj hts
    rw [ht] at h
    exact .inr (Rule.opens_of_token? h _ _)
  | angle h =>
    obtain ⟨rfl, -⟩ := List.cons.inj hts
    obtain rfl := ht
    exact .inr (Option.isSome_of_eq_some h)
  | finish =>
    obtain ⟨rfl, -⟩ := List.cons.inj hts
    exact .inr (beq_iff_eq.2 ht.symm)
  | part _ ih =>
    rcases ih hts with ⟨hn, hr, hp⟩ | ho
    · exact .inl ⟨hn, hr, hsilent _ hp⟩
    · exact .inr (hopen _ ho)
  | both _ _ iha ihb =>
    simp only [Rule.passes, Rule.opens, Bool.and_eq_true, Bool.or_eq_true]
    rcases iha hts with ⟨rfl, hmid, hpa⟩ | ho
    · rcases ihb (hmid.trans hts) with ⟨rfl, hrest, hpb⟩ | ho
      · exact .inl ⟨rfl, hrest.trans hmid, hpa, hpb⟩
      · exact .inr (.inr ⟨hpa, ho⟩)
    · exact .inr (.inl ho)
  | first _ ih =>
    simp only [Rule.passes, Rule.opens, Bool.or_eq_true]
    exact (ih hts).imp (fun ⟨hn, hr, hp⟩ => ⟨hn, hr, .inl hp⟩) .inl
  | second _ ih =>
    simp only [Rule.passes, Rule.opens, Bool.or_eq_true]
    exact (ih hts).imp (fun ⟨hn, hr, hp⟩ => ⟨hn, hr, .inr hp⟩) .inr
  | manyNil => exact .inl ⟨rfl, rfl, rfl⟩
  | manyCons _ _ iha ihs =>
    rcases iha hts with ⟨rfl, hmid, -⟩ | ho
    · exact (ihs (hmid.trans hts)).imp_left fun ⟨hn, hr, hp⟩ => ⟨hn, hr.trans hmid, hp⟩
    · exact .inr ho
  | barring hx =>
    obtain ⟨rfl, -⟩ := List.cons.inj hts
    rw [ht] at hx
    exact .inl ⟨rfl, rfl, by simpa [Rule.passes] using hx⟩
  | field _ ih => exact (ih hts).imp_left fun ⟨hn, hr, hp⟩ => ⟨by rw [hn]; rfl, hr, hp⟩
  | tree _ ih =>
    rw [Rule.opens, Bool.or_eq_true]
    exact .inr ((ih hts).elim (fun h => .inr h.2.2) .inl)
  | onto _ _ iha ihb =>
    simp only [Rule.passes, Rule.opens, Bool.and_eq_true, Bool.or_eq_true]
    rcases iha hts with ⟨rfl, hmid, hpa⟩ | ho
    · rcases ihb (hmid.trans hts) with ⟨rfl, hrest, hpb⟩ | ho
      · exact .inl ⟨rfl, hrest.trans hmid, hpa, hpb⟩
      · exact .inr (.inr ⟨hpa, ho⟩)
    · exact .inr (.inl ho)
  | stepsNil => exact .inl ⟨rfl, rfl, rfl⟩
  | stepsCons _ _ iha ihs =>
    rcases iha hts with ⟨rfl, hmid, -⟩ | ho
    · exact (ihs (hmid.trans hts)).imp_left fun ⟨hn, hr, hp⟩ => ⟨hn, hr.trans hmid, hp⟩
    · exact .inr ho
  | keep => exact .inl ⟨rfl, rfl, rfl⟩
  | wrap _ _ ih =>
    rw [Rule.opens, Bool.or_eq_true]
    exact .inr ((ih hts).elim (fun h => .inr h.2.2) .inl)

end Tables

/-- One of several rules is read. -/
theorem Derives.of_alt {rules : List (Rule Part)} (hne : rules ≠ []) {ts rest : List Token}
    {nodes : List Tree} (h : Derives grammar (Rule.alt rules) none ts nodes rest) :
    ∃ r ∈ rules, Derives grammar r none ts nodes rest := by
  induction rules with
  | nil => exact absurd rfl hne
  | cons r rules ih =>
    cases rules with
    | nil => exact ⟨r, List.mem_singleton.2 rfl, h⟩
    | cons s rules =>
      rcases h.of_either with h | h
      · exact ⟨r, List.mem_cons_self, h⟩
      · obtain ⟨r', hr', h'⟩ := ih (List.cons_ne_nil s rules) h
        exact ⟨r', List.mem_cons_of_mem r hr', h'⟩

end JavaMutants.Syntax
