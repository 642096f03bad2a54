import JavaMutants.Proofs.Syntax.Grammar

/-!
# Brackets

How deep tokens lie in brackets, and that rules keep count of them. A
token is crossed at a depth and leads to another one (`Lexeme.cross?`);
what would close a bracket that is not open cannot be crossed. Strictly
taken, neither can what ends the head of a declaration, an opening brace
or a semicolon outside of all brackets.

What a rule does to the depth is told by its form (`Rule.track?`), given
the parts that leave it as it is. So no rule ever takes a token that
cannot be crossed, and what cannot be crossed next is the same before a
rule is read and after it (`Derives.beyond`).
-/

namespace JavaMutants.Syntax

/-- **How many brackets are open.** -/
structure Depth where
  /-- Round brackets. -/
  round : Nat
  /-- Braces, and what begins code in a quoted text. -/
  brace : Nat
deriving DecidableEq

namespace Depth

/-- Outside of all brackets. -/
def outer : Depth := ⟨0, 0⟩

/-- Deeper by some brackets. -/
def add (d c : Depth) : Depth := ⟨d.round + c.round, d.brace + c.brace⟩

@[simp] theorem outer_add (c : Depth) : outer.add c = c := by simp [add, outer]

theorem add_eq_outer_iff {d c : Depth} : d.add c = outer ↔ d = outer ∧ c = outer := by
  obtain ⟨r, b⟩ := d
  obtain ⟨r', b'⟩ := c
  simp only [add, outer, Depth.mk.injEq]
  omega

end Depth

/-- **The depth after a token**, if it can be crossed. -/
def Lexeme.cross? (strict : Bool) (d : Depth) : Lexeme → Option Depth
  | .punct .parenOpen => some ⟨d.round + 1, d.brace⟩
  | .punct .parenClose => if d.round = 0 then none else some ⟨d.round - 1, d.brace⟩
  | .punct .braceOpen =>
    if strict = true ∧ d = .outer then none else some ⟨d.round, d.brace + 1⟩
  | .punct .interpolate => some ⟨d.round, d.brace + 1⟩
  | .punct .braceClose => if d.brace = 0 then none else some ⟨d.round, d.brace - 1⟩
  | .punct .semicolon => if strict = true ∧ d = .outer then none else some d
  | .finish => none
  | _ => some d

/-- What can be crossed can be crossed further within, and leads as much
further. -/
theorem Lexeme.cross?_add {x : Lexeme} {d e c : Depth} (h : x.cross? false d = some e)
    {strict : Bool} (hc : strict = true → c ≠ .outer) :
    x.cross? strict (d.add c) = some (e.add c) := by
  have hne : ¬ (strict = true ∧ d.add c = .outer) := fun ⟨hs, hd⟩ =>
    hc hs (Depth.add_eq_outer_iff.1 hd).2
  have hopen : ∀ n m : Nat, n + 1 + m = n + m + 1 := fun n m => by omega
  cases x with
  | punct p =>
    cases p with
    | parenOpen | interpolate =>
      cases h
      simp [cross?, Depth.add, hopen]
    | braceOpen =>
      have h : some (Depth.mk d.round (d.brace + 1)) = some e := h
      cases h
      rw [cross?, if_neg hne]
      simp [Depth.add, hopen]
    | parenClose =>
      rw [cross?] at h ⊢
      split at h
      next => cases h
      next hd =>
        cases h
        rw [if_neg (by simp only [Depth.add]; omega)]
        simp only [Depth.add, Option.some.injEq, Depth.mk.injEq, and_true]
        omega
    | braceClose =>
      rw [cross?] at h ⊢
      split at h
      next => cases h
      next hd =>
        cases h
        rw [if_neg (by simp only [Depth.add]; omega)]
        simp only [Depth.add, Option.some.injEq, Depth.mk.injEq, true_and]
        omega
    | semicolon =>
      have h : some d = some e := h
      cases h
      rw [cross?, if_neg hne]
    | _ => cases h; rfl
  | finish => cases h
  | _ => cases h; rfl

section Rules

variable {Part : Type}

/-- **The depth after a rule**, if it crosses all tokens it can take and
always leads to the same depth, given the parts that leave a depth as it
is. -/
def Rule.track? (strict : Bool) (named : Part → Depth → Bool) : Rule Part → Depth → Option Depth
  | .mark p _, d => (Lexeme.punct p).cross? strict d
  | .finish, _ => none
  | .part p, d => if named p d then some d else none
  | .both a b, d | .onto a b, d => (a.track? strict named d).bind (b.track? strict named)
  | .either a b, d =>
    if a.track? strict named d = b.track? strict named d then a.track? strict named d else none
  | .many a, d | .steps a, d => if a.track? strict named d = some d then some d else none
  | .field _ a, d | .tree _ a, d | .wrap _ _ _ a, d => a.track? strict named d
  | .nothing, d | .word _ _, d | .name _ _, d | .piece _, d | .angle, d | .barring _, d
  | .keep, d => some d

/-- **A rule that keeps count of brackets does so within others**, too. -/
theorem Rule.track?_add {inner : Part → Bool} (strict : Bool) (named : Part → Depth → Bool)
    {c : Depth} (hc : strict = true → c ≠ .outer)
    (hnamed : ∀ p (d : Depth), inner p = true → named p (d.add c) = true) {rule : Rule Part} {d e : Depth}
    (h : rule.track? false (fun p _ => inner p) d = some e) :
    rule.track? strict named (d.add c) = some (e.add c) := by
  induction rule generalizing d e with
  | nothing | word | name | piece | angle | barring | keep => cases h; rfl
  | mark p label => exact Lexeme.cross?_add h hc
  | finish => cases h
  | part p =>
    rw [track?] at h ⊢
    split at h
    next hp =>
      cases h
      rw [if_pos (hnamed p d hp)]
    next => cases h
  | both a b iha ihb | onto a b iha ihb =>
    obtain ⟨m, ha, hb⟩ := Option.bind_eq_some_iff.1 h
    exact Option.bind_eq_some_iff.2 ⟨m.add c, iha ha, ihb hb⟩
  | either a b iha ihb =>
    rw [track?] at h ⊢
    split at h
    next heq => rw [iha h, ihb (heq ▸ h), if_pos rfl]
    next => cases h
  | many a ih | steps a ih =>
    rw [track?] at h ⊢
    split at h
    next heq =>
      cases h
      rw [ih heq, if_pos rfl]
    next => cases h
  | field f a ih | tree kind a ih | wrap kinds kind f a ih => exact ih h

end Rules

/-- **The tokens from the first on that cannot be crossed.** -/
def beyond (strict : Bool) : Depth → List Token → List Token
  | _, [] => []
  | d, t :: ts =>
    match t.lexeme.cross? strict d with
    | some e => beyond strict e ts
    | none => t :: ts

section Beyond

variable {strict : Bool} {d e : Depth} {t : Token} {ts : List Token}

theorem beyond_cons_of_some (h : t.lexeme.cross? strict d = some e) :
    beyond strict d (t :: ts) = beyond strict e ts := by
  rw [beyond, h]

theorem beyond_cons_of_none (h : t.lexeme.cross? strict d = none) :
    beyond strict d (t :: ts) = t :: ts := by
  rw [beyond, h]

/-- What is left of a mark that begins with a closing angle bracket is no
bracket, and neither is the mark. -/
theorem cross?_of_afterAngle? (strict : Bool) (d : Depth) {p : Punct} {q : Option Punct} (h : p.afterAngle? = some q) :
    (Lexeme.punct p).cross? strict d = some d
      ∧ ∀ r ∈ q, (Lexeme.punct r).cross? strict d = some d := by
  cases p <;> cases h <;> simp [Lexeme.cross?]

theorem beyond_afterAngle {p : Punct} {q : Option Punct} (h : p.afterAngle? = some q) (s : Span) :
    beyond strict d (⟨.punct p, s⟩ :: ts) = beyond strict d (afterAngle q s ts) := by
  obtain ⟨hp, hq⟩ := cross?_of_afterAngle? strict d h
  rw [beyond_cons_of_some hp]
  cases q with
  | none => rfl
  | some r => exact (beyond_cons_of_some (hq r rfl)).symm

/-- **The depth after some tokens**, if all of them can be crossed. -/
def crossAll? (strict : Bool) : Depth → List Token → Option Depth
  | d, [] => some d
  | d, t :: ts => (t.lexeme.cross? strict d).bind fun e => crossAll? strict e ts

/-- What can be crossed strictly taken can be crossed. -/
theorem Lexeme.cross?_of_strict {x : Lexeme} (h : x.cross? true d = some e) :
    x.cross? false d = some e := by
  cases x with
  | punct p =>
    cases p with
    | braceOpen | semicolon =>
      rw [cross?] at h
      split at h
      next => cases h
      next => exact h
    | _ => exact h
  | _ => exact h

theorem crossAll?_of_strict (h : crossAll? true d ts = some e) :
    crossAll? false d ts = some e := by
  induction ts generalizing d with
  | nil => exact h
  | cons t ts ih =>
    obtain ⟨m, ht, hts⟩ := Option.bind_eq_some_iff.1 h
    exact Option.bind_eq_some_iff.2 ⟨m, Lexeme.cross?_of_strict ht, ih hts⟩

/-- **What can be crossed is crossed.** -/
theorem beyond_append {strict : Bool} {us : List Token} (h : crossAll? strict d ts = some e) :
    beyond strict d (ts ++ us) = beyond strict e us := by
  induction ts generalizing d with
  | nil =>
    cases h
    rfl
  | cons t ts ih =>
    obtain ⟨m, ht, hts⟩ := Option.bind_eq_some_iff.1 h
    rw [List.cons_append, beyond_cons_of_some ht, ih hts]

/-- **The tokens that can be crossed, and those beyond.** -/
theorem exists_crossAll? (strict : Bool) (d : Depth) (ts : List Token) :
    ∃ before e, ts = before ++ beyond strict d ts ∧ crossAll? strict d before = some e
      ∧ ∀ t ∈ (beyond strict d ts).head?, t.lexeme.cross? strict e = none := by
  induction ts generalizing d with
  | nil => exact ⟨[], d, rfl, rfl, nofun⟩
  | cons t ts ih =>
    rw [beyond]
    split
    next m hd =>
      obtain ⟨before, e, hts, hcross, hnone⟩ := ih m
      refine ⟨t :: before, e, congrArg (t :: ·) hts, ?_, hnone⟩
      rw [crossAll?, hd, Option.bind_some, hcross]
    next hd => exact ⟨[], d, rfl, rfl, fun u hu => Option.some.inj hu ▸ hd⟩

/-- A rule for a token keeps count of it. -/
theorem Rule.cross?_of_token? {Part : Type} {named : Part → Depth → Bool} {rule : Rule Part}
    (htrack : rule.track? strict named d = some e) {x : Lexeme} {label : Label}
    (h : rule.token? x = some label) : x.cross? strict d = some e := by
  rcases Rule.token?_eq_some h with ⟨p, rfl, rfl⟩ | ⟨k, rfl, rfl⟩ |
    ⟨kind, taken, w, rfl, rfl, -⟩ | ⟨kind, rfl, rfl, -⟩ <;> exact htrack

variable {Part : Type} {grammar : Part → Rule Part}

/-- **What cannot be crossed is the same before and after a rule**, since
the rule takes only what can. -/
theorem Derives.beyond {named : Part → Depth → Bool}
    (hnamed : ∀ p d, named p d = true → (grammar p).track? strict named d = some d)
    {rule : Rule Part} {left : Option (List Tree)} {ts rest : List Token} {nodes : List Tree}
    (h : Derives grammar rule left ts nodes rest) {d e : Depth}
    (htrack : rule.track? strict named d = some e) :
    Syntax.beyond strict d ts = Syntax.beyond strict e rest := by
  induction h generalizing d e with
  | nothing | manyNil | barring | stepsNil | keep =>
    first
      | (cases htrack; rfl)
      | (rw [Rule.track?] at htrack
         split at htrack
         · cases htrack; rfl
         · cases htrack)
  | token h => exact beyond_cons_of_some (Rule.cross?_of_token? htrack h)
  | angle h =>
    cases htrack
    exact beyond_afterAngle h _
  | finish => cases htrack
  | @part p _ _ _ _ ih =>
    rw [Rule.track?] at htrack
    split at htrack
    next hp =>
      cases htrack
      exact ih (hnamed p d hp)
    next => cases htrack
  | both _ _ iha ihb | onto _ _ iha ihb =>
    obtain ⟨m, ha, hb⟩ := Option.bind_eq_some_iff.1 htrack
    exact (iha ha).trans (ihb hb)
  | first _ ih =>
    rw [Rule.track?] at htrack
    split at htrack
    next => exact ih htrack
    next => cases htrack
  | second _ ih =>
    rw [Rule.track?] at htrack
    split at htrack
    next heq => exact ih (heq ▸ htrack)
    next => cases htrack
  | manyCons _ _ iha ihs | stepsCons _ _ iha ihs =>
    have hs := htrack
    rw [Rule.track?] at htrack
    split at htrack
    next ha =>
      cases htrack
      exact (iha ha).trans (ihs hs)
    next => cases htrack
  | field _ ih | tree _ ih | wrap _ _ ih => exact ih htrack

end Beyond

/-! ## The grammar -/

namespace Grammar

open Rule

/-- The parts that leave every depth as it is. -/
def isBalanced (p : Part) (_ : Depth) : Bool := isInner p

/-- The parts in the head of a declaration: those that neither open a
brace nor take a semicolon outside of brackets. -/
def headParts : List Part := [
  Part.modifiers, .annotations, .annotationAny, .qualifiedName, .type, .dimensions,
  .formalParameters, .typeArguments ] ++ [
  Kind.annotationPlain, .annotationApplied, .annotationArgumentList, .typeArguments, .wildcard,
  .dimensions, .formalParameters, .typeParameters, .typeParameter, .typeBound, .throws_,
  .superclass, .superInterfaces, .extendsInterfaces, .permits, .typeList ].map Part.node ++
  [Place.alone, .statement, .body].flatMap fun place => [Part.plainType place, .simpleType place]

/-- The parts that leave a depth as it is, strictly taken. -/
def isHead (p : Part) (d : Depth) : Bool :=
  if d = .outer then headParts.contains p else isInner p

theorem track?_inner (p : Part) (h : isInner p = true) :
    (rules p).track? false isBalanced .outer = some .outer := by
  have h' := forall_part_of_all
    (fun p => !isInner p || decide ((rules p).track? false isBalanced .outer = some .outer))
    (by decide +kernel) (fun l n => by rw [rules_binary_high]; rfl) p
  simpa [h] using h'

/-- **Every part but a whole program leaves every depth as it is.** -/
theorem track?_of_isBalanced (p : Part) (d : Depth) (h : isBalanced p d = true) :
    (rules p).track? false isBalanced d = some d := by
  have hadd := track?_add false isBalanced (c := d) nofun (fun q _ hq => hq) (track?_inner p h)
  rwa [Depth.outer_add] at hadd

/-- **The parts of a head do so strictly taken.** -/
theorem track?_of_isHead (p : Part) (d : Depth) (h : isHead p d = true) :
    (rules p).track? true isHead d = some d := by
  unfold isHead at h
  split at h
  next hd =>
    subst hd
    have hall : headParts.all
        (fun p => decide ((rules p).track? true isHead .outer = some .outer)) = true := by decide
    exact of_decide_eq_true (List.all_eq_true.1 hall p (by simpa using h))
  next hd =>
    have hadd := track?_add true isHead (c := d) (fun _ => hd)
      (fun q e hq => by
        have hne : e.add d ≠ .outer := fun h => hd (Depth.add_eq_outer_iff.1 h).2
        simpa [isHead, hne] using hq) (track?_inner p h)
    rwa [Depth.outer_add] at hadd

end Grammar

end JavaMutants.Syntax
