import JavaMutants.Proofs.Syntax.Grammar
import JavaMutants.Syntax.Repair

/-!
# Reading without a bound

Reading goes down to a depth that is given to it, and fails where it would
have to go deeper. That depth is never reached: between two tokens a rule
goes down no further than it says itself (`Rule.need`), so with a fixed
depth for every token all is read as if there were no bound
(`Paced.read_eq`).

`Grammar.outcome` is what a rule of the grammar makes of some tokens, bound
or no bound, and the equations after it say how the outcome of a rule is
made of the outcomes of its parts. A whole text is read with a depth that
is enough (`Grammar.readProgram_eq`).
-/

namespace JavaMutants.Syntax

section Rules

variable {Part : Type}

/-- **Whether a rule takes a token** whenever it can be read, given the
same of the parts. A closing angle bracket can leave as many tokens as
there were. -/
def Rule.consumes (parts : Part → Bool) : Rule Part → Bool
  | .mark _ _ | .word _ _ | .name _ _ | .piece _ | .finish => true
  | .part p => parts p
  | .both a b | .onto a b => a.consumes parts || b.consumes parts
  | .either a b => a.consumes parts && b.consumes parts
  | .field _ a | .tree _ a | .wrap _ _ _ a => a.consumes parts
  | .nothing | .angle | .many _ | .barring _ | .steps _ | .keep => false

/-- **Whether every repetition in a rule goes on only by taking tokens.** -/
def Rule.isPaced (parts : Part → Bool) : Rule Part → Bool
  | .many a | .steps a => a.consumes parts && a.isPaced parts
  | .both a b | .either a b | .onto a b => a.isPaced parts && b.isPaced parts
  | .field _ a | .tree _ a | .wrap _ _ _ a => a.isPaced parts
  | _ => true

/-- How deep reading goes down for a token. -/
def pace : Nat := 200

/-- **How deep a rule goes down before it takes a token**, given the same
of the parts. -/
def Rule.need (parts : Part → Bool) (needs : Part → Nat) : Rule Part → Nat
  | .part p => needs p + 1
  | .both a b | .onto a b =>
    max (a.need parts needs)
      (if a.consumes parts then b.need parts needs - pace else b.need parts needs) + 1
  | .either a b => max (a.need parts needs) (b.need parts needs) + 1
  | .many a | .steps a | .field _ a | .tree _ a | .wrap _ _ _ a => a.need parts needs + 1
  | _ => 1

theorem Rule.need_pos (parts : Part → Bool) (needs : Part → Nat) (rule : Rule Part) :
    0 < rule.need parts needs := by
  cases rule <;> exact Nat.succ_pos _

/-- **What is said of the parts of a grammar is borne out by its
rules.** -/
structure Paced (grammar : Part → Rule Part) (parts : Part → Bool) (needs : Part → Nat) :
    Prop where
  /-- Parts that are said to take a token do. -/
  consumes : ∀ p, parts p = true → (grammar p).consumes parts = true
  /-- No repetition goes on without taking tokens. -/
  isPaced : ∀ p, (grammar p).isPaced parts = true
  /-- No rule goes deeper than is said of its part. -/
  need_le : ∀ p, (grammar p).need parts needs ≤ needs p

namespace Reading

/-! ## Results of readings -/

theorem result_andThen (r : Reading) (f : List Tree → List Token → Reading) :
    (r.andThen f).result = r.result.bind fun x => (f x.1 x.2).result := by
  unfold andThen
  split
  next hr => rw [hr]; rfl
  next nodes rest hr => rw [hr]; rfl

theorem result_orElse (r : Reading) (other : Unit → Reading) :
    (r.orElse other).result = r.result.or (other ()).result := by
  unfold orElse
  split
  next x hr => rw [hr]; rfl
  next hr => rw [hr]; rfl

theorem result_map (f : List Tree → List Tree) (r : Reading) :
    (r.map f).result = r.result.map fun x => (f x.1, x.2) := rfl

/-- What goes on alike from the nodes and tokens that come up goes on
alike. -/
theorem andThen_congr {r : Reading} {f g : List Tree → List Token → Reading}
    (h : ∀ nodes rest, r.result = some (nodes, rest) → f nodes rest = g nodes rest) :
    r.andThen f = r.andThen g := by
  unfold andThen
  split
  next => rfl
  next nodes rest hr => rw [h nodes rest hr]

end Reading

section Length

variable {grammar : Part → Rule Part} {parts : Part → Bool}

theorem toNat_or_le (x y : Bool) : (x || y).toNat ≤ x.toNat + y.toNat := by
  cases x <;> cases y <;> decide

theorem toNat_and_le (x y : Bool) : (x && y).toNat ≤ x.toNat ∧ (x && y).toNat ≤ y.toNat := by
  cases x <;> cases y <;> decide

theorem length_afterAngle (q : Option Punct) (s : Span) (rest : List Token) :
    (afterAngle q s rest).length ≤ rest.length + 1 := by
  cases q with
  | none => exact Nat.le_succ _
  | some q => exact Nat.le_refl _

open Reading in
/-- **Reading leaves no more tokens than there were**, and fewer if the
rule takes one. -/
theorem length_of_read (hparts : ∀ p, parts p = true → (grammar p).consumes parts = true)
    {fuel : Nat} {rule : Rule Part} {left : List Tree} {ts : List Token} {nodes : List Tree}
    {rest : List Token} (h : (rule.read grammar fuel left ts).result = some (nodes, rest)) :
    rest.length + (rule.consumes parts).toNat ≤ ts.length := by
  induction fuel generalizing rule left ts nodes rest with
  | zero => rw [Rule.read] at h; simp at h
  | succ fuel ih =>
    cases rule with
    | nothing | keep =>
      obtain ⟨rfl, rfl⟩ := Prod.mk.inj (Option.some.inj h)
      exact Nat.le_refl _
    | mark | word | name | piece =>
      obtain ⟨t, rfl, -, -⟩ := takeIf_result h
      exact Nat.le_refl _
    | angle =>
      obtain ⟨p, q, s, ts', rfl, -, -, rfl⟩ := takeAngle_result h
      exact length_afterAngle q s ts'
    | finish =>
      obtain ⟨nodes₁, h, -⟩ := map_result h
      obtain ⟨t, rfl, -, -⟩ := takeIf_result h
      exact Nat.le_refl _
    | part p =>
      have hle := ih h
      rw [Rule.consumes]
      cases hp : parts p with
      | false => exact Nat.le_trans (Nat.le_add_right _ _) hle
      | true => rwa [hparts p hp] at hle
    | both a b =>
      obtain ⟨nodes₁, mid, ha, hb⟩ := andThen_result h
      obtain ⟨nodes₂, hb, -⟩ := map_result hb
      have hla := ih ha
      have hlb := ih hb
      have hor := toNat_or_le (a.consumes parts) (b.consumes parts)
      rw [Rule.consumes]
      omega
    | either a b =>
      rw [Rule.consumes]
      have hand := toNat_and_le (a.consumes parts) (b.consumes parts)
      rcases orElse_result h with h | h
      · have hle := ih h
        omega
      · have hle := ih h
        omega
    | many a =>
      rcases orElse_result h with h | h
      · obtain ⟨nodes₁, mid, ha, hs⟩ := andThen_result h
        obtain ⟨nodes₂, hs, -⟩ := map_result hs
        have hla := ih ha
        have hls := ih hs
        rw [Rule.consumes] at hls ⊢
        omega
      · obtain ⟨-, rfl⟩ := Prod.mk.inj (Option.some.inj h)
        exact Nat.le_refl _
    | barring lexemes =>
      cases ts with
      | nil => simp [Rule.read] at h
      | cons t ts =>
        simp only [Rule.read] at h
        split at h
        next => simp at h
        next =>
          obtain ⟨-, rfl⟩ := Prod.mk.inj (Option.some.inj h)
          exact Nat.le_refl _
    | field f a | tree kind a =>
      obtain ⟨nodes₁, h, -⟩ := map_result h
      have hle := ih h
      exact hle
    | onto a b =>
      obtain ⟨nodes₁, mid, ha, hb⟩ := andThen_result h
      have hla := ih ha
      have hlb := ih hb
      have hor := toNat_or_le (a.consumes parts) (b.consumes parts)
      rw [Rule.consumes]
      omega
    | steps a =>
      rcases orElse_result h with h | h
      · obtain ⟨nodes₁, mid, ha, hs⟩ := andThen_result h
        have hla := ih ha
        have hls := ih hs
        rw [Rule.consumes] at hls ⊢
        omega
      · obtain ⟨-, rfl⟩ := Prod.mk.inj (Option.some.inj h)
        exact Nat.le_refl _
    | wrap kinds kind f a =>
      rw [Rule.read] at h
      split at h
      next =>
        obtain ⟨nodes₁, h, -⟩ := map_result h
        have hle := ih h
        exact hle
      next => simp at h

end Length

/-! ## Enough depth -/

/-- The depth that a rule needs for some tokens. -/
def Rule.enough (parts : Part → Bool) (needs : Part → Nat) (rule : Rule Part)
    (ts : List Token) : Nat :=
  rule.need parts needs + pace * ts.length

namespace Rule

variable {parts : Part → Bool} {needs : Part → Nat} {fuel : Nat} {a b : Rule Part}
  {ts : List Token}

theorem need_part (p : Part) : (part p).need parts needs = needs p + 1 := rfl

theorem need_both : (both a b).need parts needs = max (a.need parts needs)
    (if a.consumes parts then b.need parts needs - pace else b.need parts needs) + 1 := rfl

theorem need_either :
    (either a b).need parts needs = max (a.need parts needs) (b.need parts needs) + 1 := rfl

theorem need_many : (many a).need parts needs = a.need parts needs + 1 := rfl

theorem enough_first (h : (both a b).enough parts needs ts ≤ fuel + 1) :
    a.enough parts needs ts ≤ fuel := by
  unfold enough at h ⊢
  rw [need_both] at h
  omega

theorem enough_left (h : (either a b).enough parts needs ts ≤ fuel + 1) :
    a.enough parts needs ts ≤ fuel := by
  unfold enough at h ⊢
  rw [need_either] at h
  omega

theorem enough_right (h : (either a b).enough parts needs ts ≤ fuel + 1) :
    b.enough parts needs ts ≤ fuel := by
  unfold enough at h ⊢
  rw [need_either] at h
  omega

/-- A repetition needs one level more than what is repeated, and so does
what puts nodes below another or gives them a field. -/
theorem enough_inner (h : (many a).enough parts needs ts ≤ fuel + 1) :
    a.enough parts needs ts ≤ fuel := by
  unfold enough at h ⊢
  rw [need_many] at h
  omega

/-- Where there is enough for a rule and another one after it, there is
enough for that one. -/
theorem enough_second {mid : List Token}
    (hlen : mid.length + (a.consumes parts).toNat ≤ ts.length)
    (h : (both a b).enough parts needs ts ≤ fuel + 1) : b.enough parts needs mid ≤ fuel := by
  unfold enough at h ⊢
  rw [need_both] at h
  unfold pace at h ⊢
  cases hc : a.consumes parts <;> rw [hc] at h hlen <;> simp at h hlen <;> omega

/-- Where there is enough for a repetition, there is enough to go on with
it. -/
theorem enough_again {mid : List Token} (hc : a.consumes parts = true)
    (hlen : mid.length + (a.consumes parts).toNat ≤ ts.length)
    (h : (many a).enough parts needs ts ≤ fuel + 1) : (many a).enough parts needs mid ≤ fuel := by
  rw [hc] at hlen
  unfold enough pace at h ⊢
  simp at hlen
  omega

end Rule

namespace Paced

variable {grammar : Part → Rule Part} {parts : Part → Bool} {needs : Part → Nat}
  {fuel : Nat} {a b : Rule Part} {left : List Tree} {ts : List Token}

theorem enough_part (hg : Paced grammar parts needs) {p : Part}
    (h : (Rule.part p).enough parts needs ts ≤ fuel + 1) :
    (grammar p).enough parts needs ts ≤ fuel := by
  have hle := hg.need_le p
  unfold Rule.enough at h ⊢
  rw [Rule.need_part] at h
  omega

open Reading in
/-- One level more changes nothing where there is enough. -/
theorem read_succ (hg : Paced grammar parts needs) {rule : Rule Part}
    (hp : rule.isPaced parts = true) (h : rule.enough parts needs ts ≤ fuel) :
    rule.read grammar (fuel + 1) left ts = rule.read grammar fuel left ts := by
  induction fuel generalizing rule left ts with
  | zero =>
    have hpos := rule.need_pos parts needs
    unfold Rule.enough at h
    omega
  | succ fuel ih =>
    cases rule with
    | nothing | mark | word | name | piece | angle | finish | barring | keep => rfl
    | part p =>
      rw [Rule.read, Rule.read]
      exact ih (hg.isPaced p) (hg.enough_part h)
    | both a b =>
      obtain ⟨hpa, hpb⟩ := Bool.and_eq_true_iff.1 hp
      have ha : a.read grammar (fuel + 1) left ts = a.read grammar fuel left ts :=
        ih hpa (Rule.enough_first h)
      rw [Rule.read, Rule.read, ha]
      exact andThen_congr fun nodes mid hr => by
        rw [ih hpb (Rule.enough_second (length_of_read hg.consumes hr) h)]
    | either a b =>
      obtain ⟨hpa, hpb⟩ := Bool.and_eq_true_iff.1 hp
      have ha : a.read grammar (fuel + 1) left ts = a.read grammar fuel left ts :=
        ih hpa (Rule.enough_left h)
      have hb : b.read grammar (fuel + 1) left ts = b.read grammar fuel left ts :=
        ih hpb (Rule.enough_right h)
      rw [Rule.read, Rule.read, ha, hb]
    | many a =>
      obtain ⟨hc, hpa⟩ := Bool.and_eq_true_iff.1 hp
      have ha : a.read grammar (fuel + 1) [] ts = a.read grammar fuel [] ts :=
        ih hpa (Rule.enough_inner h)
      rw [Rule.read, Rule.read, ha]
      refine congrArg (fun r => orElse r _) (andThen_congr fun nodes mid hr => ?_)
      rw [ih hp (Rule.enough_again hc (length_of_read hg.consumes hr) h)]
    | field f a =>
      have ha : a.read grammar (fuel + 1) left ts = a.read grammar fuel left ts :=
        ih hp (Rule.enough_inner h)
      rw [Rule.read, Rule.read, ha]
    | tree kind a =>
      have ha : a.read grammar (fuel + 1) [] ts = a.read grammar fuel [] ts :=
        ih hp (Rule.enough_inner h)
      rw [Rule.read, Rule.read, ha]
    | onto a b =>
      obtain ⟨hpa, hpb⟩ := Bool.and_eq_true_iff.1 hp
      have ha : a.read grammar (fuel + 1) [] ts = a.read grammar fuel [] ts :=
        ih hpa (Rule.enough_first h)
      rw [Rule.read, Rule.read, ha]
      exact andThen_congr fun nodes mid hr =>
        ih hpb (Rule.enough_second (length_of_read hg.consumes hr) h)
    | steps a =>
      obtain ⟨hc, hpa⟩ := Bool.and_eq_true_iff.1 hp
      have ha : a.read grammar (fuel + 1) left ts = a.read grammar fuel left ts :=
        ih hpa (Rule.enough_inner h)
      rw [Rule.read, Rule.read, ha]
      refine congrArg (fun r => orElse r _) (andThen_congr fun nodes mid hr => ?_)
      exact ih hp (Rule.enough_again hc (length_of_read hg.consumes hr) h)
    | wrap kinds kind f a =>
      have ha : a.read grammar (fuel + 1) [] ts = a.read grammar fuel [] ts :=
        ih hp (Rule.enough_inner h)
      rw [Rule.read, Rule.read, ha]

/-- **Where there is enough depth, more of it changes nothing.** -/
theorem read_eq (hg : Paced grammar parts needs) {rule : Rule Part}
    (hp : rule.isPaced parts = true) {more : Nat} (h : rule.enough parts needs ts ≤ fuel)
    (hle : fuel ≤ more) : rule.read grammar more left ts = rule.read grammar fuel left ts := by
  induction hle with
  | refl => rfl
  | step hle ih => exact (hg.read_succ hp (Nat.le_trans h hle)).trans ih

end Paced

end Rules

/-! ## Outcomes -/

namespace Grammar

open Rule

/-- The parts that take a token. -/
def isTaking : Part → Bool
  | .annotations => false
  | .node k => decide (0 < (body k).least count)
  | _ => true

/-- How deep the parts go down before they take a token. -/
def reach : Part → Nat
  | .node .program => 190
  | .node .expressionStatement => 100
  | .node .annotationPlain | .node .annotationApplied => 3
  | .node .pattern => 40
  | .node .switchBlockStatementGroup | .node .switchRule | .node .catchFormalParameter
  | .node .constructorDeclaration | .node .explicitConstructorInvocation
  | .node .methodDeclaration => 60
  | .node _ => 30
  | .annotationAny => 5
  | .annotations => 7
  | .qualifiedName | .declaratorId | .simpleType _ => 9
  | .plainType _ => 11
  | .type | .modifiers => 17
  | .arguments | .parenthesized | .string | .block | .classBody | .formalParameters
  | .typeArguments | .dimensions | .creation | .switchLabel _ | .declarators => 36
  | .atom => 50
  | .primary => 52
  | .operand _ => 57
  | .declaration | .unary _ => 62
  | .member => 80
  | .binary _ n => 84 - 2 * min n 9
  | .expression _ => 86
  | .initializer | .elementValue => 90
  | .statement => 130
  | .topLevel => 140

/-- **The rules of the grammar keep pace.** -/
theorem paced_rules : Paced rules isTaking reach := by
  have hall := forall_part_of_all
    (fun p => (!isTaking p || (rules p).consumes isTaking) && (rules p).isPaced isTaking &&
      decide ((rules p).need isTaking reach ≤ reach p))
    (by decide +kernel)
    (fun l n => by
      have htaking : isTaking (.binary l (n + 9)) = isTaking (.binary l 9) := rfl
      have hreach : reach (.binary l (n + 9)) = reach (.binary l 9) := by
        simp [reach]
      rw [rules_binary_high, htaking, hreach])
  simp only [Bool.and_eq_true, Bool.or_eq_true, Bool.not_eq_true', decide_eq_true_eq] at hall
  exact ⟨fun p h => (hall p).1.1.resolve_left (by simp [h]), fun p => (hall p).1.2,
    fun p => (hall p).2⟩

theorem isPaced_rules (p : Part) : (rules p).isPaced isTaking = true :=
  Paced.isPaced paced_rules p

/-- **What a rule of the grammar makes of some tokens**: the nodes and the
tokens that are left, if it can be read. -/
def outcome (rule : Rules) (left : List Tree) (ts : List Token) :
    Option (List Tree × List Token) :=
  (rule.read rules (rule.enough isTaking reach ts) left ts).result

section Outcomes

variable {a b rule : Rules} {left : List Tree} {ts : List Token}

/-- Whatever is read with enough depth is the outcome. -/
theorem result_read {fuel : Nat} (hp : rule.isPaced isTaking = true)
    (h : rule.enough isTaking reach ts ≤ fuel) :
    (rule.read rules fuel left ts).result = outcome rule left ts :=
  congrArg Reading.result (Paced.read_eq paced_rules hp (Nat.le_refl _) h)

/-- The outcome is read at one level more than is needed. -/
theorem outcome_eq_read (hp : rule.isPaced isTaking = true) (left : List Tree)
    (ts : List Token) : outcome rule left ts
      = (rule.read rules (rule.enough isTaking reach ts + 1) left ts).result :=
  (result_read hp (Nat.le_succ _)).symm

/-- **A whole text is read with enough depth.** -/
theorem readProgram_eq (code : List Token) :
    (readProgram code).result = outcome (the .program) [] code := by
  refine result_read rfl ?_
  show 191 + 200 * code.length ≤ 200 * (code.length + 1)
  omega

/-- **What comes out can be derived**, by a step from what was read
before. -/
theorem derives_of_outcome_step {step : Bool} (hr : rule.isPlaced step = true)
    {nodes : List Tree} {rest : List Token} (h : outcome rule left ts = some (nodes, rest)) :
    Derives rules rule (carried step left) ts nodes rest :=
  derives_of_read isPlaced_rules hr h

/-- **What comes out can be derived.** -/
theorem derives_of_outcome (hr : rule.isPlaced false = true) {nodes : List Tree}
    {rest : List Token} (h : outcome rule left ts = some (nodes, rest)) :
    Derives rules rule none ts nodes rest :=
  derives_of_outcome_step hr h

/-- What cannot be derived does not come out. -/
theorem outcome_eq_none (hr : rule.isPlaced false = true)
    (h : ∀ nodes rest, ¬ Derives rules rule none ts nodes rest) :
    outcome rule left ts = none :=
  Option.eq_none_iff_forall_ne_some.2 fun y hy => h y.1 y.2 (derives_of_outcome hr hy)

/-- What comes out leaves no more tokens than there were. -/
theorem length_of_outcome {nodes : List Tree} {rest : List Token}
    (h : outcome rule left ts = some (nodes, rest)) :
    rest.length + (rule.consumes isTaking).toNat ≤ ts.length :=
  length_of_read (Paced.consumes paced_rules) h

/-! ### Outcomes of the forms of rules -/

@[simp] theorem outcome_nothing : outcome nothing left ts = some ([], ts) := by
  rw [outcome_eq_read rfl]
  rfl

@[simp] theorem outcome_keep : outcome keep left ts = some (left, ts) := by
  rw [outcome_eq_read rfl]
  rfl

theorem outcome_part (p : Part) : outcome (part p) left ts = outcome (rules p) left ts := by
  rw [outcome_eq_read rfl, Rule.read]
  exact result_read (isPaced_rules p) (Paced.enough_part paced_rules (Nat.le_succ _))

theorem outcome_both (hp : (both a b).isPaced isTaking = true) :
    outcome (both a b) left ts = (outcome a left ts).bind fun x =>
      (outcome b [] x.2).map fun y => (x.1 ++ y.1, y.2) := by
  obtain ⟨hpa, hpb⟩ := Bool.and_eq_true_iff.1 hp
  rw [outcome_eq_read hp, Rule.read, Reading.result_andThen,
    result_read hpa (enough_first (Nat.le_succ _))]
  refine Option.bind_congr fun x hx => ?_
  rw [Reading.result_map, result_read hpb (enough_second (length_of_outcome hx) (Nat.le_succ _))]

theorem outcome_either (hp : (either a b).isPaced isTaking = true) :
    outcome (either a b) left ts = (outcome a left ts).or (outcome b left ts) := by
  obtain ⟨hpa, hpb⟩ := Bool.and_eq_true_iff.1 hp
  rw [outcome_eq_read hp, Rule.read, Reading.result_orElse,
    result_read hpa (enough_left (Nat.le_succ _)), result_read hpb (enough_right (Nat.le_succ _))]

theorem outcome_many (hp : (many a).isPaced isTaking = true) :
    outcome (many a) left ts = ((outcome a [] ts).bind fun x =>
      (outcome (many a) [] x.2).map fun y => (x.1 ++ y.1, y.2)).or (some ([], ts)) := by
  obtain ⟨hc, hpa⟩ := Bool.and_eq_true_iff.1 hp
  rw [outcome_eq_read hp, Rule.read, Reading.result_orElse, Reading.result_andThen,
    result_read hpa (enough_inner (Nat.le_succ _))]
  refine congrArg (Option.or · _) (Option.bind_congr fun x hx => ?_)
  rw [Reading.result_map, result_read hp (enough_again hc (length_of_outcome hx) (Nat.le_succ _))]

theorem outcome_field (hp : a.isPaced isTaking = true) (f : Field) :
    outcome (field f a) left ts
      = (outcome a left ts).map fun x => (x.1.map (Tree.withField (some f)), x.2) := by
  have hp' : (field f a).isPaced isTaking = true := hp
  have ha : (a.read rules ((field f a).enough isTaking reach ts) left ts).result
      = outcome a left ts := result_read hp (enough_inner (Nat.le_succ _))
  rw [outcome_eq_read hp', Rule.read, Reading.result_map, ha]

theorem outcome_tree (hp : a.isPaced isTaking = true) (kind : Kind) :
    outcome (tree kind a) left ts
      = (outcome a [] ts).map fun x => ([.above (.named kind) x.1], x.2) := by
  have hp' : (tree kind a).isPaced isTaking = true := hp
  have ha : (a.read rules ((tree kind a).enough isTaking reach ts) [] ts).result
      = outcome a [] ts := result_read hp (enough_inner (Nat.le_succ _))
  rw [outcome_eq_read hp', Rule.read, Reading.result_map, ha]

theorem outcome_onto (hp : (onto a b).isPaced isTaking = true) :
    outcome (onto a b) left ts = (outcome a [] ts).bind fun x => outcome b x.1 x.2 := by
  obtain ⟨hpa, hpb⟩ := Bool.and_eq_true_iff.1 hp
  have ha : (a.read rules ((onto a b).enough isTaking reach ts) [] ts).result
      = outcome a [] ts := result_read hpa (enough_first (Nat.le_succ _))
  rw [outcome_eq_read hp, Rule.read, Reading.result_andThen, ha]
  exact Option.bind_congr fun x hx =>
    result_read hpb (enough_second (length_of_outcome hx) (Nat.le_succ _))

theorem outcome_steps (hp : (steps a).isPaced isTaking = true) :
    outcome (steps a) left ts = ((outcome a left ts).bind fun x =>
      outcome (steps a) x.1 x.2).or (some (left, ts)) := by
  obtain ⟨hc, hpa⟩ := Bool.and_eq_true_iff.1 hp
  have ha : (a.read rules ((steps a).enough isTaking reach ts) left ts).result
      = outcome a left ts := result_read hpa (enough_inner (Nat.le_succ _))
  rw [outcome_eq_read hp, Rule.read, Reading.result_orElse, Reading.result_andThen, ha]
  exact congrArg (Option.or · _) (Option.bind_congr fun x hx =>
    result_read hp (enough_again hc (length_of_outcome hx) (Nat.le_succ _)))

theorem outcome_wrap (hp : a.isPaced isTaking = true) (kinds : List Kind) (kind : Kind)
    (f : Option Field) : outcome (wrap kinds kind f a) left ts
      = if applies kinds left then (outcome a [] ts).map fun x =>
          ([.above (.named kind) (left.map (Tree.withField f) ++ x.1)], x.2)
        else none := by
  have hp' : (wrap kinds kind f a).isPaced isTaking = true := hp
  have ha : (a.read rules ((wrap kinds kind f a).enough isTaking reach ts) [] ts).result
      = outcome a [] ts := result_read hp (enough_inner (Nat.le_succ _))
  rw [outcome_eq_read hp', Rule.read]
  split
  next => rw [Reading.result_map, ha]
  next => exact Reading.stopAt_result ts

/-! ### What an outcome is made of -/

section Success

variable {nodes : List Tree} {rest : List Token}

theorem outcome_both_eq_some_iff (hp : (both a b).isPaced isTaking = true) :
    outcome (both a b) left ts = some (nodes, rest) ↔ ∃ ns mid ms, nodes = ns ++ ms
      ∧ outcome a left ts = some (ns, mid) ∧ outcome b [] mid = some (ms, rest) := by
  rw [outcome_both hp]
  constructor
  · intro h
    obtain ⟨⟨ns, mid⟩, ha, h⟩ := Option.bind_eq_some_iff.1 h
    obtain ⟨⟨ms, mid'⟩, hb, h⟩ := Option.map_eq_some_iff.1 h
    cases h
    exact ⟨ns, mid, ms, rfl, ha, hb⟩
  · rintro ⟨ns, mid, ms, rfl, ha, hb⟩
    rw [ha, Option.bind_some, hb, Option.map_some]

theorem outcome_either_eq_some_iff (hp : (either a b).isPaced isTaking = true) :
    outcome (either a b) left ts = some (nodes, rest) ↔ outcome a left ts = some (nodes, rest)
      ∨ outcome a left ts = none ∧ outcome b left ts = some (nodes, rest) := by
  rw [outcome_either hp, Option.or_eq_some_iff]

theorem outcome_many_eq_some_iff (hp : (many a).isPaced isTaking = true) :
    outcome (many a) left ts = some (nodes, rest) ↔
      (∃ ns mid ms, nodes = ns ++ ms ∧ outcome a [] ts = some (ns, mid)
        ∧ outcome (many a) [] mid = some (ms, rest))
      ∨ outcome a [] ts = none ∧ nodes = [] ∧ rest = ts := by
  have hmany : outcome (many a) left ts = _ := outcome_many hp
  constructor
  · intro h
    rw [hmany] at h
    cases ha : outcome a [] ts with
    | none =>
      rw [ha, Option.bind_none, Option.none_or] at h
      cases h
      exact .inr ⟨rfl, rfl, rfl⟩
    | some x =>
      -- what is left after one more can be read, be it as nothing
      obtain ⟨y, hy⟩ : ∃ y, outcome (many a) [] x.2 = some y := by
        rw [outcome_many hp]
        exact Option.isSome_iff_exists.1 (by simp)
      rw [ha, Option.bind_some, hy, Option.map_some, Option.some_or] at h
      cases h
      exact .inl ⟨x.1, x.2, y.1, rfl, rfl, hy⟩
  · rintro (⟨ns, mid, ms, rfl, ha, hs⟩ | ⟨ha, rfl, rfl⟩)
    · rw [hmany, ha, Option.bind_some, hs, Option.map_some, Option.some_or]
    · rw [hmany, ha, Option.bind_none, Option.none_or]

theorem outcome_field_eq_some_iff (hp : a.isPaced isTaking = true) {f : Field} :
    outcome (field f a) left ts = some (nodes, rest) ↔
      ∃ ns, nodes = ns.map (Tree.withField (some f)) ∧ outcome a left ts = some (ns, rest) := by
  rw [outcome_field hp, Option.map_eq_some_iff]
  constructor
  · rintro ⟨⟨ns, mid⟩, ha, h⟩
    cases h
    exact ⟨ns, rfl, ha⟩
  · rintro ⟨ns, rfl, ha⟩
    exact ⟨_, ha, rfl⟩

theorem outcome_tree_eq_some_iff (hp : a.isPaced isTaking = true) {kind : Kind} :
    outcome (tree kind a) left ts = some (nodes, rest) ↔
      ∃ ns, nodes = [.above (.named kind) ns] ∧ outcome a [] ts = some (ns, rest) := by
  rw [outcome_tree hp, Option.map_eq_some_iff]
  constructor
  · rintro ⟨⟨ns, mid⟩, ha, h⟩
    cases h
    exact ⟨ns, rfl, ha⟩
  · rintro ⟨ns, rfl, ha⟩
    exact ⟨_, ha, rfl⟩

theorem outcome_onto_eq_some_iff (hp : (onto a b).isPaced isTaking = true) :
    outcome (onto a b) left ts = some (nodes, rest) ↔
      ∃ ns mid, outcome a [] ts = some (ns, mid) ∧ outcome b ns mid = some (nodes, rest) := by
  rw [outcome_onto hp, Option.bind_eq_some_iff]
  exact ⟨fun ⟨x, ha, hb⟩ => ⟨x.1, x.2, ha, hb⟩, fun ⟨ns, mid, ha, hb⟩ => ⟨(ns, mid), ha, hb⟩⟩

theorem of_outcome_steps (hp : (steps a).isPaced isTaking = true)
    (h : outcome (steps a) left ts = some (nodes, rest)) :
    (∃ ns mid, outcome a left ts = some (ns, mid)
      ∧ outcome (steps a) ns mid = some (nodes, rest)) ∨ nodes = left ∧ rest = ts := by
  rw [outcome_steps hp, Option.or_eq_some_iff] at h
  rcases h with h | ⟨-, h⟩
  · obtain ⟨x, ha, hs⟩ := Option.bind_eq_some_iff.1 h
    exact .inl ⟨x.1, x.2, ha, hs⟩
  · cases h
    exact .inr ⟨rfl, rfl⟩

theorem of_outcome_wrap (hp : a.isPaced isTaking = true) {kinds : List Kind} {kind : Kind}
    {f : Option Field} (h : outcome (wrap kinds kind f a) left ts = some (nodes, rest)) :
    ∃ ns, nodes = [.above (.named kind) (left.map (Tree.withField f) ++ ns)]
      ∧ outcome a [] ts = some (ns, rest) := by
  rw [outcome_wrap hp] at h
  split at h
  next =>
    obtain ⟨⟨ns, mid⟩, ha, h⟩ := Option.map_eq_some_iff.1 h
    cases h
    exact ⟨ns, rfl, ha⟩
  next => cases h

end Success

end Outcomes

end Grammar

end JavaMutants.Syntax
