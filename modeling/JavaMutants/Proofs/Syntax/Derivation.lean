import JavaMutants.Syntax.Rule

/-!
# Derivations

What it means that tokens can be read by a rule, without the order in
which alternatives are tried: `Derives grammar rule left ts nodes rest`
says that the rule can turn the tokens in front of `ts` into `nodes` and
leave `rest`. A step, which makes something of what was read before, has
that in `left`; to any other rule nothing is carried over. Reading finds
a derivation whenever it succeeds (`derives_of_read`), so that whatever
holds of all derivations holds of every tree that is read, and what
cannot be derived cannot be read.
-/

namespace JavaMutants.Syntax

variable {Part : Type}

/-- The label of the leaf that a rule for one token makes of a lexeme, if
the rule is one and takes the lexeme. -/
def Rule.token? : Rule Part → Lexeme → Option Label
  | .mark p label, x => if x = .punct p then some label else none
  | .word k label, x => if x = .word (some k) then some label else none
  | .name kind taken, .word (some k) => if k ∈ taken then none else some (.named kind)
  | .name kind _, .word none => some (.named kind)
  | .piece kind, x => if x = .piece kind then some (.named kind) else none
  | _, _ => none

/-- The rules that take a token, each with what it takes and the label it
gives. -/
theorem Rule.token?_eq_some {rule : Rule Part} {x : Lexeme} {label : Label}
    (h : rule.token? x = some label) :
    (∃ p, rule = .mark p label ∧ x = .punct p)
      ∨ (∃ k, rule = .word k label ∧ x = .word (some k))
      ∨ (∃ kind taken w, rule = .name kind taken ∧ x = .word w ∧ label = .named kind
          ∧ ∀ k ∈ w, k ∉ taken)
      ∨ (∃ kind, rule = .piece kind ∧ x = .piece kind ∧ label = .named kind) := by
  unfold Rule.token? at h
  split at h
  next =>
    split at h
    next hx => cases h; exact .inl ⟨_, rfl, hx⟩
    next => simp at h
  next =>
    split at h
    next hx => cases h; exact .inr (.inl ⟨_, rfl, hx⟩)
    next => simp at h
  next kind taken k =>
    split at h
    next => simp at h
    next hk => cases h; exact .inr (.inr (.inl ⟨kind, taken, some k, rfl, rfl, rfl, by simpa⟩))
  next kind taken => cases h; exact .inr (.inr (.inl ⟨kind, taken, none, rfl, rfl, rfl, by simp⟩))
  next =>
    split at h
    next hx => cases h; exact .inr (.inr (.inr ⟨_, rfl, hx, rfl⟩))
    next => simp at h
  next => simp at h

/-- The closing angle bracket taken off the front of a mark. -/
def angleLeaf (s : Span) : Tree :=
  tokenLeaf (.punct .gt) ⟨s.start, min (s.start + 1) s.stop⟩

/-- The tokens after a closing angle bracket has been taken off: what is
left of the mark comes first. -/
def afterAngle (left : Option Punct) (s : Span) (rest : List Token) : List Token :=
  match left with
  | some q => ⟨.punct q, ⟨s.start + 1, s.stop⟩⟩ :: rest
  | none => rest

/-- **Derivations** by the rules of a grammar. -/
inductive Derives (grammar : Part → Rule Part) :
    Rule Part → Option (List Tree) → List Token → List Tree → List Token → Prop where
  /-- Nothing is read. -/
  | nothing {ts} : Derives grammar .nothing none ts [] ts
  /-- One token is read. -/
  | token {rule label t rest} (h : rule.token? t.lexeme = some label) :
      Derives grammar rule none (t :: rest) [tokenLeaf label t.span] rest
  /-- A closing angle bracket is taken off a mark. -/
  | angle {p q s rest} (h : p.afterAngle? = some q) :
      Derives grammar .angle none (⟨.punct p, s⟩ :: rest) [angleLeaf s] (afterAngle q s rest)
  /-- The end of the text is reached. -/
  | finish {s rest} : Derives grammar .finish none (⟨.finish, s⟩ :: rest) [] rest
  /-- A part is read by its rule. -/
  | part {p ts nodes rest} (h : Derives grammar (grammar p) none ts nodes rest) :
      Derives grammar (.part p) none ts nodes rest
  /-- One rule is read after the other. -/
  | both {a b ts nodes₁ mid nodes₂ rest} (ha : Derives grammar a none ts nodes₁ mid)
      (hb : Derives grammar b none mid nodes₂ rest) :
      Derives grammar (.both a b) none ts (nodes₁ ++ nodes₂) rest
  /-- The first of two rules is read. -/
  | first {a b left ts nodes rest} (h : Derives grammar a left ts nodes rest) :
      Derives grammar (.either a b) left ts nodes rest
  /-- The second of two rules is read. -/
  | second {a b left ts nodes rest} (h : Derives grammar b left ts nodes rest) :
      Derives grammar (.either a b) left ts nodes rest
  /-- A repetition ends. -/
  | manyNil {a ts} : Derives grammar (.many a) none ts [] ts
  /-- A repetition goes on. -/
  | manyCons {a ts nodes₁ mid nodes₂ rest} (ha : Derives grammar a none ts nodes₁ mid)
      (hs : Derives grammar (.many a) none mid nodes₂ rest) :
      Derives grammar (.many a) none ts (nodes₁ ++ nodes₂) rest
  /-- None of some lexemes comes next. -/
  | barring {lexemes t rest} (h : t.lexeme ∉ lexemes) :
      Derives grammar (.barring lexemes) none (t :: rest) [] (t :: rest)
  /-- Nodes are given a field. -/
  | field {f a ts nodes rest} (h : Derives grammar a none ts nodes rest) :
      Derives grammar (.field f a) none ts (nodes.map (Tree.withField (some f))) rest
  /-- Nodes are put below a new one. -/
  | tree {kind a ts nodes rest} (h : Derives grammar a none ts nodes rest) :
      Derives grammar (.tree kind a) none ts [.above (.named kind) nodes] rest
  /-- A beginning is read, and something is made of it. -/
  | onto {a b ts nodes₁ mid nodes₂ rest} (ha : Derives grammar a none ts nodes₁ mid)
      (hb : Derives grammar b (some nodes₁) mid nodes₂ rest) :
      Derives grammar (.onto a b) none ts nodes₂ rest
  /-- Steps come to an end. -/
  | stepsNil {a left ts} : Derives grammar (.steps a) (some left) ts left ts
  /-- One more step is taken. -/
  | stepsCons {a left ts nodes₁ mid nodes₂ rest}
      (ha : Derives grammar a (some left) ts nodes₁ mid)
      (hs : Derives grammar (.steps a) (some nodes₁) mid nodes₂ rest) :
      Derives grammar (.steps a) (some left) ts nodes₂ rest
  /-- What was read before stays as it is. -/
  | keep {left ts} : Derives grammar .keep (some left) ts left ts
  /-- What was read before is put below a new node. -/
  | wrap {kinds kind f a left ts nodes rest} (hk : applies kinds left = true)
      (h : Derives grammar a none ts nodes rest) :
      Derives grammar (.wrap kinds kind f a) (some left) ts
        [.above (.named kind) (left.map (Tree.withField f) ++ nodes)] rest

namespace Derives

/-! ## What a derivation was made of -/

variable {grammar : Part → Rule Part} {a b : Rule Part} {left : Option (List Tree)}
  {ts rest : List Token} {nodes : List Tree}

theorem of_nothing (h : Derives grammar .nothing none ts nodes rest) :
    nodes = [] ∧ rest = ts := by
  cases h with
  | nothing => exact ⟨rfl, rfl⟩
  | token h => cases h

theorem of_finish (h : Derives grammar .finish none ts nodes rest) :
    nodes = [] ∧ ∃ s, ts = ⟨.finish, s⟩ :: rest := by
  cases h with
  | token h => cases h
  | finish => exact ⟨rfl, _, rfl⟩

theorem of_part {p : Part} (h : Derives grammar (.part p) none ts nodes rest) :
    Derives grammar (grammar p) none ts nodes rest := by
  cases h with
  | token h => cases h
  | part h => exact h

theorem of_both (h : Derives grammar (.both a b) none ts nodes rest) :
    ∃ nodes₁ mid nodes₂, nodes = nodes₁ ++ nodes₂ ∧ Derives grammar a none ts nodes₁ mid
      ∧ Derives grammar b none mid nodes₂ rest := by
  cases h with
  | token h => cases h
  | both ha hb => exact ⟨_, _, _, rfl, ha, hb⟩

theorem of_many (h : Derives grammar (.many a) none ts nodes rest) :
    (nodes = [] ∧ rest = ts)
      ∨ ∃ nodes₁ mid nodes₂, nodes = nodes₁ ++ nodes₂ ∧ Derives grammar a none ts nodes₁ mid
        ∧ Derives grammar (.many a) none mid nodes₂ rest := by
  cases h with
  | token h => cases h
  | manyNil => exact .inl ⟨rfl, rfl⟩
  | manyCons ha hs => exact .inr ⟨_, _, _, rfl, ha, hs⟩

theorem of_mark {p : Punct} {l : Label} (h : Derives grammar (.mark p l) none ts nodes rest) :
    ∃ s, ts = ⟨.punct p, s⟩ :: rest ∧ nodes = [tokenLeaf l s] := by
  cases h with
  | @token _ _ t _ h =>
    obtain ⟨x, s⟩ := t
    simp only [Rule.token?, Option.ite_none_right_eq_some, Option.some.injEq] at h
    obtain ⟨rfl, rfl⟩ := h
    exact ⟨s, rfl, rfl⟩

theorem of_word {k : Keyword} {l : Label} (h : Derives grammar (.word k l) none ts nodes rest) :
    ∃ s, ts = ⟨.word (some k), s⟩ :: rest ∧ nodes = [tokenLeaf l s] := by
  cases h with
  | @token _ _ t _ h =>
    obtain ⟨x, s⟩ := t
    simp only [Rule.token?, Option.ite_none_right_eq_some, Option.some.injEq] at h
    obtain ⟨rfl, rfl⟩ := h
    exact ⟨s, rfl, rfl⟩

theorem of_name {kind : Kind} {taken : List Keyword}
    (h : Derives grammar (.name kind taken) none ts nodes rest) :
    ∃ w s, ts = ⟨.word w, s⟩ :: rest ∧ (∀ k ∈ w, k ∉ taken)
      ∧ nodes = [tokenLeaf (.named kind) s] := by
  cases h with
  | @token _ _ t _ h =>
    obtain ⟨x, s⟩ := t
    rcases Rule.token?_eq_some h with ⟨p, hr, -⟩ | ⟨k, hr, -⟩ |
      ⟨kind, taken, w, hr, hx, rfl, hw⟩ | ⟨kind, hr, -⟩
    · cases hr
    · cases hr
    · cases hr
      obtain rfl : x = .word w := hx
      exact ⟨w, s, rfl, hw, rfl⟩
    · cases hr

theorem of_either (h : Derives grammar (.either a b) left ts nodes rest) :
    Derives grammar a left ts nodes rest ∨ Derives grammar b left ts nodes rest := by
  cases h with
  | token h => cases h
  | first h => exact .inl h
  | second h => exact .inr h

theorem of_field {f : Field} (h : Derives grammar (.field f a) none ts nodes rest) :
    ∃ nodes₁, nodes = nodes₁.map (Tree.withField (some f))
      ∧ Derives grammar a none ts nodes₁ rest := by
  cases h with
  | token h => cases h
  | field h => exact ⟨_, rfl, h⟩

theorem of_tree {kind : Kind} (h : Derives grammar (.tree kind a) none ts nodes rest) :
    ∃ cs, nodes = [.above (.named kind) cs] ∧ Derives grammar a none ts cs rest := by
  cases h with
  | token h => cases h
  | tree h => exact ⟨_, rfl, h⟩

end Derives

/-- **Whether a rule stands where it belongs**: a step, which goes on from
what was read before, only behind a beginning, and any other rule only
where nothing is carried over. -/
def Rule.isPlaced : Rule Part → Bool → Bool
  | .wrap _ _ _ a, step => step && a.isPlaced false
  | .keep, step => step
  | .steps a, step => step && a.isPlaced true
  | .either a b, step => a.isPlaced step && b.isPlaced step
  | .onto a b, step => !step && a.isPlaced false && b.isPlaced true
  | .both a b, step => !step && a.isPlaced false && b.isPlaced false
  | .many a, step => !step && a.isPlaced false
  | .field _ a, step => !step && a.isPlaced false
  | .tree _ a, step => !step && a.isPlaced false
  | _, step => !step

/-- What a step goes on from; nothing for any other rule. -/
def carried (step : Bool) (left : List Tree) : Option (List Tree) :=
  if step then some left else none

namespace Reading

/-! ## What a successful reading was made of -/

theorem andThen_result {r : Reading} {f : List Tree → List Token → Reading}
    {nodes : List Tree} {rest : List Token} (h : (r.andThen f).result = some (nodes, rest)) :
    ∃ nodes₁ mid, r.result = some (nodes₁, mid) ∧ (f nodes₁ mid).result = some (nodes, rest) := by
  unfold andThen at h
  split at h
  next hr => rw [hr] at h; simp at h
  next nodes₁ mid hr => exact ⟨nodes₁, mid, hr, h⟩

theorem orElse_result {r : Reading} {other : Unit → Reading} {nodes : List Tree}
    {rest : List Token} (h : (r.orElse other).result = some (nodes, rest)) :
    r.result = some (nodes, rest) ∨ (other ()).result = some (nodes, rest) := by
  unfold orElse at h
  split at h
  next => exact .inl h
  next => exact .inr h

theorem map_result {r : Reading} {f : List Tree → List Tree} {nodes : List Tree}
    {rest : List Token} (h : (r.map f).result = some (nodes, rest)) :
    ∃ nodes₁, r.result = some (nodes₁, rest) ∧ nodes = f nodes₁ := by
  obtain ⟨⟨nodes₁, rest₁⟩, hr, he⟩ := Option.map_eq_some_iff.1 h
  obtain ⟨rfl, rfl⟩ := Prod.mk.inj he
  exact ⟨nodes₁, hr, rfl⟩

@[simp]
theorem stopAt_result (ts : List Token) : (stopAt ts).result = none := by
  cases ts <;> rfl

theorem takeIf_result {accepts : Lexeme → Bool} {label : Label} {ts rest : List Token}
    {nodes : List Tree} (h : (takeIf accepts label ts).result = some (nodes, rest)) :
    ∃ t, ts = t :: rest ∧ accepts t.lexeme = true ∧ nodes = [tokenLeaf label t.span] := by
  unfold takeIf at h
  split at h
  next t ts =>
    split at h
    next ha =>
      obtain ⟨rfl, rfl⟩ := Prod.mk.inj (Option.some.inj h)
      exact ⟨t, rfl, ha, rfl⟩
    next => simp at h
  next => simp at h

theorem takeAngle_result {ts rest : List Token} {nodes : List Tree}
    (h : (takeAngle ts).result = some (nodes, rest)) :
    ∃ p q s ts', ts = ⟨.punct p, s⟩ :: ts' ∧ p.afterAngle? = some q
      ∧ nodes = [angleLeaf s] ∧ rest = afterAngle q s ts' := by
  unfold takeAngle at h
  split at h
  next p s ts' =>
    simp only at h
    split at h
    next hp =>
      obtain ⟨rfl, rfl⟩ := Prod.mk.inj (Option.some.inj h)
      exact ⟨p, none, s, ts', rfl, hp, rfl, rfl⟩
    next q hp =>
      obtain ⟨rfl, rfl⟩ := Prod.mk.inj (Option.some.inj h)
      exact ⟨p, some q, s, ts', rfl, hp, rfl, rfl⟩
    next => simp at h
  next => simp at h

end Reading

open Reading in
/-- **Whatever is read can be derived**, if every rule stands where it
belongs. -/
theorem derives_of_read {grammar : Part → Rule Part}
    (hg : ∀ p, (grammar p).isPlaced false = true) {fuel : Nat} {rule : Rule Part} {step : Bool}
    (hr : rule.isPlaced step = true) {left : List Tree} {ts : List Token} {nodes : List Tree}
    {rest : List Token} (h : (rule.read grammar fuel left ts).result = some (nodes, rest)) :
    Derives grammar rule (carried step left) ts nodes rest := by
  induction fuel generalizing rule step left ts nodes rest with
  | zero => rw [Rule.read] at h; simp at h
  | succ fuel ih =>
    -- the steps first, then the rules to which nothing is carried over
    cases rule with
    | either a b =>
      obtain ⟨hpa, hpb⟩ := Bool.and_eq_true_iff.1 hr
      rcases orElse_result h with ha | hb
      · exact .first (ih hpa ha)
      · exact .second (ih hpb hb)
    | steps a =>
      obtain ⟨rfl, hpa⟩ := Bool.and_eq_true_iff.1 hr
      rcases orElse_result h with hs | hd
      · obtain ⟨nodes₁, mid, ha, hs⟩ := andThen_result hs
        exact .stepsCons (ih hpa ha) (ih hr hs)
      · obtain ⟨rfl, rfl⟩ := Prod.mk.inj (Option.some.inj hd)
        exact .stepsNil
    | keep =>
      obtain rfl : step = true := hr
      obtain ⟨rfl, rfl⟩ := Prod.mk.inj (Option.some.inj h)
      exact .keep
    | wrap kinds kind f a =>
      obtain ⟨rfl, hpa⟩ := Bool.and_eq_true_iff.1 hr
      rw [Rule.read] at h
      split at h
      next hk =>
        obtain ⟨nodes₁, ha, rfl⟩ := map_result h
        exact .wrap hk (ih hpa ha)
      next => simp at h
    | nothing =>
      obtain rfl : step = false := by simpa [Rule.isPlaced] using hr
      obtain ⟨rfl, rfl⟩ := Prod.mk.inj (Option.some.inj h)
      exact .nothing
    | mark p label =>
      obtain rfl : step = false := by simpa [Rule.isPlaced] using hr
      obtain ⟨t, rfl, ha, rfl⟩ := takeIf_result h
      exact .token (by simpa [Rule.token?] using ha)
    | word k label =>
      obtain rfl : step = false := by simpa [Rule.isPlaced] using hr
      obtain ⟨t, rfl, ha, rfl⟩ := takeIf_result h
      exact .token (by simpa [Rule.token?] using ha)
    | name kind taken =>
      obtain rfl : step = false := by simpa [Rule.isPlaced] using hr
      obtain ⟨t, rfl, ha, rfl⟩ := takeIf_result h
      refine .token ?_
      split at ha
      next hx => rw [hx, Rule.token?]
      next k hx => rw [hx, Rule.token?]; simpa using ha
      next => simp at ha
    | piece kind =>
      obtain rfl : step = false := by simpa [Rule.isPlaced] using hr
      obtain ⟨t, rfl, ha, rfl⟩ := takeIf_result h
      exact .token (by simpa [Rule.token?] using ha)
    | angle =>
      obtain rfl : step = false := by simpa [Rule.isPlaced] using hr
      obtain ⟨p, q, s, ts', rfl, hp, rfl, rfl⟩ := takeAngle_result h
      exact .angle hp
    | finish =>
      obtain rfl : step = false := by simpa [Rule.isPlaced] using hr
      obtain ⟨nodes₁, hr, rfl⟩ := map_result h
      obtain ⟨⟨x, s⟩, rfl, ha, rfl⟩ := takeIf_result hr
      obtain rfl : x = .finish := by simpa using ha
      exact .finish
    | part p =>
      obtain rfl : step = false := by simpa [Rule.isPlaced] using hr
      exact .part (ih (hg p) h)
    | both a b =>
      simp only [Rule.isPlaced, Bool.and_eq_true, Bool.not_eq_true'] at hr
      obtain ⟨⟨rfl, hpa⟩, hpb⟩ := hr
      obtain ⟨nodes₁, mid, ha, hb⟩ := andThen_result h
      obtain ⟨nodes₂, hr, rfl⟩ := map_result hb
      exact .both (ih hpa ha) (ih hpb hr)
    | many a =>
      have hm := hr
      simp only [Rule.isPlaced, Bool.and_eq_true, Bool.not_eq_true'] at hr
      obtain ⟨rfl, hpa⟩ := hr
      rcases orElse_result h with hs | hd
      · obtain ⟨nodes₁, mid, ha, hs⟩ := andThen_result hs
        obtain ⟨nodes₂, hr, rfl⟩ := map_result hs
        exact .manyCons (ih hpa ha) (ih hm hr)
      · obtain ⟨rfl, rfl⟩ := Prod.mk.inj (Option.some.inj hd)
        exact .manyNil
    | barring lexemes =>
      obtain rfl : step = false := by simpa [Rule.isPlaced] using hr
      cases ts with
      | nil => simp [Rule.read] at h
      | cons t ts =>
        simp only [Rule.read] at h
        split at h
        next => simp at h
        next hx =>
          obtain ⟨rfl, rfl⟩ := Prod.mk.inj (Option.some.inj h)
          exact .barring (by simpa using hx)
    | field f a =>
      simp only [Rule.isPlaced, Bool.and_eq_true, Bool.not_eq_true'] at hr
      obtain ⟨rfl, hpa⟩ := hr
      obtain ⟨nodes₁, ha, rfl⟩ := map_result h
      exact .field (ih hpa ha)
    | tree kind a =>
      simp only [Rule.isPlaced, Bool.and_eq_true, Bool.not_eq_true'] at hr
      obtain ⟨rfl, hpa⟩ := hr
      obtain ⟨nodes₁, ha, rfl⟩ := map_result h
      exact .tree (ih hpa ha)
    | onto a b =>
      simp only [Rule.isPlaced, Bool.and_eq_true, Bool.not_eq_true'] at hr
      obtain ⟨⟨rfl, hpa⟩, hpb⟩ := hr
      obtain ⟨nodes₁, mid, ha, hb⟩ := andThen_result h
      exact .onto (ih hpa ha) (ih hpb hb)

end JavaMutants.Syntax
