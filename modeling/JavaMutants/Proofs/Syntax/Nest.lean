import JavaMutants.Proofs.Syntax.Passage
import JavaMutants.Proofs.Target.Occurrence

/-!
# Which brackets are open

A depth tells how many brackets are open, but not which of them was opened
last, and nothing of quotation marks. Here what is open is kept as a stack of
marks (`Lexeme.nest?`): a bracket is closed by its own counterpart, and a
quotation mark ends the quoted text that it stands in or else begins one.

What a rule does to the stack is told by its form (`Rule.nest?`), given the
parts that leave it as it is. So tokens that a rule takes lead from one stack to
another (`Derives.leads`), and every part leads back to the stack it began with
(`leads_of_isNested`).
-/

namespace JavaMutants.Syntax

/-! ## The stack -/

/-- **What is open after a lexeme**, the innermost first, if the lexeme does not
close what is not open. -/
def Lexeme.nest? : Lexeme → List Punct → Option (List Punct)
  | .punct .parenOpen, s => some (.parenOpen :: s)
  | .punct .braceOpen, s => some (.braceOpen :: s)
  | .punct .interpolate, s => some (.interpolate :: s)
  | .punct .quote, .quote :: s => some s
  | .punct .quote, s => some (.quote :: s)
  | .punct .textQuote, .textQuote :: s => some s
  | .punct .textQuote, s => some (.textQuote :: s)
  | .punct .parenClose, .parenOpen :: s => some s
  | .punct .parenClose, _ => none
  | .punct .braceClose, .braceOpen :: s | .punct .braceClose, .interpolate :: s => some s
  | .punct .braceClose, _ => none
  | .finish, _ => none
  | _, s => some s

/-- Whether the innermost of what is open is a quoted text. -/
def isQuoted : List Punct → Bool
  | .quote :: _ | .textQuote :: _ => true
  | _ => false

/-- Whether a mark opens a bracket. -/
def Punct.isBracket (p : Punct) : Bool := p == .parenOpen || p == .braceOpen || p == .interpolate

/-- **What a lexeme does is the same further within**, if the quoted text that it
might end did not begin outside. -/
theorem Lexeme.nest?_append {x : Lexeme} {c e s : List Punct} (h : x.nest? c = some e)
    (hs : isQuoted s = false) : x.nest? (c ++ s) = some (e ++ s) := by
  cases x with
  | punct p =>
    cases p with
    | quote | textQuote =>
      cases c with
      | nil =>
        cases h
        cases s with
        | nil => rfl
        | cons q s => cases q <;> first | rfl | cases hs
      | cons q c => cases q <;> cases h <;> rfl
    | parenClose | braceClose =>
      cases c with
      | nil => cases h
      | cons q c => cases q <;> cases h <;> rfl
    | _ => cases h; rfl
  | finish => cases h
  | _ => cases h; rfl

/-- **What is open after some tokens**, if they close nothing that is not open. -/
def nestAll? : List Punct → List Token → Option (List Punct)
  | s, [] => some s
  | s, t :: ts => (t.lexeme.nest? s).bind fun e => nestAll? e ts

/-! ## From one stack to another -/

/-- **Tokens lead to others**, be it in the middle of a mark that was taken apart, and
what is open changes on the way. -/
inductive Leads : List Punct → List Token → List Punct → List Token → Prop where
  /-- None is passed. -/
  | refl {s ts} : Leads s ts s ts
  /-- A token is passed. -/
  | token {s m e t ts us} (ht : t.lexeme.nest? s = some m) (h : Leads m ts e us) :
      Leads s (t :: ts) e us
  /-- A closing angle bracket is passed. -/
  | angle {s e p q sp ts us} (hp : p.afterAngle? = some q) (h : Leads s (afterAngle q sp ts) e us) :
      Leads s (⟨.punct p, sp⟩ :: ts) e us

theorem Leads.trans {s m e : List Punct} {ts us vs : List Token} (h : Leads s ts m us)
    (h' : Leads m us e vs) : Leads s ts e vs := by
  induction h with
  | refl => exact h'
  | token ht _ ih => exact .token ht (ih h')
  | angle hp _ ih => exact .angle hp (ih h')

theorem leads_of_nestAll? {s e : List Punct} {ts : List Token} (h : nestAll? s ts = some e)
    (us : List Token) : Leads s (ts ++ us) e us := by
  induction ts generalizing s with
  | nil =>
    cases h
    exact .refl
  | cons t ts ih =>
    obtain ⟨m, hm, h⟩ := Option.bind_eq_some_iff.1 h
    exact .token hm (ih h)

theorem Leads.follows {s e : List Punct} {ts us : List Token} (h : Leads s ts e us) :
    Follows ts us := by
  induction h with
  | refl => exact .refl
  | token _ _ ih => exact .token ih
  | angle hp _ ih => exact .angle hp ih

/-- What is left of a mark that begins with a closing angle bracket opens and closes
nothing, and neither does the mark. -/
theorem nest?_of_afterAngle? {p : Punct} {q : Option Punct} (h : p.afterAngle? = some q)
    (s : List Punct) : (Lexeme.punct p).nest? s = some s
      ∧ ∀ r ∈ q, (Lexeme.punct r).nest? s = some s := by
  cases p <;> cases h <;> exact ⟨rfl, by rintro r ⟨⟩ <;> rfl⟩

/-- The marks that can be left of others. -/
def remainders : List Lexeme :=
  [.punct .assign, .punct .gt, .punct .ge, .punct .shr, .punct .shrAssign]

theorem mem_remainders {p q : Punct} (h : p.afterAngle? = some (some q)) :
    .punct q ∈ remainders := by
  cases p <;> cases h <;> decide

/-- **Tokens that do not begin in the middle of a mark** are the last of those that
lead to them, and what comes before opens and closes what is passed. -/
theorem Leads.exists_append {s e : List Punct} {ts us : List Token} (h : Leads s ts e us)
    (hus : ∀ t ∈ us.head?, t.lexeme ∉ remainders) :
    ∃ before, ts = before ++ us ∧ nestAll? s before = some e := by
  induction h with
  | refl => exact ⟨[], rfl, rfl⟩
  | @token s m e t ts us ht _ ih =>
    obtain ⟨before, rfl, hbefore⟩ := ih hus
    refine ⟨t :: before, rfl, ?_⟩
    rw [nestAll?, ht]
    exact hbefore
  | @angle s e p q sp ts us hp _ ih =>
    obtain ⟨before, hts, hbefore⟩ := ih hus
    obtain ⟨hmark, hrest⟩ := nest?_of_afterAngle? hp s
    cases q with
    | none =>
      refine ⟨⟨.punct p, sp⟩ :: before, congrArg _ hts, ?_⟩
      rw [nestAll?, hmark]
      exact hbefore
    | some r =>
      cases before with
      | nil => exact absurd (mem_remainders hp) (hus ⟨.punct r, ⟨sp.start + 1, sp.stop⟩⟩ (by
          rw [← List.nil_append us, ← hts]
          rfl))
      | cons t before =>
        obtain ⟨rfl, rfl⟩ := List.cons.inj hts
        refine ⟨⟨.punct p, sp⟩ :: before, rfl, ?_⟩
        rw [nestAll?, hrest r rfl] at hbefore
        rw [nestAll?, hmark]
        exact hbefore

/-! ## What rules do to the stack -/

section Rules

variable {Part : Type} {grammar : Part → Rule Part}

/-- **What is open after a rule**, if that is always the same, given the parts that
leave a stack as it is. -/
def Rule.nest? (named : Part → List Punct → Bool) : Rule Part → List Punct → Option (List Punct)
  | .mark p _, s => (Lexeme.punct p).nest? s
  | .finish, _ => none
  | .part p, s => if named p s then some s else none
  | .both a b, s | .onto a b, s => (a.nest? named s).bind (b.nest? named)
  | .either a b, s => if a.nest? named s = b.nest? named s then a.nest? named s else none
  | .many a, s | .steps a, s => if a.nest? named s = some s then some s else none
  | .field _ a, s | .tree _ a, s | .wrap _ _ _ a, s => a.nest? named s
  | .nothing, s | .word _ _, s | .name _ _, s | .piece _, s | .angle, s | .barring _, s
  | .keep, s => some s

/-- A rule for a token does what the token does. -/
theorem Rule.nest?_of_token? {named : Part → List Punct → Bool} {rule : Rule Part}
    {s e : List Punct} (h : rule.nest? named s = some e) {x : Lexeme} {label : Label}
    (hx : rule.token? x = some label) : x.nest? s = some e := by
  rcases Rule.token?_eq_some hx with ⟨p, rfl, rfl⟩ | ⟨k, rfl, rfl⟩ |
    ⟨kind, taken, w, rfl, rfl, -⟩ | ⟨kind, rfl, rfl, -⟩ <;> exact h

/-- **What a rule does is the same further within.** -/
theorem Rule.nest?_append {named named' : Part → List Punct → Bool} {s : List Punct}
    (hs : isQuoted s = false) (hnamed : ∀ p c, named p c = true → named' p (c ++ s) = true)
    {rule : Rule Part} {c e : List Punct} (h : rule.nest? named c = some e) :
    rule.nest? named' (c ++ s) = some (e ++ s) := by
  induction rule generalizing c e with
  | nothing | word | name | piece | angle | barring | keep => cases h; rfl
  | mark p label => exact Lexeme.nest?_append h hs
  | finish => cases h
  | part p =>
    rw [nest?] at h ⊢
    split at h
    next hp =>
      cases h
      rw [if_pos (hnamed p c hp)]
    next => cases h
  | both a b iha ihb | onto a b iha ihb =>
    obtain ⟨m, ha, hb⟩ := Option.bind_eq_some_iff.1 h
    exact Option.bind_eq_some_iff.2 ⟨m ++ s, iha ha, ihb hb⟩
  | either a b iha ihb =>
    rw [nest?] at h ⊢
    split at h
    next heq => rw [iha h, ihb (heq ▸ h), if_pos rfl]
    next => cases h
  | many a ih | steps a ih =>
    rw [nest?] at h ⊢
    split at h
    next heq =>
      cases h
      rw [ih heq, if_pos rfl]
    next => cases h
  | field f a ih | tree kind a ih | wrap kinds kind f a ih => exact ih h

/-- **What a rule takes leads to what it leaves.** -/
theorem Derives.leads {named : Part → List Punct → Bool}
    (hnamed : ∀ p s, named p s = true → (grammar p).nest? named s = some s) {rule : Rule Part}
    {left : Option (List Tree)} {ts rest : List Token} {nodes : List Tree}
    (h : Derives grammar rule left ts nodes rest) {s e : List Punct}
    (hnest : rule.nest? named s = some e) : Leads s ts e rest := by
  induction h generalizing s e with
  | nothing | barring | keep =>
    cases hnest
    exact .refl
  | manyNil | stepsNil =>
    rw [Rule.nest?] at hnest
    split at hnest
    next =>
      cases hnest
      exact .refl
    next => cases hnest
  | token h => exact .token (Rule.nest?_of_token? hnest h) .refl
  | angle hp =>
    cases hnest
    exact .angle hp .refl
  | finish => cases hnest
  | @part p _ _ _ _ ih =>
    rw [Rule.nest?] at hnest
    split at hnest
    next hp =>
      cases hnest
      exact ih (hnamed p s hp)
    next => cases hnest
  | both _ _ iha ihb | onto _ _ iha ihb =>
    obtain ⟨m, ha, hb⟩ := Option.bind_eq_some_iff.1 hnest
    exact (iha ha).trans (ihb hb)
  | first _ ih =>
    rw [Rule.nest?] at hnest
    split at hnest
    next => exact ih hnest
    next => cases hnest
  | second _ ih =>
    rw [Rule.nest?] at hnest
    split at hnest
    next heq => exact ih (heq ▸ hnest)
    next => cases hnest
  | manyCons _ _ iha ihs | stepsCons _ _ iha ihs =>
    have hs := hnest
    rw [Rule.nest?] at hnest
    split at hnest
    next ha =>
      cases hnest
      exact (iha ha).trans (ihs hs)
    next => cases hnest
  | field _ ih | tree _ ih | wrap _ _ ih => exact ih hnest

end Rules

/-! ## The grammar -/

namespace Grammar

open Rule

/-- **The parts that leave a stack as it is**: in a quoted text only the code that is
written in it, and elsewhere all but a whole program. -/
def isNested (p : Part) : List Punct → Bool
  | .quote :: s | .textQuote :: s => !isQuoted s && p == .node .stringInterpolation
  | _ => isInner p

theorem nest?_inner (p : Part) (h : isInner p = true) :
    (rules p).nest? isNested [] = some [] := by
  have h' := forall_part_of_all
    (fun p => !isInner p || decide ((rules p).nest? isNested [] = some []))
    (by decide +kernel) (fun l n => by rw [rules_binary_high]; rfl) p
  simpa [h] using h'

/-- It is the same further within. -/
theorem isNested_append {p : Part} {c s : List Punct} (h : isNested p c = true)
    (hs : isQuoted s = false) : isNested p (c ++ s) = true := by
  cases c with
  | nil =>
    cases s with
    | nil => exact h
    | cons r s => cases r <;> first | exact h | cases hs
  | cons r c =>
    cases r with
    | quote | textQuote =>
      have hquoted : isQuoted (c ++ s) = isQuoted c := by
        cases c with
        | nil => exact hs
        | cons r c => cases r <;> rfl
      show (!isQuoted (c ++ s) && _) = true
      rw [hquoted]
      exact h
    | _ => exact h

/-- What a part leaves as it is, as far as it matters, and what is open around it. -/
theorem exists_of_isNested {p : Part} {s : List Punct} (h : isNested p s = true) :
    ∃ c r, s = c ++ r ∧ isQuoted r = false ∧ (∀ q ∈ c, q.isBracket = false)
      ∧ (rules p).nest? isNested c = some c := by
  cases s with
  | nil => exact ⟨[], [], rfl, rfl, nofun, nest?_inner p h⟩
  | cons q s =>
    cases q with
    | quote | textQuote =>
      obtain ⟨hs, hp⟩ := Bool.and_eq_true_iff.1 h
      obtain rfl := beq_iff_eq.1 hp
      exact ⟨[_], s, rfl, by simpa using hs, by simp; decide, by decide⟩
    | _ => exact ⟨[], _, rfl, rfl, nofun, nest?_inner p h⟩

/-- **Every part but a whole program leaves what is open as it is.** -/
theorem nest?_of_isNested (p : Part) (s : List Punct) (h : isNested p s = true) :
    (rules p).nest? isNested s = some s := by
  obtain ⟨c, r, rfl, hr, -, hc⟩ := exists_of_isNested h
  exact nest?_append hr (fun q d hd => isNested_append hd hr) hc

/-- **What a part takes leads back** to what was open before. -/
theorem leads_of_isNested {rule : Rules} {left : Option (List Tree)} {ts rest : List Token}
    {nodes : List Tree} (h : Derives rules rule left ts nodes rest) {s e : List Punct}
    (hnest : rule.nest? isNested s = some e) : Leads s ts e rest :=
  h.leads nest?_of_isNested hnest

end Grammar

end JavaMutants.Syntax
