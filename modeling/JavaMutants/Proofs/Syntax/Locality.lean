import JavaMutants.Proofs.Syntax.Bracket
import JavaMutants.Proofs.Syntax.Outcome
import Mathlib.Data.List.Forall2

/-!
# What reading depends on

Reading never looks past a token that cannot be crossed. So it does the
same on two lists of tokens that are the same up to the first such token, no
matter where they stand and what comes after it (`outcome_agree`): the nodes
that it makes are the same, and stand where the tokens do (`Tree.Moved`).

This is what lets a declaration be read by itself: the tokens of its head
are the same up to the brace that opens its body, and those of its body up to
the brace that ends it (`Grammar.EndsWithBody.exists_own`).
-/

namespace JavaMutants.Syntax

open Syntax.Tree

/-- **The same token at another place**: the first one stands in a text after
some bytes as the second one does in another text. -/
structure Token.Moved (a b : Nat) (t u : Token) : Prop where
  /-- They are the same lexeme. -/
  lexeme : t.lexeme = u.lexeme
  /-- They begin at the same distance. -/
  start : u.span.start + a = t.span.start + b
  /-- They end at the same distance. -/
  stop : u.span.stop + a = t.span.stop + b

/-! ## Trees at another place -/

namespace Tree

/-- **A node like another one at another place.** One without children that is no token
lies nowhere: it begins and ends at zero. -/
structure Moves (a b : Nat) (x y : Tree) : Prop where
  /-- They are the same. -/
  label : x.label = y.label
  /-- They begin at the same distance. -/
  start : y.start + a = x.start + b ∨ x.start = 0 ∧ y.start = 0
  /-- They end at the same distance. -/
  stop : y.stop + a = x.stop + b ∨ x.stop = 0 ∧ y.stop = 0

/-- **The same tree at another place**: node by node, in document order. -/
def Moved (a b : Nat) (n m : Tree) : Prop := List.Forall₂ (Moves a b) n.preorder m.preorder

variable {a b : Nat} {n m : Tree} {ns ms : List Tree}

theorem Moved.moves (h : Moved a b n m) : Moves a b n m := by
  rw [Moved, preorder_eq n, preorder_eq m] at h
  cases h with
  | cons h _ => exact h

theorem moved_tokenLeaf {t u : Token} (h : t.Moved a b u) (l : Label) :
    Moved a b (tokenLeaf l t.span) (tokenLeaf l u.span) := by
  have hstart := h.start
  have hstop := h.stop
  refine .cons ⟨?_, .inl hstart, .inl hstop⟩ .nil
  have hlt : t.span.start < t.span.stop ↔ u.span.start < u.span.stop := by omega
  show (if t.span.start < t.span.stop then l else .missing l.text)
    = if u.span.start < u.span.stop then l else .missing l.text
  rw [if_congr hlt rfl rfl]

theorem Moved.withField (h : Moved a b n m) (f : Option Field) :
    Moved a b (n.withField f) (m.withField f) := by
  have hmoves := h.moves
  rw [Moved, preorder_eq n, preorder_eq m, List.forall₂_cons] at h
  rw [Moved, preorder_eq, preorder_eq (m.withField f), children_withField, children_withField]
  exact .cons ⟨by rw [label_withField, label_withField]; exact hmoves.label,
    by simpa using hmoves.start, by simpa using hmoves.stop⟩ h.2

theorem start_above (l : Label) (cs : List Tree) :
    (above l cs).start = (cs.head?.map Tree.start).getD 0 := by
  cases cs with
  | nil => rfl
  | cons c cs =>
    rw [Tree.start, above, List.head?_cons, List.getLast?_cons]
    rfl

theorem stop_above (l : Label) (cs : List Tree) :
    (above l cs).stop = (cs.getLast?.map Tree.stop).getD 0 := by
  cases cs with
  | nil => rfl
  | cons c cs =>
    rw [Tree.stop, above, List.head?_cons, List.getLast?_cons]
    rfl

theorem moved_above (h : List.Forall₂ (Moved a b) ns ms) (l : Label) :
    Moved a b (above l ns) (above l ms) := by
  have hbelow : List.Forall₂ (Moves a b) (ns.flatMap preorder) (ms.flatMap preorder) :=
    List.rel_flatMap h fun _ _ hnm => hnm
  rw [Moved, preorder_eq, preorder_eq (above l ms)]
  refine .cons ⟨rfl, ?_, ?_⟩ hbelow
  · rw [start_above, start_above]
    cases h with
    | nil => exact .inr ⟨rfl, rfl⟩
    | cons hnm _ => exact hnm.moves.start
  · rw [stop_above, stop_above, List.getLast?_eq_head?_reverse, List.getLast?_eq_head?_reverse]
    have hrev := List.rel_reverse h
    generalize ns.reverse = xs at hrev
    generalize ms.reverse = ys at hrev
    cases hrev with
    | nil => exact .inr ⟨rfl, rfl⟩
    | cons hnm _ => exact hnm.moves.stop

end Tree

/-- **Tokens are the same from a depth on**, at another place, up to the first that cannot
be crossed, after which there are those of two given lists. -/
inductive Agree (strict : Bool) (a b : Nat) (rest rest' : List Token) :
    Depth → List Token → List Token → Prop where
  /-- A token cannot be crossed. -/
  | stop {d t u} (h : t.Moved a b u) (hd : t.lexeme.cross? strict d = none) :
      Agree strict a b rest rest' d (t :: rest) (u :: rest')
  /-- A token can be crossed. -/
  | cross {d e t u ts us} (h : t.Moved a b u) (hd : t.lexeme.cross? strict d = some e)
      (hts : Agree strict a b rest rest' e ts us) :
      Agree strict a b rest rest' d (t :: ts) (u :: us)

namespace Agree

variable {strict : Bool} {a b : Nat} {rest rest' : List Token} {d : Depth} {t u : Token}
  {ts us : List Token}

theorem exists_cons (h : Agree strict a b rest rest' d ts us) :
    ∃ t u ts' us', ts = t :: ts' ∧ us = u :: us' ∧ t.Moved a b u := by
  cases h with
  | stop h => exact ⟨_, _, _, _, rfl, rfl, h⟩
  | cross h => exact ⟨_, _, _, _, rfl, rfl, h⟩

theorem tail {e : Depth} (h : Agree strict a b rest rest' d (t :: ts) (u :: us))
    (hd : t.lexeme.cross? strict d = some e) : Agree strict a b rest rest' e ts us := by
  cases h with
  | stop _ hn => cases hn.symm.trans hd
  | cross _ hs hts =>
    cases hs.symm.trans hd
    exact hts

theorem tail_eq (h : Agree strict a b rest rest' d (t :: ts) (u :: us))
    (hd : t.lexeme.cross? strict d = none) : ts = rest ∧ us = rest' := by
  cases h with
  | stop => exact ⟨rfl, rfl⟩
  | cross _ hs => cases hd.symm.trans hs

/-- **Tokens agree** if they are the same up to the first that cannot be
crossed. -/
theorem of_forall₂ {before before' : List Token}
    (hall : List.Forall₂ (Token.Moved a b) before before') (ht : t.Moved a b u)
    (h : beyond strict d (before ++ t :: rest) = t :: rest) :
    Agree strict a b rest rest' d (before ++ t :: rest) (before' ++ u :: rest') := by
  induction hall generalizing d with
  | nil =>
    rw [List.nil_append, beyond] at h
    split at h
    next e hd =>
      -- what is left would be longer than what it is left of
      obtain ⟨cs, -, hcs, -⟩ := exists_crossAll? strict e rest
      rw [h] at hcs
      have hlen := congrArg List.length hcs
      simp at hlen
      omega
    next hd => exact .stop ht hd
  | @cons v w before before' hv hall ih =>
    rw [List.cons_append, beyond] at h
    split at h
    next e hd => exact .cross hv hd (ih h)
    next hd =>
      have hlen := congrArg List.length h
      simp at hlen
      omega

end Agree

/-! ## Reading at another place -/

/-- Steps apply by labels alone. -/
theorem applies_eq {a b : Nat} {left left' : List Tree}
    (h : List.Forall₂ (Tree.Moved a b) left left') (kinds : List Kind) :
    applies kinds left = applies kinds left' := by
  have hany : ∀ ts : List Tree, (ts.any fun t => kinds.any fun k => t.isA k)
      = (ts.map label).any fun l => kinds.any fun k => l == .named k := fun ts => by
    rw [List.any_map]
    rfl
  have hlabels : left.map label = left'.map label := by
    refine List.forall₂_eq_eq_eq ▸ List.rel_map (R := Tree.Moved a b) (fun _ _ hnm => ?_) h
    exact hnm.moves.label
  unfold applies
  rw [hany, hany, hlabels]

/-- **Results are the same**: both rules fail, or both give the same nodes and leave
tokens that agree. -/
def SameResult (strict : Bool) (a b : Nat) (rest rest' : List Token) (e : Depth) :
    Option (List Tree × List Token) → Option (List Tree × List Token) → Prop :=
  Option.Rel fun x y => List.Forall₂ (Tree.Moved a b) x.1 y.1 ∧ Agree strict a b rest rest' e x.2 y.2

section Read

variable {Part : Type} {grammar : Part → Rule Part} {strict : Bool}
  {named : Part → Depth → Bool} {a b : Nat} {rest rest' : List Token} {d e : Depth}

theorem sameResult_takeIf {accepts : Lexeme → Bool} {l : Label} {ts us : List Token}
    (h : Agree strict a b rest rest' d ts us)
    (hcross : ∀ x, accepts x = true → x.cross? strict d = some e) :
    SameResult strict a b rest rest' e (takeIf accepts l ts).result (takeIf accepts l us).result := by
  obtain ⟨t, u, ts, us, rfl, rfl, ht⟩ := h.exists_cons
  unfold takeIf
  dsimp only
  rw [← ht.lexeme]
  split
  next ha => exact .some ⟨.cons (moved_tokenLeaf ht l) .nil, h.tail (hcross _ ha)⟩
  next => exact .none

theorem sameResult_takeAngle {ts us : List Token} (h : Agree strict a b rest rest' d ts us) :
    SameResult strict a b rest rest' d (takeAngle ts).result (takeAngle us).result := by
  obtain ⟨⟨x, s⟩, ⟨y, r⟩, ts, us, rfl, rfl, ht⟩ := h.exists_cons
  obtain rfl : x = y := ht.lexeme
  have hstart : r.start + a = s.start + b := ht.start
  have hstop : r.stop + a = s.stop + b := ht.stop
  cases x with
  | punct p =>
    have hleaf : Tree.Moved a b (tokenLeaf (.punct .gt) ⟨s.start, min (s.start + 1) s.stop⟩)
        (tokenLeaf (.punct .gt) ⟨r.start, min (r.start + 1) r.stop⟩) :=
      moved_tokenLeaf (t := ⟨.punct p, ⟨s.start, min (s.start + 1) s.stop⟩⟩)
        (u := ⟨.punct p, ⟨r.start, min (r.start + 1) r.stop⟩⟩)
        ⟨rfl, hstart, by dsimp only; omega⟩ _
    unfold takeAngle
    dsimp only
    split
    next hp =>
      obtain ⟨hcross, -⟩ := cross?_of_afterAngle? strict d hp
      exact .some ⟨.cons hleaf .nil, h.tail hcross⟩
    next q hp =>
      obtain ⟨hcross, hq⟩ := cross?_of_afterAngle? strict d hp
      have hpiece : Token.Moved a b ⟨.punct q, ⟨s.start + 1, s.stop⟩⟩
          ⟨.punct q, ⟨r.start + 1, r.stop⟩⟩ := ⟨rfl, by dsimp only; omega, hstop⟩
      exact .some ⟨.cons hleaf .nil, .cross hpiece (hq q rfl) (h.tail hcross)⟩
    next => exact .none
  | _ => exact .none

variable {c : Depth} {r r' : Reading}

theorem sameResult_andThen {f f' : List Tree → List Token → Reading}
    (hr : SameResult strict a b rest rest' d r.result r'.result)
    (hf : ∀ ns ns' ts ts', List.Forall₂ (Tree.Moved a b) ns ns' → Agree strict a b rest rest' d ts ts' →
      SameResult strict a b rest rest' e (f ns ts).result (f' ns' ts').result) :
    SameResult strict a b rest rest' e (r.andThen f).result (r'.andThen f').result := by
  rw [Reading.result_andThen, Reading.result_andThen]
  generalize r.result = x at hr
  generalize r'.result = y at hr
  cases hr with
  | none => exact .none
  | some h => exact hf _ _ _ _ h.1 h.2

theorem sameResult_orElse {o o' : Unit → Reading}
    (hr : SameResult strict a b rest rest' e r.result r'.result)
    (ho : SameResult strict a b rest rest' e (o ()).result (o' ()).result) :
    SameResult strict a b rest rest' e (r.orElse o).result (r'.orElse o').result := by
  rw [Reading.result_orElse, Reading.result_orElse]
  generalize r.result = x at hr
  generalize r'.result = y at hr
  cases hr with
  | none => exact ho
  | some h => exact .some h

theorem sameResult_map {f f' : List Tree → List Tree}
    (hr : SameResult strict a b rest rest' e r.result r'.result)
    (hf : ∀ ns ns', List.Forall₂ (Tree.Moved a b) ns ns' →
      List.Forall₂ (Tree.Moved a b) (f ns) (f' ns')) :
    SameResult strict a b rest rest' e (r.map f).result (r'.map f').result := by
  rw [Reading.result_map, Reading.result_map]
  generalize r.result = x at hr
  generalize r'.result = y at hr
  cases hr with
  | none => exact .none
  | some h => exact .some ⟨hf _ _ h.1, h.2⟩

/-- **Reading does the same on tokens that agree**: it fails on both, or
gives the same nodes and leaves tokens that agree. -/
theorem sameResult_read
    (hnamed : ∀ p d, named p d = true → (grammar p).track? strict named d = some d)
    (fuel : Nat) {rule : Rule Part} {left left' : List Tree} {ts us : List Token}
    (htrack : rule.track? strict named d = some e)
    (hleft : List.Forall₂ (Tree.Moved a b) left left')
    (h : Agree strict a b rest rest' d ts us) :
    SameResult strict a b rest rest' e (rule.read grammar fuel left ts).result
      (rule.read grammar fuel left' us).result := by
  induction fuel generalizing rule left left' ts us d e with
  | zero =>
    rw [Rule.read, Rule.read, Reading.stopAt_result, Reading.stopAt_result]
    exact .none
  | succ fuel ih =>
    cases rule with
    | nothing =>
      cases htrack
      exact .some ⟨.nil, h⟩
    | keep =>
      cases htrack
      exact .some ⟨hleft, h⟩
    | mark p l => exact sameResult_takeIf h fun x hx => beq_iff_eq.1 hx ▸ htrack
    | word k l => exact sameResult_takeIf h fun x hx => beq_iff_eq.1 hx ▸ htrack
    | piece kind => exact sameResult_takeIf h fun x hx => beq_iff_eq.1 hx ▸ htrack
    | name kind taken =>
      cases htrack
      refine sameResult_takeIf h fun x hx => ?_
      cases x with
      | word => rfl
      | _ => cases hx
    | angle =>
      cases htrack
      exact sameResult_takeAngle h
    | finish => cases htrack
    | part p =>
      rw [Rule.track?] at htrack
      split at htrack
      next hp =>
        cases htrack
        exact ih (hnamed p d hp) hleft h
      next => cases htrack
    | both a b =>
      obtain ⟨m, ha, hb⟩ := Option.bind_eq_some_iff.1 htrack
      refine sameResult_andThen (ih ha hleft h) fun ns ns' ts ts' hns hts => ?_
      exact sameResult_map (ih hb .nil hts) fun ms ms' hms => List.rel_append hns hms
    | either a b =>
      rw [Rule.track?] at htrack
      split at htrack
      next heq => exact sameResult_orElse (ih htrack hleft h) (ih (heq ▸ htrack) hleft h)
      next => cases htrack
    | many a =>
      have hm := htrack
      rw [Rule.track?] at htrack
      split at htrack
      next ha =>
        cases htrack
        refine sameResult_orElse (sameResult_andThen (ih ha .nil h) fun ns ns' ts ts' hns hts => ?_)
          (.some ⟨.nil, h⟩)
        exact sameResult_map (ih hm .nil hts) fun ms ms' hms => List.rel_append hns hms
      next => cases htrack
    | barring lexemes =>
      cases htrack
      obtain ⟨t, u, ts, us, rfl, rfl, ht⟩ := h.exists_cons
      simp only [Rule.read, ← ht.lexeme]
      split
      next => exact .none
      next => exact .some ⟨.nil, h⟩
    | field f a => exact sameResult_map (ih htrack hleft h) fun ns ns' hns => List.rel_map (fun _ _ hnm => hnm.withField _) hns
    | tree kind a =>
      exact sameResult_map (ih htrack .nil h) fun ns ns' hns => .cons (moved_above hns _) .nil
    | onto a b =>
      obtain ⟨m, ha, hb⟩ := Option.bind_eq_some_iff.1 htrack
      exact sameResult_andThen (ih ha .nil h) fun ns ns' ts ts' hns hts => ih hb hns hts
    | steps a =>
      have hs := htrack
      rw [Rule.track?] at htrack
      split at htrack
      next ha =>
        cases htrack
        exact sameResult_orElse
          (sameResult_andThen (ih ha hleft h) fun ns ns' ts ts' hns hts => ih hs hns hts)
          (.some ⟨hleft, h⟩)
      next => cases htrack
    | wrap kinds kind f a =>
      rw [Rule.read, Rule.read, applies_eq hleft]
      split
      next =>
        refine sameResult_map (ih htrack .nil h) fun ns ns' hns => .cons (moved_above ?_ _) .nil
        exact List.rel_append (List.rel_map (fun _ _ hnm => hnm.withField _) hleft) hns
      next =>
        rw [Reading.stopAt_result, Reading.stopAt_result]
        exact .none

end Read

namespace Grammar

open Rule

/-- **What a rule makes of tokens does not depend on what comes after the
first that it cannot cross.** -/
theorem outcome_agree {strict : Bool} {named : Part → Depth → Bool}
    (hnamed : ∀ p d, named p d = true → (rules p).track? strict named d = some d)
    {rule : Rules} (hp : rule.isPaced isTaking = true) {d e : Depth}
    (htrack : rule.track? strict named d = some e) {a b : Nat} {rest rest' ts us : List Token}
    (h : Agree strict a b rest rest' d ts us) :
    SameResult strict a b rest rest' e (outcome rule [] ts) (outcome rule [] us) := by
  have hfuel := sameResult_read hnamed
    (max (rule.enough isTaking reach ts) (rule.enough isTaking reach us)) htrack
    (.nil : List.Forall₂ (Tree.Moved a b) [] []) h
  rwa [result_read hp (Nat.le_max_left _ _), result_read hp (Nat.le_max_right _ _)] at hfuel

/-- What can be read can be read from tokens that agree. -/
theorem exists_of_agree {strict : Bool} {named : Part → Depth → Bool}
    (hnamed : ∀ p d, named p d = true → (rules p).track? strict named d = some d)
    {rule : Rules} (hp : rule.isPaced isTaking = true) {d e : Depth}
    (htrack : rule.track? strict named d = some e) {a b : Nat} {rest rest' ts us mid : List Token}
    (h : Agree strict a b rest rest' d ts us) {nodes : List Tree}
    (hout : outcome rule [] ts = some (nodes, mid)) :
    ∃ nodes' mid', outcome rule [] us = some (nodes', mid')
      ∧ List.Forall₂ (Tree.Moved a b) nodes nodes' ∧ Agree strict a b rest rest' e mid mid' := by
  have hsame := outcome_agree hnamed hp htrack h
  rw [hout] at hsame
  generalize outcome rule [] us = x at hsame
  cases hsame with
  | some h => exact ⟨_, _, rfl, h⟩

/-! ## Heads and bodies -/

/-- A token begins the body of a declaration that some tokens are left
after: a semicolon is all of it, and a brace goes on to the one that ends
it. -/
inductive BeginsBody : Token → List Token → List Token → Prop where
  /-- There is nothing but a semicolon. -/
  | semicolon {t rest} (h : t.lexeme = .punct .semicolon) : BeginsBody t rest rest
  /-- There is something in braces. -/
  | brace {t u ts rest} (h : t.lexeme = .punct .braceOpen)
      (hu : u.lexeme = .punct .braceClose) (hts : Syntax.beyond false .outer ts = u :: rest) :
      BeginsBody t ts rest

/-- The same body stands in other tokens. -/
inductive SameBody (a b : Nat) :
    Token → List Token → List Token → List Token → List Token → Prop where
  /-- There is nothing but a semicolon. -/
  | semicolon {t rest rest'} (h : t.lexeme = .punct .semicolon) :
      SameBody a b t rest rest rest' rest'
  /-- There is the same in braces. -/
  | brace {t ts rest ts' rest'} (h : t.lexeme = .punct .braceOpen)
      (hts : Agree false a b rest rest' .outer ts ts') : SameBody a b t ts rest ts' rest'

/-- **A rule ends with a body**: what it reads goes up to a body that ends
it, and from the same tokens it reads the same wherever they stand. -/
def EndsWithBody (rule : Rules) : Prop :=
  ∀ ts nodes rest, outcome rule [] ts = some (nodes, rest) →
    ∃ t body, Syntax.beyond true .outer ts = t :: body ∧ BeginsBody t body rest
      ∧ ∀ m n us body' rest', Agree true m n body body' .outer ts us →
        SameBody m n t body rest body' rest' → ∃ nodes', outcome rule [] us = some (nodes', rest')
          ∧ List.Forall₂ (Tree.Moved m n) nodes nodes'

/-- The outcome of a rule for one token. -/
theorem outcome_token {rule : Rules} {t : Token} {rest : List Token} {label : Label}
    (h : rule.token? t.lexeme = some label) (left : List Tree) :
    outcome rule left (t :: rest) = some ([tokenLeaf label t.span], rest) := by
  rcases token?_eq_some h with ⟨p, rfl, hx⟩ | ⟨k, rfl, hx⟩ | ⟨kind, taken, w, rfl, hx, rfl, hw⟩ |
    ⟨kind, rfl, hx, rfl⟩
  all_goals
    rw [outcome_eq_read rfl]
    simp only [Rule.read, takeIf, hx]
  · simp [Reading.done]
  · simp [Reading.done]
  · cases w with
    | none => simp [Reading.done]
    | some k =>
      have hk := hw k rfl
      simp [Reading.done, hk]
  · simp [Reading.done]

/-- What a rule for a mark has read. -/
theorem of_outcome_sym {p : Punct} {ts rest : List Token} {nodes : List Tree}
    (h : outcome (sym p) [] ts = some (nodes, rest)) :
    ∃ s, ts = ⟨.punct p, s⟩ :: rest ∧ nodes = [tokenLeaf (.punct p) s] :=
  (derives_of_outcome rfl h).of_mark

/-- **What stands in braces ends with the one that closes it.** -/
theorem endsWithBody_braces {inner : Rules} (hplaced : inner.isPlaced false = true)
    (hp : inner.isPaced isTaking = true)
    (htrack : inner.track? false isBalanced .outer = some .outer) :
    EndsWithBody (braces inner) := by
  have hpi : (both inner (sym .braceClose)).isPaced isTaking = true :=
    Bool.and_eq_true_iff.2 ⟨hp, rfl⟩
  have hpb : (both (sym .braceOpen) (both inner (sym .braceClose))).isPaced isTaking = true :=
    Bool.and_eq_true_iff.2 ⟨rfl, hpi⟩
  intro ts nodes rest h
  obtain ⟨_, ts₁, _, rfl, hopen, h₁⟩ := (outcome_both_eq_some_iff hpb).1 h
  obtain ⟨ns, mid, _, rfl, hinner, hclose⟩ := (outcome_both_eq_some_iff hpi).1 h₁
  obtain ⟨s, rfl, rfl⟩ := of_outcome_sym hopen
  obtain ⟨r, rfl, rfl⟩ := of_outcome_sym hclose
  have hbeyond : Syntax.beyond false .outer ts₁ = ⟨.punct .braceClose, r⟩ :: rest := by
    rw [(derives_of_outcome hplaced hinner).beyond track?_of_isBalanced htrack]
    exact beyond_cons_of_none rfl
  refine ⟨_, ts₁, beyond_cons_of_none rfl, .brace rfl rfl hbeyond,
    fun m n us body' rest' hus hbody => ?_⟩
  obtain ⟨t, u, ts, us, heq, rfl, htu⟩ := hus.exists_cons
  obtain ⟨rfl, rfl⟩ := List.cons.inj heq
  obtain ⟨-, rfl⟩ := hus.tail_eq rfl
  cases hbody with
  | semicolon hx => cases hx
  | brace _ hagree =>
    obtain ⟨ns', mid', hinner', hns, hmid⟩ :=
      exists_of_agree track?_of_isBalanced hp htrack hagree hinner
    obtain ⟨v, w, _, vs, heq, rfl, hvw⟩ := hmid.exists_cons
    obtain ⟨rfl, rfl⟩ := List.cons.inj heq
    obtain ⟨-, rfl⟩ := hmid.tail_eq rfl
    have hopen' : outcome (sym .braceOpen) [] (u :: us) = _ :=
      outcome_token (by rw [← htu.lexeme]; rfl) []
    have hclose' : outcome (sym .braceClose) [] (w :: vs) = _ :=
      outcome_token (by rw [← hvw.lexeme]; rfl) []
    refine ⟨_, (outcome_both_eq_some_iff hpb).2 ⟨_, _, _, rfl, hopen',
      (outcome_both_eq_some_iff hpi).2 ⟨_, _, _, rfl, hinner', hclose'⟩⟩, ?_⟩
    exact .cons (moved_tokenLeaf htu _) (List.rel_append hns (.cons (moved_tokenLeaf hvw _) .nil))

theorem EndsWithBody.part {p : Part} (h : EndsWithBody (rules p)) : EndsWithBody (part p) := by
  unfold EndsWithBody at h ⊢
  simpa only [outcome_part] using h

theorem EndsWithBody.field {rule : Rules} (hp : rule.isPaced isTaking = true)
    (h : EndsWithBody rule) (f : Field) : EndsWithBody (field f rule) := by
  intro ts nodes rest hout
  obtain ⟨ns, rfl, hns⟩ := (outcome_field_eq_some_iff hp).1 hout
  obtain ⟨t, body, hbeyond, hbody, hmoved⟩ := h ts ns rest hns
  refine ⟨t, body, hbeyond, hbody, fun m n us body' rest' hus hsame => ?_⟩
  obtain ⟨ns', h', hns'⟩ := hmoved m n us body' rest' hus hsame
  exact ⟨_, (outcome_field_eq_some_iff hp).2 ⟨ns', rfl, h'⟩,
    List.rel_map (fun _ _ hnm => hnm.withField _) hns'⟩

theorem EndsWithBody.tree {rule : Rules} (hp : rule.isPaced isTaking = true)
    (h : EndsWithBody rule) (kind : Kind) : EndsWithBody (tree kind rule) := by
  intro ts nodes rest hout
  obtain ⟨ns, rfl, hns⟩ := (outcome_tree_eq_some_iff hp).1 hout
  obtain ⟨t, body, hbeyond, hbody, hmoved⟩ := h ts ns rest hns
  refine ⟨t, body, hbeyond, hbody, fun m n us body' rest' hus hsame => ?_⟩
  obtain ⟨ns', h', hns'⟩ := hmoved m n us body' rest' hus hsame
  exact ⟨_, (outcome_tree_eq_some_iff hp).2 ⟨ns', rfl, h'⟩, .cons (moved_above hns' _) .nil⟩

/-- **What comes before a body does not keep it from ending a rule**, if it
keeps count of brackets, strictly taken. -/
theorem EndsWithBody.both {a b : Rules} (hb : EndsWithBody b)
    (hplaced : a.isPlaced false = true) (hp : (both a b).isPaced isTaking = true)
    (htrack : a.track? true isHead .outer = some .outer) : EndsWithBody (both a b) := by
  obtain ⟨hpa, hpb⟩ := Bool.and_eq_true_iff.1 hp
  intro ts nodes rest hout
  obtain ⟨ns, mid, ms, rfl, ha, hms⟩ := (outcome_both_eq_some_iff hp).1 hout
  obtain ⟨t, body, hbeyond, hbody, hmoved⟩ := hb mid ms rest hms
  have hsame := (derives_of_outcome hplaced ha).beyond track?_of_isHead htrack
  refine ⟨t, body, hsame.trans hbeyond, hbody, fun m n us body' rest' hus hbody' => ?_⟩
  obtain ⟨ns', mid', ha', hns', hmid⟩ := exists_of_agree track?_of_isHead hpa htrack hus ha
  obtain ⟨ms', hb', hms'⟩ := hmoved m n mid' body' rest' hmid hbody'
  exact ⟨_, (outcome_both_eq_some_iff hp).2 ⟨ns', mid', ms', rfl, ha', hb'⟩,
    List.rel_append hns' hms'⟩

/-- **A body may be left out** for a semicolon, where no body can be
read. -/
theorem EndsWithBody.or_semicolon {b : Rules} (hb : EndsWithBody b)
    (hp : b.isPaced isTaking = true)
    (hnone : ∀ t ts, t.lexeme = .punct .semicolon → outcome b [] (t :: ts) = none) :
    EndsWithBody (either b (sym .semicolon)) := by
  have hpe : (either b (sym .semicolon)).isPaced isTaking = true :=
    Bool.and_eq_true_iff.2 ⟨hp, rfl⟩
  intro ts nodes rest hout
  rcases (outcome_either_eq_some_iff hpe).1 hout with h | ⟨-, h⟩
  · obtain ⟨t, body, hbeyond, hbody, hmoved⟩ := hb ts nodes rest h
    refine ⟨t, body, hbeyond, hbody, fun m n us body' rest' hus hsame => ?_⟩
    obtain ⟨nodes', h', hnodes⟩ := hmoved m n us body' rest' hus hsame
    exact ⟨nodes', (outcome_either_eq_some_iff hpe).2 (.inl h'), hnodes⟩
  · obtain ⟨s, rfl, rfl⟩ := of_outcome_sym h
    refine ⟨_, rest, beyond_cons_of_none rfl, .semicolon rfl,
      fun m n us body' rest' hus hsame => ?_⟩
    obtain ⟨t, u, ts, us, heq, rfl, htu⟩ := hus.exists_cons
    obtain ⟨rfl, rfl⟩ := List.cons.inj heq
    obtain ⟨-, rfl⟩ := hus.tail_eq rfl
    cases hsame with
    | semicolon =>
      have hu : u.lexeme = .punct .semicolon := htu.lexeme.symm
      have htoken : outcome (sym .semicolon) [] (u :: rest') = _ :=
        outcome_token (by rw [hu]; rfl) []
      exact ⟨_, (outcome_either_eq_some_iff hpe).2 (.inr ⟨hnone u rest' hu, htoken⟩),
        .cons (moved_tokenLeaf htu _) .nil⟩
    | brace hx => cases hx

/-! ## Tokens that stand on their own -/

/-- **Tokens with their braces closed**: up to a semicolon that ends them,
or up to a brace and from there to the one that ends them. -/
inductive Closed : List Token → Prop where
  /-- They end in a semicolon. -/
  | semicolon {head t e} (hhead : crossAll? false .outer head = some e) (he : e.brace = 0)
      (ht : t.lexeme = .punct .semicolon) : Closed (head ++ [t])
  /-- They end in a brace. -/
  | braces {head t inner u e e'} (hhead : crossAll? false .outer head = some e)
      (he : e.brace = 0) (ht : t.lexeme = .punct .braceOpen)
      (hinner : crossAll? false .outer inner = some e') (he' : e'.brace = 0)
      (hu : u.lexeme = .punct .braceClose) : Closed (head ++ t :: (inner ++ [u]))

/-- **Tokens stand on their own** for a rule that makes some nodes of them: their braces
are closed, and the rule reads them, no more and no less, and makes the same nodes
wherever they stand. -/
structure Stands (rule : Rules) (own : List Token) (nodes : List Tree) : Prop where
  /-- Braces are closed. -/
  closed : Closed own
  /-- They are read wherever they stand. -/
  read : ∀ m n own' rest, List.Forall₂ (Token.Moved m n) own own' →
    ∃ nodes', outcome rule [] (own' ++ rest) = some (nodes', rest)
      ∧ List.Forall₂ (Tree.Moved m n) nodes nodes'

theorem exists_of_forall₂_append {α β : Type} {R : α → β → Prop} {as bs : List α} {cs : List β}
    (h : List.Forall₂ R (as ++ bs) cs) :
    ∃ as' bs', cs = as' ++ bs' ∧ List.Forall₂ R as as' ∧ List.Forall₂ R bs bs' := by
  induction as generalizing cs with
  | nil => exact ⟨[], cs, rfl, .nil, h⟩
  | cons a as ih =>
    cases h with
    | cons ha h =>
      obtain ⟨as', bs', rfl, has, hbs⟩ := ih h
      exact ⟨_ :: as', bs', rfl, .cons ha has, hbs⟩

/-- Strictly taken, a body begins outside of all brackets. -/
theorem BeginsBody.eq_outer {t : Token} {ts rest : List Token} (h : BeginsBody t ts rest)
    {e : Depth} (he : t.lexeme.cross? true e = none) : e = .outer := by
  cases h with
  | semicolon h | brace h =>
    rw [h, Lexeme.cross?] at he
    split at he
    next hd => exact hd.2
    next => cases he

/-- **What a rule that ends with a body reads stands on its own.** -/
theorem EndsWithBody.exists_own {rule : Rules} (h : EndsWithBody rule) {ts rest : List Token}
    {nodes : List Tree} (hout : outcome rule [] ts = some (nodes, rest)) :
    ∃ own, ts = own ++ rest ∧ Stands rule own nodes := by
  obtain ⟨t, body, hbeyond, hbody, hmoved⟩ := h ts nodes rest hout
  obtain ⟨before, e, hts, hcross, hnone⟩ := exists_crossAll? true .outer ts
  rw [hbeyond] at hts hnone
  obtain rfl := hbody.eq_outer (hnone t rfl)
  subst hts
  have hcross := crossAll?_of_strict hcross
  cases hbody with
  | semicolon ht =>
    refine ⟨before ++ [t], by rw [List.append_assoc]; rfl, .semicolon hcross rfl ht,
      fun m n own' rest' hown => ?_⟩
    obtain ⟨before', _, rfl, hall, ht'⟩ := exists_of_forall₂_append hown
    cases ht' with
    | @cons _ u _ _ htu hnil =>
      cases hnil
      rw [List.append_assoc]
      exact hmoved m n _ rest' rest' (Agree.of_forall₂ hall htu hbeyond) (.semicolon ht)
  | @brace u _ _ ht hu hinner =>
    obtain ⟨inner, e, hts, hcross', hnone'⟩ := exists_crossAll? false .outer body
    rw [hinner] at hts hnone'
    subst hts
    have he : e.brace = 0 := by
      have hn := hnone' u rfl
      rw [hu, Lexeme.cross?] at hn
      split at hn
      next he => exact he
      next => cases hn
    refine ⟨before ++ t :: (inner ++ [u]), by simp, .braces hcross rfl ht hcross' he hu,
      fun m n own' rest' hown => ?_⟩
    obtain ⟨before', _, rfl, hall, htail⟩ := exists_of_forall₂_append hown
    cases htail with
    | @cons _ v _ _ htv htail =>
      obtain ⟨inner', _, rfl, hall', hu'⟩ := exists_of_forall₂_append htail
      cases hu' with
      | @cons _ w _ _ huw hnil =>
        cases hnil
        have hagree : Agree true m n _ (inner' ++ w :: rest') .outer _
            (before' ++ v :: (inner' ++ w :: rest')) := Agree.of_forall₂ hall htv hbeyond
        have hown : before' ++ v :: (inner' ++ [w]) ++ rest'
            = before' ++ v :: (inner' ++ w :: rest') := by simp
        rw [hown]
        exact hmoved m n _ _ rest' hagree (.brace ht (Agree.of_forall₂ hall' huw hinner))

end Grammar

end JavaMutants.Syntax
