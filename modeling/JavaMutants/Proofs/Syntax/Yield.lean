import JavaMutants.Proofs.Syntax.Analysis
import JavaMutants.Proofs.Syntax.Scan
import Mathlib.Algebra.GroupWithZero.Nat

/-!
# What tokens become

The leaves of what is read are the tokens that were taken, one for one
and in their order: `Takes ts leaves rest` says that the tokens in front
of `ts`, up to `rest`, have become `leaves`. The two exceptions are the
mark that is taken apart because it begins with a closing angle bracket,
and the end of the text, which becomes nothing.

That the leaves of the nodes of a derivation are those of its tokens
(`Derives.takes`) needs two things of the rules: every node has to stand
over at least one other, since one that stands over none is a leaf
itself, and the label of a leaf has to tell what token it was
(`Rule.isRegular`).
-/

namespace JavaMutants.Syntax

open Syntax.Tree Text

/-- The kinds of the nodes that are one word. -/
def Kind.words : List Kind := [
  .identifier, .typeIdentifier, .this_, .super_, .true_, .false_, .nullLiteral, .booleanType,
  .voidType, .underscorePattern ]

/-- **Whether a leaf with a label can stand for a lexeme.** -/
def Lexeme.standsAs : Lexeme → Label → Bool
  | .punct p, .punct q => p == q
  | .punct p, .named k => p == .star && k == .asterisk
  | .word k, .keyword w => k == some w
  | .word _, .named k => Kind.words.contains k
  | .piece k, .named l => k == l
  | _, _ => false

/-- The label of the leaf of a token: a token without any text is one that
had to be put in. -/
def leafLabel (label : Label) (s : Span) : Label :=
  if s.start < s.stop then label else .missing label.text

/-- The place of the closing angle bracket taken off the front of a
mark. -/
def angleSpan (s : Span) : Span := ⟨s.start, min (s.start + 1) s.stop⟩

/-- **Tokens become leaves.** -/
inductive Takes : List Token → List (Label × Span) → List Token → Prop where
  /-- None is taken. -/
  | nil {ts} : Takes ts [] ts
  /-- A token becomes a leaf. -/
  | token {label t ts leaves rest} (hl : t.lexeme.standsAs label = true)
      (h : Takes ts leaves rest) :
      Takes (t :: ts) ((leafLabel label t.span, t.span) :: leaves) rest
  /-- A closing angle bracket is taken off a mark. -/
  | angle {p q s ts leaves rest} (hp : p.afterAngle? = some q)
      (h : Takes (afterAngle q s ts) leaves rest) :
      Takes (⟨.punct p, s⟩ :: ts)
        ((leafLabel (.punct .gt) (angleSpan s), angleSpan s) :: leaves) rest
  /-- The end of the text becomes nothing. -/
  | finish {s ts leaves rest} (h : Takes ts leaves rest) :
      Takes (⟨.finish, s⟩ :: ts) leaves rest

theorem Takes.append {ts mid rest : List Token} {as bs : List (Label × Span)}
    (ha : Takes ts as mid) (hb : Takes mid bs rest) : Takes ts (as ++ bs) rest := by
  induction ha with
  | nil => exact hb
  | token hl _ ih => exact .token hl (ih hb)
  | angle hp _ ih => exact .angle hp (ih hb)
  | finish _ ih => exact .finish (ih hb)

/-! ## Where leaves lie -/

theorem isFault_leafLabel_of_le {label : Label} {s : Span} (h : s.stop ≤ s.start) :
    (leafLabel label s).isFault = true := by
  rw [leafLabel, if_neg (Nat.not_lt.2 h)]
  rfl

theorem lt_of_leafLabel {label : Label} {s : Span}
    (h : (leafLabel label s).isFault = false) : s.start < s.stop := by
  by_contra hle
  rw [isFault_leafLabel_of_le (Nat.not_lt.1 hle)] at h
  cases h

theorem leafLabel_eq {label : Label} {s : Span} (h : s.start < s.stop) :
    leafLabel label s = label := if_pos h

/-- What is left of a mark is written as the mark is after its first
character. -/
theorem Punct.text_of_afterAngle? {p : Punct} {q : Option Punct} (h : p.afterAngle? = some q) :
    p.text.toList = '>' :: (q.elim [] fun q => q.text.toList) := by
  cases p <;> cases h <;> decide

/-- After a closing angle bracket is taken off, the tokens lie as
before. -/
theorem lies_afterAngle {before cs : List Char} {p : Punct} {q : Option Punct}
    {ts : List Token} (hp : p.afterAngle? = some q)
    (h : Lies (before ++ p.text.toList) cs ts) :
    ∃ d, '>' :: d = p.text.toList ∧ Lies (before ++ ['>']) (d ++ cs)
      (afterAngle q ⟨byteLength before, byteLength (before ++ p.text.toList)⟩ ts) := by
  rw [Punct.text_of_afterAngle? hp] at h ⊢
  refine ⟨_, rfl, ?_⟩
  have hsplit : ∀ d, before ++ '>' :: d = before ++ ['>'] ++ d := by simp
  cases q with
  | none => exact h
  | some q =>
    rw [Option.elim_some, hsplit] at h
    have htoken := Lies.token (x := .punct q) rfl h
    have hgt : '>'.utf8Size = 1 := by decide
    simpa [afterAngle, hgt] using htoken

/-- **Leaves without a fault lie one after the other**, at cuts of the
text, and what is left lies after them. -/
theorem Takes.lies {ts rest : List Token} {ls : List (Label × Span)} (h : Takes ts ls rest)
    {before cs : List Char} (hlies : Lies before cs ts)
    (hsound : ∀ x ∈ ls, x.1.isFault = false) :
    ∃ mid after, before ++ cs = mid ++ after ∧ Lies mid after rest
      ∧ Ordered (byteLength before) (ls.map Prod.snd) (byteLength mid)
      ∧ ∀ x ∈ ls, IsCut (before ++ cs) x.2.start ∧ IsCut (before ++ cs) x.2.stop := by
  induction h generalizing before cs with
  | nil => exact ⟨before, cs, rfl, hlies, Nat.le_refl _, fun _ hx => absurd hx List.not_mem_nil⟩
  | @token label t ts leaves rest hl _ ih =>
    obtain ⟨hlabel, hsound⟩ := List.forall_mem_cons.1 hsound
    have hcut := hlies.isCut List.mem_cons_self
    have hlt := lt_of_leafLabel hlabel
    obtain ⟨a, b, c, rfl, -, hs, hts⟩ := hlies.cons_inv
    obtain ⟨mid, after, htext, hrest, hord, hcuts⟩ := ih hts hsound
    have hall : before ++ (a ++ (b ++ c)) = before ++ a ++ b ++ c := by
      simp only [List.append_assoc]
    refine ⟨mid, after, hall.trans htext, hrest, ⟨?_, hlt, ?_⟩, ?_⟩
    · rw [hs, byteLength_append]
      exact Nat.le_add_right _ _
    · rw [hs]
      exact hord
    · rw [hall] at hcut ⊢
      exact List.forall_mem_cons.2 ⟨hcut, hcuts⟩
  | @angle p q s ts leaves rest hp _ ih =>
    obtain ⟨hlabel, hsound'⟩ := List.forall_mem_cons.1 hsound
    have hlt := lt_of_leafLabel hlabel
    obtain ⟨a, b, c, rfl, hb, hs, hts⟩ := hlies.cons_inv
    obtain rfl : b = p.text.toList := hb
    obtain rfl : s = _ := hs
    obtain ⟨d, hd, hts⟩ := lies_afterAngle hp hts
    obtain ⟨mid, after, htext, hrest, hord, hcuts⟩ := ih hts hsound'
    have hall : before ++ (a ++ (p.text.toList ++ c)) = before ++ a ++ ['>'] ++ (d ++ c) := by
      simp [← hd]
    -- the bracket has one byte, since it is not empty
    have hstop : (angleSpan ⟨byteLength (before ++ a),
        byteLength (before ++ a ++ p.text.toList)⟩).stop = byteLength (before ++ a ++ ['>']) := by
      have hgt : '>'.utf8Size = 1 := by decide
      simp only [angleSpan, ← hd, byteLength_append, byteLength_cons, byteLength_nil, hgt]
      omega
    refine ⟨mid, after, hall.trans htext, hrest, ⟨?_, hlt, ?_⟩, ?_⟩
    · show byteLength before ≤ byteLength (before ++ a)
      rw [byteLength_append]
      exact Nat.le_add_right _ _
    · rw [hstop]
      exact hord
    · rw [hall]
      refine List.forall_mem_cons.2 ⟨⟨?_, ?_⟩, hcuts⟩
      · exact ⟨before ++ a, ['>'] ++ (d ++ c), by simp only [List.append_assoc], rfl⟩
      · rw [hstop]
        exact ⟨_, _, rfl, rfl⟩
  | @finish s ts leaves rest _ ih =>
    obtain ⟨a, b, c, rfl, -, -, hts⟩ := hlies.cons_inv
    obtain ⟨mid, after, htext, hrest, hord, hcuts⟩ := ih hts hsound
    have hall : before ++ (a ++ (b ++ c)) = before ++ a ++ b ++ c := by
      simp only [List.append_assoc]
    refine ⟨mid, after, hall.trans htext, hrest, hord.mono ?_ (Nat.le_refl _), ?_⟩
    · simp only [byteLength_append]
      omega
    · rw [hall]
      exact hcuts

/-! ## Where leaves come from -/

/-- **A leaf comes from a token**: it is that token, or a piece of a mark
that begins with a closing angle bracket. -/
theorem Takes.exists_token {ts rest : List Token} {ls : List (Label × Span)}
    (h : Takes ts ls rest) {x : Label × Span} (hx : x ∈ ls) :
    ∃ t ∈ ts, t.span.start ≤ x.2.start ∧ x.2.stop ≤ t.span.stop
      ∧ ((∃ label, t.lexeme.standsAs label = true ∧ x = (leafLabel label t.span, t.span))
        ∨ ∃ p q, t.lexeme = .punct p ∧ p.afterAngle? = some q) := by
  induction h with
  | nil => exact absurd hx List.not_mem_nil
  | token hl _ ih =>
    rcases List.mem_cons.1 hx with rfl | hx
    · exact ⟨_, List.mem_cons_self, Nat.le_refl _, Nat.le_refl _, .inl ⟨_, hl, rfl⟩⟩
    · obtain ⟨t, ht, h⟩ := ih hx
      exact ⟨t, List.mem_cons_of_mem _ ht, h⟩
  | @angle p q s ts leaves rest hp _ ih =>
    rcases List.mem_cons.1 hx with rfl | hx
    · exact ⟨_, List.mem_cons_self, Nat.le_refl _, Nat.min_le_right _ _, .inr ⟨p, q, rfl, hp⟩⟩
    · obtain ⟨t, ht, h⟩ := ih hx
      cases q with
      | none => exact ⟨t, List.mem_cons_of_mem _ ht, h⟩
      | some q =>
        rcases List.mem_cons.1 ht with rfl | ht
        · exact ⟨_, List.mem_cons_self, Nat.le_trans (Nat.le_succ _) h.1, h.2.1,
            .inr ⟨p, some q, rfl, hp⟩⟩
        · exact ⟨t, List.mem_cons_of_mem _ ht, h⟩
  | finish _ ih =>
    obtain ⟨t, ht, h⟩ := ih hx
    exact ⟨t, List.mem_cons_of_mem _ ht, h⟩

/-- Whether a lexeme is never taken apart, and is not the end of the
text. -/
def Lexeme.isWhole : Lexeme → Bool
  | .punct p => p.afterAngle?.isNone
  | .finish => false
  | _ => true

theorem Lexeme.isWhole_of_isPlain {x : Lexeme} (h : x.isPlain = true) : x.isWhole = true := by
  cases x <;> first | rfl | cases h

/-- **A token that is not taken apart becomes a leaf as it is**, unless it
is left. -/
theorem Takes.exists_leaf {ts rest : List Token} {ls : List (Label × Span)}
    (h : Takes ts ls rest) {t : Token} (ht : t ∈ ts) (hx : t.lexeme.isWhole = true) :
    t ∈ rest ∨ ∃ label, t.lexeme.standsAs label = true ∧ (leafLabel label t.span, t.span) ∈ ls := by
  induction h with
  | nil => exact .inl ht
  | token hl _ ih =>
    rcases List.mem_cons.1 ht with rfl | ht
    · exact .inr ⟨_, hl, List.mem_cons_self⟩
    · exact (ih ht).imp_right fun ⟨l, hs, hmem⟩ => ⟨l, hs, List.mem_cons_of_mem _ hmem⟩
  | @angle p q s ts leaves rest hp _ ih =>
    rcases List.mem_cons.1 ht with rfl | ht
    · simp [Lexeme.isWhole, hp] at hx
    · have ht' : t ∈ afterAngle q s ts := by
        cases q with
        | none => exact ht
        | some q => exact List.mem_cons_of_mem _ ht
      exact (ih ht').imp_right fun ⟨l, hs, hmem⟩ => ⟨l, hs, List.mem_cons_of_mem _ hmem⟩
  | finish _ ih =>
    rcases List.mem_cons.1 ht with rfl | ht
    · cases hx
    · exact ih ht

/-! ## The ends of what is taken -/

/-- How many leaves a token can become. -/
def Token.pieces (t : Token) : Nat :=
  match t.lexeme with
  | .punct p => p.text.toList.length
  | _ => 1

theorem Token.pieces_pos (t : Token) : 0 < t.pieces := by
  unfold pieces
  split
  next p _ => cases p <;> decide
  next => exact Nat.one_pos

/-- A closing angle bracket is one of the pieces. -/
theorem sum_pieces_afterAngle {p : Punct} {q : Option Punct} (hp : p.afterAngle? = some q)
    (s : Span) (ts : List Token) : ((afterAngle q s ts).map Token.pieces).sum + 1
      = ((⟨.punct p, s⟩ :: ts).map Token.pieces).sum := by
  have htext := congrArg List.length (Punct.text_of_afterAngle? hp)
  cases q with
  | none =>
    have hone : p.text.toList.length = 1 := htext
    simp [afterAngle, Token.pieces, hone, Nat.add_comm]
  | some q =>
    have hmore : p.text.toList.length = q.text.toList.length + 1 := htext
    simp only [afterAngle, Token.pieces, List.map_cons, List.sum_cons, hmore]
    omega

theorem Takes.sum_pieces_le {ts rest : List Token} {ls : List (Label × Span)}
    (h : Takes ts ls rest) : (rest.map Token.pieces).sum ≤ (ts.map Token.pieces).sum := by
  induction h with
  | nil => exact Nat.le_refl _
  | token _ _ ih | finish _ ih =>
    rw [List.map_cons, List.sum_cons]
    exact Nat.le_trans ih (Nat.le_add_left _ _)
  | angle hp _ ih =>
    rw [← sum_pieces_afterAngle hp]
    exact Nat.le_succ_of_le ih

/-- **The first leaf begins with the first token that is taken, and the last one ends with
the last**, be that taken apart or not. -/
theorem Takes.exists_ends {own rest : List Token} {ls : List (Label × Span)}
    (h : Takes (own ++ rest) ls rest) (hfin : ∀ t ∈ own, t.lexeme ≠ .finish)
    (hmarks : ∀ t ∈ own, ∀ p, t.lexeme = .punct p →
      t.span.stop = t.span.start + p.text.toList.length) :
    own = [] ∧ ls = [] ∨ ∃ t ∈ own.head?, ∃ u ∈ own.getLast?, ∃ x ∈ ls.head?, ∃ y ∈ ls.getLast?,
      x.2.start = t.span.start ∧ y.2.stop = u.span.stop := by
  generalize hts : own ++ rest = ts at h
  induction h generalizing own with
  | nil => exact .inl ⟨List.append_left_eq_self.1 hts, rfl⟩
  | @token label t ts leaves rest hl h ih =>
    cases own with
    | nil =>
      rw [List.nil_append] at hts
      subst hts
      have hle := h.sum_pieces_le
      have hpos := t.pieces_pos
      rw [List.map_cons, List.sum_cons] at hle
      omega
    | cons v own =>
      obtain ⟨rfl, rfl⟩ := List.cons.inj hts
      refine .inr ⟨v, rfl, ?_⟩
      rcases ih (List.forall_mem_cons.1 hfin).2 (List.forall_mem_cons.1 hmarks).2 rfl with
        ⟨rfl, rfl⟩ | ⟨t', -, u, hu, -, -, y, hy, -, hstop⟩
      · exact ⟨v, rfl, _, rfl, _, rfl, rfl, rfl⟩
      · exact ⟨u, List.mem_getLast?_cons hu, _, rfl, y, List.mem_getLast?_cons hy, rfl, hstop⟩
  | @angle p q s ts leaves rest hp h ih =>
    cases own with
    | nil =>
      rw [List.nil_append] at hts
      subst hts
      have hle := h.sum_pieces_le
      rw [← sum_pieces_afterAngle hp] at hle
      omega
    | cons v own =>
      obtain ⟨rfl, rfl⟩ := List.cons.inj hts
      obtain ⟨hmark, hmarks⟩ := List.forall_mem_cons.1 hmarks
      have hspan : s.stop = s.start + p.text.toList.length := hmark p rfl
      have htext := congrArg List.length (Punct.text_of_afterAngle? hp)
      have hfin := (List.forall_mem_cons.1 hfin).2
      refine .inr ⟨_, rfl, ?_⟩
      cases q with
      | none =>
        have hone : p.text.toList.length = 1 := htext
        rcases ih hfin hmarks rfl with ⟨rfl, rfl⟩ | ⟨t', -, u, hu, -, -, y, hy, -, hstop⟩
        · refine ⟨_, rfl, _, rfl, _, rfl, rfl, ?_⟩
          show min (s.start + 1) s.stop = s.stop
          omega
        · exact ⟨u, List.mem_getLast?_cons hu, _, rfl, y, List.mem_getLast?_cons hy, rfl, hstop⟩
      | some q =>
        have hmore : p.text.toList.length = q.text.toList.length + 1 := htext
        have hmark' : s.stop = s.start + 1 + q.text.toList.length := by omega
        -- the rest of the mark is taken next
        rcases ih (show ∀ t ∈ (⟨.punct q, ⟨s.start + 1, s.stop⟩⟩ :: own : List Token),
            t.lexeme ≠ .finish from List.forall_mem_cons.2 ⟨nofun, hfin⟩)
          (List.forall_mem_cons.2 ⟨by rintro r ⟨⟩; exact hmark', hmarks⟩) rfl with
          ⟨hnil, -⟩ | ⟨t', -, u, hu, -, -, y, hy, -, hstop⟩
        · cases hnil
        · cases own with
          | nil =>
            cases hu
            exact ⟨_, rfl, _, rfl, y, List.mem_getLast?_cons hy, rfl, hstop⟩
          | cons w own =>
            exact ⟨u, hu, _, rfl, y, List.mem_getLast?_cons hy, rfl, hstop⟩
  | finish =>
    cases own with
    | nil =>
      rename_i h _
      rw [List.nil_append] at hts
      subst hts
      have hle := h.sum_pieces_le
      rw [List.map_cons, List.sum_cons] at hle
      have hpos := Token.pieces_pos ⟨.finish, by assumption⟩
      omega
    | cons v own =>
      obtain ⟨rfl, rfl⟩ := List.cons.inj hts
      exact absurd rfl (hfin _ List.mem_cons_self)

/-! ## The end of the text -/

/-- Once the end of the text is taken, nothing is left. -/
theorem Takes.terminated {ts rest : List Token} {ls : List (Label × Span)}
    (h : Takes ts ls rest) (ht : Terminated ts) : Terminated rest ∨ rest = [] := by
  induction h with
  | nil => exact .inl ht
  | token hl _ ih =>
    cases ht with
    | finish => cases hl
    | cons _ hts => exact ih hts
  | @angle p q s ts leaves rest hp _ ih =>
    cases ht with
    | cons _ hts =>
      cases q with
      | none => exact ih hts
      | some q => exact ih (.cons nofun hts)
  | finish h ih =>
    cases ht with
    | finish =>
      cases h with
      | nil => exact .inr rfl
    | cons hne => exact absurd rfl hne

/-- **A token without text is left or becomes a fault.** -/
theorem Takes.fault_of_empty {ts rest : List Token} {ls : List (Label × Span)}
    (h : Takes ts ls rest) {t : Token} (ht : t ∈ ts) (hne : t.lexeme ≠ .finish)
    (hempty : t.span.stop ≤ t.span.start) : t ∈ rest ∨ ∃ x ∈ ls, x.1.isFault = true := by
  induction h with
  | nil => exact .inl ht
  | token hl _ ih =>
    rcases List.mem_cons.1 ht with rfl | ht
    · exact .inr ⟨_, List.mem_cons_self, isFault_leafLabel_of_le hempty⟩
    · exact (ih ht).imp_right fun ⟨x, hx, hf⟩ => ⟨x, List.mem_cons_of_mem _ hx, hf⟩
  | @angle p q s ts leaves rest hp _ ih =>
    rcases List.mem_cons.1 ht with rfl | ht
    · refine .inr ⟨_, List.mem_cons_self, isFault_leafLabel_of_le ?_⟩
      exact Nat.le_trans (Nat.min_le_right _ _) hempty
    · have ht' : t ∈ afterAngle q s ts := by
        cases q with
        | none => exact ht
        | some q => exact List.mem_cons_of_mem _ ht
      exact (ih ht').imp_right fun ⟨x, hx, hf⟩ => ⟨x, List.mem_cons_of_mem _ hx, hf⟩
  | finish _ ih =>
    rcases List.mem_cons.1 ht with rfl | ht
    · exact absurd rfl hne
    · exact ih ht

section Derivations

variable {Part : Type} {grammar : Part → Rule Part}

/-- **Whether a rule is regular**: its nodes stand over something, its
leaves tell what they were, and it names only parts of which the same is
known. -/
def Rule.isRegular (parts : Part → Nat) (named : Part → Bool) : Rule Part → Bool
  | .mark p label => (Lexeme.punct p).standsAs label
  | .word k label => (Lexeme.word (some k)).standsAs label
  | .name kind _ => Kind.words.contains kind
  | .part p => named p
  | .both a b | .either a b | .onto a b => a.isRegular parts named && b.isRegular parts named
  | .many a | .field _ a | .steps a => a.isRegular parts named
  | .tree _ a | .wrap _ _ _ a => decide (0 < a.least parts) && a.isRegular parts named
  | .nothing | .piece _ | .angle | .finish | .barring _ | .keep => true

variable {parts : Part → Nat} {named : Part → Bool}

theorem Rule.standsAs_of_token? {rule : Rule Part} (hr : rule.isRegular parts named = true)
    {x : Lexeme} {label : Label} (h : rule.token? x = some label) :
    x.standsAs label = true := by
  rcases Rule.token?_eq_some h with ⟨p, rfl, rfl⟩ | ⟨k, rfl, rfl⟩ |
    ⟨kind, taken, w, rfl, rfl, rfl, -⟩ | ⟨kind, rfl, rfl, rfl⟩
  · exact hr
  · exact hr
  · exact hr
  · exact beq_self_eq_true kind

/-- The leaves of a node over some nodes are theirs. -/
theorem leaves_above {l : Label} {cs : List Tree} (hne : cs ≠ []) :
    (above l cs).leaves = leavesAll cs :=
  leaves_of_children_ne_nil (t := above l cs) hne

/-- **The leaves of what is derived are the tokens that were taken.** -/
theorem Derives.takes (hparts : ∀ p, parts p ≤ (grammar p).least parts)
    (hnamed : ∀ p, named p = true → (grammar p).isRegular parts named = true)
    {rule : Rule Part} {left : Option (List Tree)} {ts rest : List Token} {nodes : List Tree}
    (h : Derives grammar rule left ts nodes rest) (hr : rule.isRegular parts named = true) :
    ∃ ls, Takes ts ls rest ∧ leavesAll nodes = leavesAll (left.getD []) ++ ls := by
  induction h with
  | nothing => exact ⟨[], .nil, rfl⟩
  | token h => exact ⟨_, .token (Rule.standsAs_of_token? hr h) .nil, rfl⟩
  | angle h => exact ⟨_, .angle h .nil, rfl⟩
  | finish => exact ⟨[], .finish .nil, rfl⟩
  | part _ ih => exact ih (hnamed _ hr)
  | both _ _ iha ihb =>
    obtain ⟨hra, hrb⟩ := Bool.and_eq_true_iff.1 hr
    obtain ⟨as, hta, hla⟩ := iha hra
    obtain ⟨bs, htb, hlb⟩ := ihb hrb
    exact ⟨as ++ bs, hta.append htb, by rw [leavesAll_append, hla, hlb]; simp⟩
  | first _ ih => exact ih (Bool.and_eq_true_iff.1 hr).1
  | second _ ih => exact ih (Bool.and_eq_true_iff.1 hr).2
  | manyNil => exact ⟨[], .nil, rfl⟩
  | manyCons _ _ iha ihs =>
    obtain ⟨as, hta, hla⟩ := iha hr
    obtain ⟨bs, htb, hlb⟩ := ihs hr
    exact ⟨as ++ bs, hta.append htb, by rw [leavesAll_append, hla, hlb]; simp⟩
  | barring => exact ⟨[], .nil, rfl⟩
  | field _ ih =>
    obtain ⟨ls, ht, hl⟩ := ih hr
    exact ⟨ls, ht, by rw [leavesAll_map_withField, hl]⟩
  | tree h ih =>
    obtain ⟨hpos, hra⟩ := Bool.and_eq_true_iff.1 hr
    obtain ⟨ls, ht, hl⟩ := ih hra
    have hne := List.ne_nil_of_length_pos
      (Nat.lt_of_lt_of_le (of_decide_eq_true hpos) (h.least_le hparts nofun))
    exact ⟨ls, ht, by rw [leavesAll_cons, leavesAll_nil, leaves_above hne, hl]; simp⟩
  | onto _ _ iha ihb =>
    obtain ⟨hra, hrb⟩ := Bool.and_eq_true_iff.1 hr
    obtain ⟨as, hta, hla⟩ := iha hra
    obtain ⟨bs, htb, hlb⟩ := ihb hrb
    refine ⟨as ++ bs, hta.append htb, ?_⟩
    rw [hlb, Option.getD_some, hla]
    simp
  | stepsNil => exact ⟨[], .nil, by simp⟩
  | stepsCons _ _ iha ihs =>
    obtain ⟨as, hta, hla⟩ := iha hr
    obtain ⟨bs, htb, hlb⟩ := ihs hr
    refine ⟨as ++ bs, hta.append htb, ?_⟩
    rw [hlb, Option.getD_some, hla, List.append_assoc]
  | keep => exact ⟨[], .nil, by simp⟩
  | wrap _ h ih =>
    obtain ⟨hpos, hra⟩ := Bool.and_eq_true_iff.1 hr
    obtain ⟨ls, ht, hl⟩ := ih hra
    have hne := List.ne_nil_of_length_pos
      (Nat.lt_of_lt_of_le (of_decide_eq_true hpos) (h.least_le hparts nofun))
    refine ⟨ls, ht, ?_⟩
    rw [leavesAll_cons, leavesAll_nil, List.append_nil,
      leaves_above (List.append_ne_nil_of_right_ne_nil _ hne), leavesAll_append,
      leavesAll_map_withField, hl]
    rfl

end Derivations

end JavaMutants.Syntax
