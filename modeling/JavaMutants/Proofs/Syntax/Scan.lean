import JavaMutants.Proofs.Syntax.Pattern
import JavaMutants.Proofs.Text.Cut
import JavaMutants.Syntax.Token

/-!
# Where tokens lie

Tokens lie in their text one after the other, with nothing but skipped
characters between them: `Lies before cs ts` says so of tokens that are
scanned from the characters `cs`, in a text in which `before` comes
first. It follows that the places of tokens are cuts of the text and that
no two of them overlap. Leaving tokens out keeps all of this, so it holds
of the tokens of the code and of the comments as well.
-/

namespace JavaMutants.Syntax

open Text

/-- Characters spell a lexeme; of a mark they have to be those it is
written with. -/
def Lexeme.SpelledBy (cs : List Char) : Lexeme → Prop
  | .punct p => cs = p.text.toList
  | _ => True

/-- Whether a lexeme is neither a mark nor the end of the text. -/
def Lexeme.isPlain : Lexeme → Bool
  | .punct _ => false
  | .finish => false
  | _ => true

/-- **Tokens lie one after the other** in the characters after some
others. -/
inductive Lies : List Char → List Char → List Token → Prop where
  /-- No tokens are left. -/
  | nil {before cs} : Lies before cs []
  /-- Characters are skipped. -/
  | skip {before a cs ts} (h : Lies (before ++ a) cs ts) : Lies before (a ++ cs) ts
  /-- Characters are those of a token. -/
  | token {before x a cs ts} (hx : x.SpelledBy a) (h : Lies (before ++ a) cs ts) :
      Lies before (a ++ cs) (⟨x, ⟨byteLength before, byteLength (before ++ a)⟩⟩ :: ts)

namespace Lies

variable {before cs : List Char} {ts : List Token} {t : Token}

/-- The first token has its own characters, and the others come after
it. -/
theorem cons_inv (h : Lies before cs (t :: ts)) :
    ∃ a b c, cs = a ++ (b ++ c) ∧ t.lexeme.SpelledBy b
      ∧ t.span = ⟨byteLength (before ++ a), byteLength (before ++ a ++ b)⟩
      ∧ Lies (before ++ a ++ b) c ts := by
  generalize hus : t :: ts = us at h
  induction h with
  | nil => exact absurd hus (List.cons_ne_nil t ts)
  | @skip before d cs us h ih =>
    obtain ⟨a, b, c, rfl, hx, hs, hts⟩ := ih hus
    refine ⟨d ++ a, b, c, (List.append_assoc d a (b ++ c)).symm, hx, ?_, ?_⟩
    · rw [hs, List.append_assoc]
    · rw [← List.append_assoc]
      exact hts
  | @token before x a cs us hx h ih =>
    obtain ⟨rfl, rfl⟩ := List.cons.inj hus
    exact ⟨[], a, cs, rfl, hx, by simp, by simpa using h⟩

/-- The places of tokens are cuts of the text, from the first character
after the others on, and the characters between the cuts spell the
token. -/
theorem exists_spelling (h : Lies before cs ts) (ht : t ∈ ts) :
    ∃ a b c, cs = a ++ (b ++ c) ∧ t.lexeme.SpelledBy b
      ∧ t.span = ⟨byteLength (before ++ a), byteLength (before ++ a ++ b)⟩ := by
  induction ts generalizing before cs with
  | nil => exact absurd ht List.not_mem_nil
  | cons u ts ih =>
    obtain ⟨a, b, c, rfl, hx, hs, hts⟩ := h.cons_inv
    rcases List.mem_cons.1 ht with rfl | ht
    · exact ⟨a, b, c, rfl, hx, hs⟩
    · obtain ⟨a', b', c', rfl, hx', hs'⟩ := ih hts ht
      refine ⟨a ++ (b ++ a'), b', c', by simp only [List.append_assoc], hx', ?_⟩
      simpa only [List.append_assoc] using hs'

theorem isCut (h : Lies before cs ts) (ht : t ∈ ts) :
    IsCut (before ++ cs) t.span.start ∧ IsCut (before ++ cs) t.span.stop := by
  obtain ⟨a, b, c, rfl, -, hs⟩ := h.exists_spelling ht
  rw [hs]
  exact ⟨⟨before ++ a, b ++ c, by simp only [List.append_assoc], rfl⟩,
    ⟨before ++ a ++ b, c, by simp only [List.append_assoc], rfl⟩⟩

theorem start_le_stop (h : Lies before cs ts) (ht : t ∈ ts) :
    byteLength before ≤ t.span.start ∧ t.span.start ≤ t.span.stop := by
  obtain ⟨a, b, c, rfl, -, hs⟩ := h.exists_spelling ht
  rw [hs]
  simp only [byteLength_append]
  omega

/-- **No token begins before the one before it has ended.** -/
theorem pairwise (h : Lies before cs ts) :
    ts.Pairwise fun t u => t.span.stop ≤ u.span.start := by
  induction ts generalizing before cs with
  | nil => exact .nil
  | cons t ts ih =>
    obtain ⟨a, b, c, rfl, -, hs, hts⟩ := h.cons_inv
    refine .cons (fun u hu => ?_) (ih hts)
    rw [hs]
    exact (hts.start_le_stop hu).1

/-- The tokens after others lie after them. -/
theorem of_append {us : List Token} (h : Lies before cs (ts ++ us)) : ∃ a c, Lies a c us := by
  induction ts generalizing before cs with
  | nil => exact ⟨before, cs, h⟩
  | cons t ts ih =>
    obtain ⟨a, b, c, -, -, -, hts⟩ := h.cons_inv
    exact ih hts

/-- Leaving tokens out leaves the others where they are. -/
theorem filter (h : Lies before cs ts) (keep : Token → Bool) : Lies before cs (ts.filter keep) := by
  induction h with
  | nil => exact .nil
  | skip _ ih => exact .skip ih
  | @token before x a cs ts hx h ih =>
    rw [List.filter_cons]
    split
    next => exact .token hx ih
    next => exact .skip ih

end Lies

/-! ## Steps -/

/-- Whether a lexeme is a comment. -/
def Lexeme.isComment (x : Lexeme) : Bool := x == .piece .lineComment || x == .piece .blockComment

/-- Numbers are no comments. -/
theorem Number.isComment_of_read? {cs : List Char} {kind : Kind} {n : Nat}
    (h : Number.read? cs = some (kind, n)) : (Lexeme.piece kind).isComment = false := by
  obtain ⟨form, hform, -⟩ := Number.exists_form_of_read? h
  have hall : ∀ f ∈ Number.forms, (Lexeme.piece f.1).isComment = false := by decide
  exact hall _ hform

namespace Token

/-- How scanning goes on after a mark of the code. -/
def afterMark (p : Punct) (inside : List (Bool × Nat)) : Mode × List (Bool × Nat) :=
  match p, inside with
  | .textQuote, _ => (.quoted true, inside)
  | .quote, _ => (.quoted false, inside)
  | .braceOpen, (triple, depth) :: outer => (.code, (triple, depth + 1) :: outer)
  | .braceClose, (triple, 0) :: outer => (.quoted triple, outer)
  | .braceClose, (triple, depth + 1) :: outer => (.code, (triple, depth) :: outer)
  | _, _ => (.code, inside)

/-- The mark that ends a quoted text. -/
def quoteMark (triple : Bool) : Punct := if triple then .textQuote else .quote

/-- **One step of scanning**: what is scanned, how many characters it has,
and how scanning goes on. -/
inductive Step : Mode → List (Bool × Nat) → List Char →
    Option Lexeme × Nat × Mode × List (Bool × Nat) → Prop where
  /-- White space is skipped. -/
  | space {inside c cs} (hc : isSpace c = true) :
      Step .code inside (c :: cs) (none, ((c :: cs).takeWhile isSpace).length, .code, inside)
  /-- A comment goes on to the end of the line. -/
  | lineComment {inside cs} (h : ['/', '/'] <+: cs) :
      Step .code inside cs
        (some (.piece .lineComment), (cs.takeWhile (· != '\n')).length, .code, inside)
  /-- A comment goes on to its last mark. -/
  | blockComment {inside cs n} (h : ['/', '*'] <+: cs)
      (hn : blockCommentLength 2 (cs.drop 2) = some n) :
      Step .code inside cs (some (.piece .blockComment), n, .code, inside)
  /-- What is neither a comment nor a mark, in code or in a quoted text. In
  code it does not end in the end of a line. -/
  | plain {mode inside cs x n} (hx : x.isPlain = true) (hc : x.isComment = false)
      (hline : mode = .code → ∀ c ∈ (cs.take n).getLast?, c ≠ '\n') :
      Step mode inside cs (some x, n, mode, inside)
  /-- A mark in code. -/
  | mark {inside cs p} (hi : p ≠ .interpolate) (hp : p.text.toList <+: cs) :
      Step .code inside cs (some (.punct p), p.text.length, afterMark p inside)
  /-- A quoted text ends. -/
  | close {triple inside cs} (hp : (quoteMark triple).text.toList <+: cs) :
      Step (.quoted triple) inside cs
        (some (.punct (quoteMark triple)), (quoteMark triple).text.length, .code, inside)
  /-- Code begins in a quoted text. -/
  | interpolate {triple inside cs} (hp : Punct.interpolate.text.toList <+: cs) :
      Step (.quoted triple) inside cs
        (some (.punct .interpolate), 2, .code, (triple, 0) :: inside)

theorem prefix_of_punct? {cs : List Char} {p : Punct} (h : punct? cs = some p) :
    p.text.toList <+: cs := by
  have hp := List.find?_some h
  exact List.isPrefixOf_iff_prefix.1 hp

/-- The marks of quoted texts are none that scanning looks for. -/
theorem not_quote_of_punct? {cs : List Char} {p : Punct} (h : punct? cs = some p) :
    p ≠ .quote ∧ p ≠ .textQuote ∧ p ≠ .interpolate := by
  have hp : p ∈ Punct.all := List.mem_of_find?_eq_some h
  refine ⟨?_, ?_, ?_⟩
  all_goals
    rintro rfl
    exact absurd hp (by decide)

/-- A mark in code that is no quotation mark. -/
theorem next_punct {p : Punct} (hp : p ≠ .quote ∧ p ≠ .textQuote ∧ p ≠ .interpolate) (i : List (Bool × Nat)) :
    (match p, i with
      | .braceOpen, (triple, depth) :: outer =>
        (some (Lexeme.punct p), 1, Mode.code, (triple, depth + 1) :: outer)
      | .braceClose, (triple, 0) :: outer => (some (Lexeme.punct p), 1, .quoted triple, outer)
      | .braceClose, (triple, depth + 1) :: outer =>
        (some (Lexeme.punct p), 1, .code, (triple, depth) :: outer)
      | _, _ => (some (Lexeme.punct p), p.text.length, .code, i))
      = (some (.punct p), p.text.length, afterMark p i) := by
  split
  next => rfl
  next => rfl
  next => rfl
  next h₁ h₂ h₃ =>
    have hafter : afterMark p i = (.code, i) := by
      unfold afterMark
      split
      all_goals first | rfl | contradiction | simp_all
    rw [hafter]

/-- White space in code is skipped. -/
theorem next_space {c : Char} (hc : isSpace c = true) (i : List (Bool × Nat)) (cs : List Char) :
    next .code i (c :: cs) = (none, ((c :: cs).takeWhile isSpace).length, .code, i) := by
  unfold next
  dsimp only
  rw [if_pos hc]

/-- A mark that code begins with has the first character of it. -/
theorem head?_of_mark {c : Char} {cs : List Char} {p : Punct} (h : p.text.toList <+: c :: cs) :
    p.text.toList.head? = some c := by
  have hne : p.text.toList ≠ [] := by cases p <;> decide
  obtain ⟨d, w, hw⟩ := List.exists_cons_of_ne_nil hne
  rw [hw] at h ⊢
  rw [(List.cons_prefix_cons.1 h).1]
  rfl

/-- Whether code goes on with a mark or a comment, or else cannot be scanned, from a
character on. -/
def isMarkStart (c : Char) : Bool :=
  !(isSpace c || isWordStart c || c.isDigit || c == '.' || c == '"' || c == '\'')

/-- **What begins like a mark in code** is one, or a comment, or cannot be scanned. -/
theorem lexeme_of_isMarkStart {c : Char} {cs : List Char} {x : Lexeme} {n : Nat} {m' : Mode}
    {i i' : List (Bool × Nat)} (hc : isMarkStart c = true)
    (h : next .code i (c :: cs) = (some x, n, m', i')) :
    x.isComment = true ∨ x = .stray ∨ ∃ p : Punct, x = .punct p ∧ p.text.toList <+: c :: cs := by
  simp only [isMarkStart, Bool.not_eq_true', Bool.or_eq_false_iff, beq_eq_false_iff_ne] at hc
  obtain ⟨⟨⟨⟨⟨hspace, hword⟩, hdigit⟩, hdot⟩, hquote⟩, hquote'⟩ := hc
  unfold next at h
  dsimp only at h
  rw [if_neg (by simp [hspace])] at h
  split at h
  · cases h
    exact .inl rfl
  split at h
  · cases h
    exact .inl rfl
  have hquotes : ¬ ['"', '"', '"'].isPrefixOf (c :: cs) = true := fun h =>
    hquote (List.cons_prefix_cons.1 (List.isPrefixOf_iff_prefix.1 h)).1.symm
  rw [if_neg (by simp [hword]), if_neg (by simp [hdigit, hdot]), if_neg hquotes,
    if_neg (by simp [hquote]), if_neg (by simp [hquote'])] at h
  split at h
  next =>
    cases h
    exact .inr (.inl rfl)
  next p hp =>
    have hmark := (next_punct (not_quote_of_punct? hp) i).symm.trans h
    obtain rfl := Option.some.inj (Prod.mk.inj hmark).1
    exact .inr (.inr ⟨p, rfl, prefix_of_punct? hp⟩)

theorem step_quoted (triple : Bool) (inside : List (Bool × Nat)) (cs : List Char) :
    Step (.quoted triple) inside cs (next (.quoted triple) inside cs) := by
  unfold next
  dsimp only
  split
  next hb =>
    obtain ⟨d, rfl⟩ : ∃ d, cs = '\\' :: d := by
      cases cs with
      | nil => simp at hb
      | cons c d => exact ⟨d, by simpa using hb⟩
    split
    next hi =>
      obtain ⟨e, rfl⟩ : ∃ e, d = Char.ofNat 0x7b :: e := by
        cases d with
        | nil => simp at hi
        | cons c e => exact ⟨e, by simpa using hi⟩
      exact .interpolate ⟨e, rfl⟩
    next =>
      split
      next => exact .plain rfl rfl nofun
      next =>
        split
        next => exact .plain rfl rfl nofun
        next => exact .plain rfl rfl nofun
  next =>
    split
    next ht =>
      split
      next hq =>
        obtain rfl : triple = true := ht
        have hp := List.isPrefixOf_iff_prefix.1 hq
        exact .close hp
      next => exact .plain rfl rfl nofun
    next ht =>
      split
      next hq =>
        obtain ⟨d, rfl⟩ : ∃ d, cs = '"' :: d := by
          cases cs with
          | nil => simp at hq
          | cons c d => exact ⟨d, by simpa using hq⟩
        obtain rfl : triple = false := by simpa using ht
        have hp : ['"'] <+: '"' :: d := ⟨d, rfl⟩
        exact .close hp
      next => exact .plain rfl rfl nofun

/-- The characters that are taken as long as they are of some sort. -/
theorem take_length_takeWhile (p : Char → Bool) (cs : List Char) :
    cs.take (cs.takeWhile p).length = cs.takeWhile p :=
  (List.prefix_iff_eq_take.1 (List.takeWhile_prefix p)).symm

/-- A word does not end in the end of a line. -/
theorem getLast_takeWhile_isWordPart (cs : List Char) :
    ∀ c ∈ (cs.take (cs.takeWhile isWordPart).length).getLast?, c ≠ '\n' := by
  rintro c hc rfl
  rw [take_length_takeWhile] at hc
  have hpart := List.all_eq_true.1 List.all_takeWhile _ (List.mem_of_getLast? hc)
  exact absurd hpart (by decide)

/-- A character literal goes on to its mark. -/
theorem exists_taken_of_characterLength {m n : Nat} {cs : List Char}
    (h : characterLength m cs = some n) :
    ∃ taken rest, cs = taken ++ '\'' :: rest ∧ n = m + taken.length + 1 := by
  fun_induction characterLength m cs with
  | case1 => cases h
  | case2 m rest hm =>
    cases h
    exact ⟨[], rest, rfl, rfl⟩
  | case3 m c cs ih =>
    obtain ⟨taken, rest, rfl, rfl⟩ := ih h
    exact ⟨_ :: _ :: taken, rest, rfl, by simp; omega⟩
  | case4 => cases h
  | case5 m c cs _ _ _ ih =>
    obtain ⟨taken, rest, rfl, rfl⟩ := ih h
    exact ⟨_ :: taken, rest, rfl, by simp; omega⟩
  | case6 => cases h

/-- A character literal ends in its mark. -/
theorem getLast_characterLength (c : Char) {n : Nat} {cs : List Char}
    (h : characterLength 0 cs = some n) : ∀ d ∈ ((c :: cs).take (n + 1)).getLast?, d ≠ '\n' := by
  obtain ⟨taken, rest, rfl, rfl⟩ := exists_taken_of_characterLength h
  have htake : (c :: (taken ++ '\'' :: rest)).take (0 + taken.length + 1 + 1)
      = c :: taken ++ ['\''] := by
    rw [Nat.zero_add, List.take_succ_cons, List.take_length_add_append]
    rfl
  rw [htake, List.getLast?_append]
  rintro d ⟨⟩
  decide

theorem step_code (inside : List (Bool × Nat)) (c : Char) (rest : List Char) :
    Step .code inside (c :: rest) (next .code inside (c :: rest)) := by
  unfold next
  dsimp only
  split
  next hc => exact .space hc
  next hspace =>
    have hstray : ∀ d ∈ ((c :: rest).take 1).getLast?, d ≠ '\n' := by
      rintro d hd rfl
      obtain rfl : c = '\n' := by simpa using hd
      exact hspace (by decide)
    split
    next hl => exact .lineComment (List.isPrefixOf_iff_prefix.1 hl)
    next =>
      split
      next hb =>
        split at hb
        next hp => exact .blockComment (List.isPrefixOf_iff_prefix.1 hp) hb
        next => cases hb
      next =>
        split
        next =>
          split
          next hn =>
            have hp := List.isPrefixOf_iff_prefix.1 (Bool.and_eq_true_iff.1 hn).2
            exact .mark (p := .nonSealed) nofun hp
          next => exact .plain rfl rfl fun _ => getLast_takeWhile_isWordPart (c :: rest)
        next =>
          split
          next =>
            split
            next hk =>
              refine .plain rfl (Number.isComment_of_read? hk) fun _ d hd => ?_
              rintro rfl
              exact Number.notMem_take_read? hk (List.mem_of_getLast? hd)
            next => exact .plain rfl rfl fun _ => hstray
          next =>
            split
            next hq => exact .mark (p := .textQuote) nofun (List.isPrefixOf_iff_prefix.1 hq)
            next =>
              split
              next hq =>
                obtain rfl : c = '"' := by simpa using hq
                exact .mark (p := .quote) nofun (List.prefix_append ['"'] rest)
              next =>
                split
                next =>
                  split
                  next hn => exact .plain rfl rfl fun _ => getLast_characterLength c hn
                  next => exact .plain rfl rfl fun _ => hstray
                next =>
                  split
                  next => exact .plain rfl rfl fun _ => hstray
                  next p hp =>
                    have hmark : Step .code inside (c :: rest)
                        (some (.punct p), p.text.length, afterMark p inside) :=
                      .mark (not_quote_of_punct? hp).2.2 (prefix_of_punct? hp)
                    rw [← next_punct (not_quote_of_punct? hp) inside] at hmark
                    exact hmark

/-- **Whatever is scanned is scanned in one of these steps.** -/
theorem step_next (mode : Mode) (inside : List (Bool × Nat)) {cs : List Char} (hne : cs ≠ []) :
    Step mode inside cs (next mode inside cs) := by
  cases mode with
  | quoted triple => exact step_quoted triple inside cs
  | code =>
    obtain ⟨c, rest, rfl⟩ := List.exists_cons_of_ne_nil hne
    exact step_code inside c rest

theorem take_of_begins {cs : List Char} {p : Punct} (h : p.text.toList <+: cs) :
    cs.take p.text.length = p.text.toList := by
  obtain ⟨rest, rfl⟩ := h
  rw [← String.length_toList, List.take_left]

section Steps

variable {mode mode' : Mode} {inside inside' : List (Bool × Nat)} {cs : List Char} {x : Lexeme}
  {n : Nat}

/-- **Lexemes are scanned as they are written.** -/
theorem Step.spelledBy (h : Step mode inside cs (some x, n, mode', inside')) :
    x.SpelledBy (cs.take n) := by
  generalize hr : (some x, n, mode', inside') = r at h
  cases h with
  | space => cases hr
  | lineComment => cases hr; exact trivial
  | blockComment => cases hr; exact trivial
  | plain hx =>
    cases hr
    cases x with
    | punct => cases hx
    | _ => exact trivial
  | mark _ hp =>
    obtain ⟨hx, hr⟩ := Prod.mk.inj hr
    obtain ⟨rfl, -⟩ := Prod.mk.inj hr
    cases hx
    exact take_of_begins hp
  | close hp => cases hr; exact take_of_begins hp
  | interpolate hp => cases hr; exact take_of_begins hp

/-- Only the end of the text is scanned as its end. -/
theorem Step.ne_finish (h : Step mode inside cs (some x, n, mode', inside')) : x ≠ .finish := by
  rintro rfl
  generalize hr : (some Lexeme.finish, n, mode', inside') = r at h
  cases h with
  | plain hx => cases hr; cases hx
  | mark => cases (Prod.mk.inj hr).1
  | _ => cases hr

theorem le_of_blockCommentLength {m : Nat} (h : blockCommentLength m cs = some n) :
    m + 2 ≤ n := by
  fun_induction blockCommentLength m cs with
  | case1 => cases h; exact Nat.le_refl _
  | case2 m c cs _ ih => exact Nat.le_trans (by omega) (ih h)
  | case3 => cases h

/-- Comments are scanned from their first mark on. -/
theorem Step.of_comment (h : Step mode inside cs (some x, n, mode', inside'))
    (hx : x.isComment = true) : 0 < n ∧ ∃ rest, cs = '/' :: rest := by
  generalize hr : (some x, n, mode', inside') = r at h
  cases h with
  | space => cases hr
  | lineComment h =>
    cases hr
    obtain ⟨rest, rfl⟩ := h
    exact ⟨Nat.succ_pos _, _, rfl⟩
  | blockComment h hn =>
    cases hr
    obtain ⟨rest, rfl⟩ := h
    exact ⟨Nat.lt_of_lt_of_le (Nat.succ_pos 3) (le_of_blockCommentLength hn), _, rfl⟩
  | plain _ hc =>
    cases hr
    rw [hc] at hx
    cases hx
  | mark => obtain ⟨hr, -⟩ := Prod.mk.inj hr; cases hr; cases hx
  | close => cases hr; cases hx
  | interpolate => cases hr; cases hx

end Steps

/-- One step of scanning. -/
theorem scanFrom_succ (fuel : Nat) {mode : Mode} {inside : List (Bool × Nat)} (offset : Nat)
    {cs : List Char} (hne : cs ≠ []) {x : Option Lexeme} {n : Nat} {mode' : Mode}
    {inside' : List (Bool × Nat)} (h : next mode inside cs = (x, n, mode', inside')) :
    scanFrom (fuel + 1) mode inside offset cs
      = (x.map fun l => Token.mk l ⟨offset, offset + byteLength (cs.take n)⟩).toList
        ++ scanFrom fuel mode' inside' (offset + byteLength (cs.take n)) (cs.drop n) := by
  obtain ⟨c, cs, rfl⟩ := List.exists_cons_of_ne_nil hne
  simp only [scanFrom, h]
  cases x with
  | none => rfl
  | some l => rfl

/-- **Scanned tokens lie one after the other.** -/
theorem lies_scanFrom (fuel : Nat) (mode : Mode) (inside : List (Bool × Nat))
    (before cs : List Char) :
    Lies before cs (scanFrom fuel mode inside (byteLength before) cs) := by
  have hend : ∀ before cs,
      Lies before cs [⟨.finish, ⟨byteLength before, byteLength before⟩⟩] := by
    intro before cs
    have h : Lies before ([] ++ cs) [⟨.finish, ⟨byteLength before, byteLength (before ++ [])⟩⟩] :=
      .token trivial .nil
    rwa [List.append_nil, List.nil_append] at h
  induction fuel generalizing mode inside before cs with
  | zero => cases cs <;> exact hend _ _
  | succ fuel ih =>
    by_cases hne : cs = []
    · subst hne
      exact hend _ _
    · obtain ⟨⟨x, n, mode', inside'⟩, hn⟩ : ∃ r, next mode inside cs = r := ⟨_, rfl⟩
      have hrest := ih mode' inside' (before ++ cs.take n) (cs.drop n)
      rw [scanFrom_succ fuel _ hne hn, ← byteLength_append]
      cases x with
      | none =>
        have h := Lies.skip hrest
        rwa [List.take_append_drop] at h
      | some l =>
        have h := Lies.token ((hn ▸ step_next mode inside hne).spelledBy) hrest
        rwa [List.take_append_drop] at h

/-- **No comment is empty.** -/
theorem lt_of_comment_mem_scanFrom {fuel : Nat} {mode : Mode} {inside : List (Bool × Nat)}
    {offset : Nat} {cs : List Char} {t : Token} (ht : t ∈ scanFrom fuel mode inside offset cs)
    (hc : t.isComment = true) : t.span.start < t.span.stop := by
  have hend : ∀ offset, t ∉ [Token.mk .finish ⟨offset, offset⟩] := by
    intro offset ht
    obtain rfl := List.mem_singleton.1 ht
    cases hc
  induction fuel generalizing mode inside offset cs with
  | zero => cases cs <;> exact absurd ht (hend offset)
  | succ fuel ih =>
    by_cases hne : cs = []
    · subst hne
      exact absurd ht (hend offset)
    · obtain ⟨⟨x, n, mode', inside'⟩, hn⟩ : ∃ r, next mode inside cs = r := ⟨_, rfl⟩
      rw [scanFrom_succ fuel offset hne hn, List.mem_append] at ht
      rcases ht with ht | ht
      · cases x with
        | none => cases ht
        | some l =>
          obtain rfl := List.mem_singleton.1 ht
          obtain ⟨hpos, rest, rfl⟩ := (hn ▸ step_next mode inside hne).of_comment hc
          obtain ⟨n, rfl⟩ := Nat.exists_eq_succ_of_ne_zero (Nat.pos_iff_ne_zero.1 hpos)
          show offset < offset + byteLength ('/' :: rest.take n)
          rw [byteLength_cons]
          have := Char.utf8Size_pos '/'
          omega
      · exact ih ht

/-- **The tokens of a text lie in it one after the other.** -/
theorem lies_scan (cs : List Char) : Lies [] cs (scan cs) := by
  unfold scan
  split
  next rest =>
    have h := lies_scanFrom ('\ufeff' :: rest).length .code [] ['\ufeff'] rest
    exact .skip (a := ['\ufeff']) h
  next => exact lies_scanFrom cs.length .code [] [] cs

end Token

theorem Token.lt_of_comment_mem_scan {cs : List Char} {t : Token} (ht : t ∈ Token.scan cs)
    (hc : t.isComment = true) : t.span.start < t.span.stop := by
  unfold Token.scan at ht
  split at ht
  next => exact Token.lt_of_comment_mem_scanFrom ht hc
  next => exact Token.lt_of_comment_mem_scanFrom ht hc

/-! ## The end of the text -/

/-- **Tokens that end in the end of the text**, and have it nowhere
else. -/
inductive Terminated : List Token → Prop where
  /-- The end alone. -/
  | finish {s} : Terminated [⟨.finish, s⟩]
  /-- One more token before. -/
  | cons {t ts} (h : t.lexeme ≠ .finish) (hts : Terminated ts) : Terminated (t :: ts)

theorem Terminated.append {ts us : List Token} (hts : ∀ t ∈ ts, t.lexeme ≠ .finish)
    (hus : Terminated us) : Terminated (ts ++ us) := by
  induction ts with
  | nil => exact hus
  | cons t ts ih =>
    exact .cons (hts t List.mem_cons_self) (ih fun u hu => hts u (List.mem_cons_of_mem t hu))

/-- What stands before other tokens is not the end, and they end in
it. -/
theorem Terminated.of_append {ts us : List Token} (h : Terminated (ts ++ us)) (hus : us ≠ []) :
    (∀ t ∈ ts, t.lexeme ≠ .finish) ∧ Terminated us := by
  induction ts with
  | nil => exact ⟨fun _ ht => absurd ht List.not_mem_nil, h⟩
  | cons t ts ih =>
    generalize hws : t :: ts ++ us = ws at h
    cases h with
    | finish =>
      obtain ⟨-, hnil⟩ := List.cons.inj hws
      exact absurd (List.append_eq_nil_iff.1 hnil).2 hus
    | cons ht hts =>
      obtain ⟨rfl, rfl⟩ := List.cons.inj hws
      obtain ⟨hts, hus⟩ := ih hts
      exact ⟨List.forall_mem_cons.2 ⟨ht, hts⟩, hus⟩

theorem Terminated.filter {ts : List Token} (h : Terminated ts) {keep : Token → Bool}
    (hk : ∀ t, t.lexeme = .finish → keep t = true) : Terminated (ts.filter keep) := by
  induction h with
  | finish =>
    rw [List.filter_cons_of_pos (hk _ rfl)]
    exact .finish
  | @cons t ts ht _ ih =>
    rw [List.filter_cons]
    split
    next => exact .cons ht ih
    next => exact ih

namespace Token

theorem terminated_scanFrom (fuel : Nat) (mode : Mode) (inside : List (Bool × Nat))
    (offset : Nat) (cs : List Char) : Terminated (scanFrom fuel mode inside offset cs) := by
  induction fuel generalizing mode inside offset cs with
  | zero => cases cs <;> exact .finish
  | succ fuel ih =>
    by_cases hne : cs = []
    · subst hne
      exact .finish
    · obtain ⟨⟨x, n, mode', inside'⟩, hn⟩ : ∃ r, next mode inside cs = r := ⟨_, rfl⟩
      rw [scanFrom_succ fuel offset hne hn]
      cases x with
      | none => exact ih _ _ _ _
      | some l => exact .cons ((hn ▸ step_next mode inside hne).ne_finish) (ih _ _ _ _)

/-- **The tokens of a text end in its end.** -/
theorem terminated_scan (cs : List Char) : Terminated (scan cs) := by
  unfold scan
  split
  next => exact terminated_scanFrom _ _ _ _ _
  next => exact terminated_scanFrom _ _ _ _ _

end Token

end JavaMutants.Syntax
