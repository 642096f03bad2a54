import JavaMutants.Proofs.Syntax.Content
import JavaMutants.Proofs.Syntax.Mark
import JavaMutants.Proofs.Syntax.Passage

/-!
# Leaves with other characters than some marks

A leaf that is a word, a number or a character literal has a character that
begins no mark, and so has a mark that is written with one. Given some
characters that do begin marks, such a leaf is not made of them alone
(`IsParse.exists_char_of_solid`). Only the parts of quoted texts and comments
can be.

The rules of the grammar are checked for such leaves here: nearly every part
has one (`isSolid`), and so has the node that each construct begins with.
-/

namespace JavaMutants.Syntax

open Syntax.Tree Text Grammar

/-! ## Labels -/

/-- The kinds of leaves that can be made of any characters, and of the one leaf with a
name that is a mark. -/
def Kind.loose : List Kind := [
  .stringFragment, .multilineStringFragment, .escapeSequence, .lineComment, .blockComment,
  .asterisk ]

/-- **Whether a leaf with a label has a character beside some marks.** -/
def Label.isSolid (marks : List Char) : Label → Bool
  | .punct p => p.text.toList.any fun c => !marks.contains c
  | .keyword _ => true
  | .named k => !Kind.loose.contains k
  | .error | .missing _ => false

namespace Token

/-- Between quotation marks there are only loose pieces. -/
theorem mem_loose_of_quoted {triple : Bool} {i : List (Bool × Nat)} {cs : List Char} {k : Kind}
    {r : Nat × Mode × List (Bool × Nat)}
    (h : next (.quoted triple) i cs = (some (.piece k), r)) : k ∈ Kind.loose := by
  unfold next at h
  dsimp only at h
  repeat' split at h
  all_goals first | (cases h; done) | (cases h; decide)

/-- **A word or a literal begins with a character that begins no mark.** -/
theorem exists_head_of_next {m m' : Mode} {i i' : List (Bool × Nat)} {cs : List Char} {x : Lexeme}
    {n : Nat} (h : next m i cs = (some x, n, m', i')) (hne : cs ≠ [])
    (hx : (∃ w, x = .word w) ∨ ∃ k, x = .piece k ∧ k ∉ Kind.loose) :
    ∃ c rest, cs = c :: rest ∧ isMarkStart c = false := by
  cases m with
  | quoted triple =>
    rcases hx with ⟨w, rfl⟩ | ⟨k, rfl, hk⟩
    · rcases lexeme_of_quoted h with hmem | hstray | ⟨k, hk⟩
      · simp [quotedMarks] at hmem
      · cases hstray
      · cases hk
    · exact absurd (mem_loose_of_quoted h) hk
  | code =>
    obtain ⟨c, rest, rfl⟩ := List.exists_cons_of_ne_nil hne
    refine ⟨c, rest, rfl, ?_⟩
    by_contra hmark
    rcases lexeme_of_isMarkStart (by simpa using hmark) h with hcomment | rfl | ⟨p, rfl, -⟩
    · rcases hx with ⟨w, rfl⟩ | ⟨k, rfl, hk⟩
      · cases hcomment
      · rcases Bool.or_eq_true_iff.1 hcomment with hk' | hk' <;>
        · cases beq_iff_eq.1 hk'
          exact hk (by decide)
    · rcases hx with ⟨w, hw⟩ | ⟨k, hk, -⟩
      · cases hw
      · cases hk
    · rcases hx with ⟨w, hw⟩ | ⟨k, hk, -⟩
      · cases hw
      · cases hk

end Token

/-- **A leaf that is no mark is a token of the text** as it is. -/
theorem Takes.exists_token_of_ne {ts rest : List Token} {ls : List (Label × Span)}
    (h : Takes ts ls rest) {x : Label × Span} (hx : x ∈ ls) (hmark : ∀ p, x.1 ≠ .punct p)
    (hfault : x.1.isFault = false) : ∃ t ∈ ts, t.lexeme.standsAs x.1 = true ∧ x.2 = t.span := by
  have hleaf : ∀ {label : Label} {s : Span}, (leafLabel label s).isFault = false →
      leafLabel label s = label := fun h => leafLabel_eq (lt_of_leafLabel h)
  induction h with
  | nil => exact absurd hx List.not_mem_nil
  | token hl _ ih =>
    rcases List.mem_cons.1 hx with rfl | hx
    · exact ⟨_, List.mem_cons_self, by rw [hleaf hfault]; exact hl, rfl⟩
    · obtain ⟨t, ht, h⟩ := ih hx
      exact ⟨t, List.mem_cons_of_mem _ ht, h⟩
  | @angle p q s ts leaves rest hp _ ih =>
    rcases List.mem_cons.1 hx with rfl | hx
    · exact absurd (hleaf hfault) (hmark _)
    · obtain ⟨t, ht, hl, hs⟩ := ih hx
      cases q with
      | none => exact ⟨t, List.mem_cons_of_mem _ ht, hl, hs⟩
      | some q =>
        rcases List.mem_cons.1 ht with rfl | ht
        · -- what is left of a mark is no asterisk
          exfalso
          obtain ⟨label, s'⟩ := x
          cases label with
          | punct r => exact hmark r rfl
          | named k =>
            obtain ⟨hq, -⟩ := Bool.and_eq_true_iff.1 hl
            obtain rfl := beq_iff_eq.1 hq
            cases p <;> cases hp
          | _ => cases hl
        · exact ⟨t, List.mem_cons_of_mem _ ht, hl, hs⟩
  | finish _ ih =>
    obtain ⟨t, ht, h⟩ := ih hx
    exact ⟨t, List.mem_cons_of_mem _ ht, h⟩

section Sound

variable {text : String} {tree : Tree} {marks : List Char}

/-- **A solid leaf has a character beside the marks.** -/
theorem IsParse.exists_char_of_solid (h : IsParse text tree)
    (hmarks : ∀ c ∈ marks, Token.isMarkStart c = true) {x : Label × Span}
    (hx : x ∈ leavesAll (bareAll tree.children)) (hs : x.1.isSolid marks = true) :
    ∃ a b c, text.toList = a ++ (b ++ c) ∧ x.2 = ⟨byteLength a, byteLength (a ++ b)⟩
      ∧ ∃ d ∈ b, d ∉ marks := by
  have hfault := h.whole x hx
  by_cases hmark : ∃ p, x.1 = .punct p
  · obtain ⟨p, hp⟩ := hmark
    obtain ⟨label, s⟩ := x
    obtain rfl : label = .punct p := hp
    obtain ⟨a, c, htext, hspan⟩ := h.takes.exists_spelling (Token.lies_code text.toList) hx
    obtain ⟨d, hd, hd'⟩ := List.any_eq_true.1 hs
    exact ⟨a, p.text.toList, c, htext, hspan, d, hd, by simpa using hd'⟩
  · obtain ⟨t, ht, hl, hspan⟩ :=
      h.takes.exists_token_of_ne hx (fun p hp => hmark ⟨p, hp⟩) hfault
    have hscan : t ∈ Token.scan text.toList := (List.mem_filter.1 ht).1
    have hword : (∃ w, t.lexeme = .word w) ∨ ∃ k, t.lexeme = .piece k ∧ k ∉ Kind.loose := by
      obtain ⟨label, s⟩ := x
      obtain ⟨lexeme, s'⟩ := t
      cases lexeme with
      | word w => exact .inl ⟨w, rfl⟩
      | piece k =>
        cases label with
        | named l =>
          obtain rfl : k = l := beq_iff_eq.1 hl
          exact .inr ⟨k, rfl, by simpa [Label.isSolid] using hs⟩
        | _ => cases hl
      | punct p =>
        cases label with
        | punct q => exact absurd ⟨q, rfl⟩ hmark
        | named l =>
          obtain ⟨-, hk⟩ := Bool.and_eq_true_iff.1 hl
          obtain rfl := beq_iff_eq.1 hk
          cases hs
        | _ => cases hl
      | _ => cases label <;> cases hl
    have hfin : t.lexeme ≠ .finish := by
      rcases hword with ⟨w, hw⟩ | ⟨k, hk, -⟩
      · rw [hw]
        nofun
      · rw [hk]
        nofun
    -- the token is scanned where it begins
    have hlt := h.lt_of_mem_scan hscan hfin
    obtain ⟨mark, cs, htext, hscans, -⟩ := h.exists_scans
    obtain ⟨ts, us, hsplit⟩ := List.append_of_mem hscan
    rw [hsplit] at hscans
    obtain ⟨v, c, m, i, rfl, -, hscans, hst⟩ := hscans.exists_passes hfin
    obtain ⟨n, m', i', hnext, hne, hstop, -⟩ := hscans.next_of_start hfin hst
    obtain ⟨d, rest, rfl, hd⟩ := Token.exists_head_of_next hnext hne hword
    refine ⟨mark ++ v, (d :: rest).take n, (d :: rest).drop n, ?_, ?_, d, ?_, fun hmem => ?_⟩
    · rw [htext, List.take_append_drop, List.append_assoc]
    · rw [hspan, ← hst, ← hstop]
    · cases n with
      | zero =>
        rw [List.take_zero, List.append_nil] at hstop
        omega
      | succ n => exact List.mem_cons_self
    · rw [hmarks d hmem] at hd
      cases hd

end Sound

end JavaMutants.Syntax
