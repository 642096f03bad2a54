import JavaMutants.Config
import JavaMutants.Proofs.Syntax.Lookahead
import Mathlib.Data.List.TakeWhile

/-!
# How identifiers are scanned

Two notions of an identifier meet here: that of a configuration, which goes by what is
a letter or a number in any script (`isIdentifierPart`), and that of the source
language, which has tables of its own (`isWordPart`). In ASCII the first is contained
in the second (`isWordPart_of_isIdentifierPart`), and elsewhere neither is in the other.

So an identifier of a configuration that stands in front of a blank need not be
scanned to one word. But if it is not, the character where the word ends is not of ASCII,
and what is not of ASCII and goes on no word begins nothing either
(`Token.Scans.of_identifier`).
-/

namespace JavaMutants

open Text

/-! ## Characters -/

/-- What holds of all characters of ASCII. -/
theorem Text.forall_ascii (P : Char → Prop) (h : ∀ n < 128, P (Char.ofNat n)) {c : Char}
    (hc : c.toNat < 128) : P c := by
  have hP := h c.toNat hc
  rwa [Char.ofNat_toNat] at hP

/-- **In ASCII, what goes on an identifier goes on a word**, and begins one unless it is
a digit. -/
theorem isWordPart_of_isIdentifierPart {c : Char} (hc : c.toNat < 128)
    (h : isIdentifierPart c = true) :
    isWordPart c = true ∧ (isWordStart c = true ∨ c.isDigit = true) :=
  forall_ascii (fun c => isIdentifierPart c = true →
    isWordPart c = true ∧ (isWordStart c = true ∨ c.isDigit = true)) (by decide) hc h

theorem isDigit_eq_false_of_isIdentifierStart {c : Char} (h : isIdentifierStart c = true) :
    c.isDigit = false := by
  by_contra hdigit
  have hle := (Char.isDigit_iff_toNat.1 (Bool.of_not_eq_false hdigit)).2
  have hnine : '9'.toNat = 57 := rfl
  exact hdigit (forall_ascii (fun c => isIdentifierStart c = true → c.isDigit = false)
    (by decide) (by omega) h)

theorem isIdentifierPart_of_isIdentifierStart {c : Char} (h : isIdentifierStart c = true) :
    isIdentifierPart c = true := by
  simp only [isIdentifierStart, isIdentifierPart, isAlphanumeric, Bool.or_eq_true] at h ⊢
  tauto

/-- The characters of an identifier. -/
theorem isIdentifier_iff {name : String} : isIdentifier name = true ↔
    ∃ c cs, name.toList = c :: cs ∧ isIdentifierStart c = true
      ∧ ∀ d ∈ c :: cs, isIdentifierPart d = true := by
  unfold isIdentifier
  cases hname : name.toList with
  | nil => simp
  | cons c cs =>
    simp only [Bool.and_eq_true, List.all_eq_true, List.forall_mem_cons]
    refine ⟨fun h => ⟨c, cs, rfl, h.1, isIdentifierPart_of_isIdentifierStart h.1, h.2⟩, ?_⟩
    rintro ⟨d, ds, heq, hd, -, hds⟩
    obtain ⟨rfl, rfl⟩ := List.cons.inj heq
    exact ⟨hd, hds⟩

namespace Syntax.Token

/-- A word begins with neither white space nor a slash. -/
theorem not_isSpace_of_isWordStart {c : Char} (h : isWordStart c = true) :
    isSpace c = false ∧ c ≠ '/' := by
  by_cases hc : c.toNat < 128
  · exact forall_ascii (fun c => isWordStart c = true → isSpace c = false ∧ c ≠ '/')
      (by decide) hc h
  · have hblank : c ≠ ' ' := by
      rintro rfl
      exact hc (by decide)
    have hslash : c ≠ '/' := by
      rintro rfl
      exact hc (by decide)
    simp only [isSpace, Bool.or_eq_false_iff, beq_eq_false_iff_ne, Bool.and_eq_false_iff,
      decide_eq_false_iff_not]
    exact ⟨⟨hblank, .inr (by omega)⟩, hslash⟩

/-! ## One step -/

/-- **A word is scanned as far as it goes.** -/
theorem next_word {c : Char} {cs : List Char} (hstart : isWordStart c = true)
    (hsealed : ¬ "non-sealed".toList <+: c :: cs) (i : List (Bool × Nat)) :
    next .code i (c :: cs) = (some (.word (Keyword.ofText?
      (String.ofList ((c :: cs).takeWhile isWordPart)))),
        ((c :: cs).takeWhile isWordPart).length, .code, i) := by
  obtain ⟨hspace, hslash⟩ := not_isSpace_of_isWordStart hstart
  have hprefix (ds : List Char) : ('/' :: ds).isPrefixOf (c :: cs) = false := by
    rw [List.isPrefixOf, beq_false_of_ne hslash.symm, Bool.false_and]
  have hsealed : "non-sealed".toList.isPrefixOf (c :: cs) = false :=
    Bool.eq_false_iff.2 fun h => hsealed (List.isPrefixOf_iff_prefix.1 h)
  unfold next
  dsimp only
  rw [hspace, hprefix, hprefix, hstart, hsealed, Bool.and_false]
  rfl

/-- **A digit begins a number** or nothing. -/
theorem next_digit {c : Char} (h : c.isDigit = true) (i : List (Bool × Nat)) (cs : List Char) :
    ∃ x n, next .code i (c :: cs) = (some x, n, .code, i)
      ∧ (x = .stray ∨ (∃ k, x = .piece k) ∧ x.isComment = false) := by
  have hc : c.toNat < 128 := by
    have hle := (Char.isDigit_iff_toNat.1 h).2
    have hnine : '9'.toNat = 57 := rfl
    omega
  obtain ⟨hspace, hslash, hstart⟩ := forall_ascii (fun c => c.isDigit = true →
    isSpace c = false ∧ c ≠ '/' ∧ isWordStart c = false) (by decide) hc h
  have hprefix (ds : List Char) : ('/' :: ds).isPrefixOf (c :: cs) = false := by
    rw [List.isPrefixOf, beq_false_of_ne hslash.symm, Bool.false_and]
  unfold next
  dsimp only
  rw [hspace, hprefix, hprefix, hstart, h]
  simp only [Bool.false_eq_true, if_false, Bool.true_or, if_true]
  cases hread : Number.read? (c :: cs) with
  | none => exact ⟨_, _, rfl, .inl rfl⟩
  | some r => exact ⟨_, _, rfl, .inr ⟨⟨_, rfl⟩, Number.isComment_of_read? hread⟩⟩

/-- **The mark of an annotation type** is longer than that of an annotation. -/
theorem next_atInterface {cs : List Char} (h : "interface".toList <+: cs) (i : List (Bool × Nat)) :
    next .code i ('@' :: cs) = (some (.punct .atInterface), 10, .code, i) := by
  have hlong : Punct.atInterface.text.toList.isPrefixOf ('@' :: cs) = true :=
    List.isPrefixOf_iff_prefix.2 (List.cons_prefix_cons.2 ⟨rfl, h⟩)
  have hpunct : punct? ('@' :: cs) = some .atInterface := by
    rw [punct?, Punct.all, List.find?_cons, hlong]
  have hstart : isWordStart '@' = false := by decide
  unfold next
  dsimp only
  rw [hstart, hpunct]
  rfl

theorem next_at {cs : List Char} (h : ¬ "interface".toList <+: cs) (i : List (Bool × Nat)) :
    next .code i ('@' :: cs) = (some (.punct .at), 1, .code, i) := by
  have hlong : Punct.atInterface.text.toList.isPrefixOf ('@' :: cs) = false :=
    Bool.eq_false_iff.2 fun hp => h (List.cons_prefix_cons.1
      (List.isPrefixOf_iff_prefix.1 hp : '@' :: "interface".toList <+: '@' :: cs)).2
  have hpunct : punct? ('@' :: cs) = some .at := by
    rw [punct?, Punct.all, List.find?_cons, hlong]
    rfl
  have hstart : isWordStart '@' = false := by decide
  unfold next
  dsimp only
  rw [hstart, hpunct]
  rfl

/-! ## Identifiers in front of a blank -/

variable {i : List (Bool × Nat)} {before cs tail : List Char} {ts : List Token} {c : Char}

/-- The one word with a hyphen has a character that others do not have. -/
theorem not_sealed {P : Char → Bool} (hhyphen : P '-' = false) {r : List Char}
    (hr : ∀ c ∈ r, P c = true) : ¬ "non-sealed".toList <+: r ++ ' ' :: tail := by
  intro h
  have hmem : '-' ∈ r := ((prefix_append_iff (by decide)).1 h).subset (by decide)
  rw [hr _ hmem] at hhyphen
  cases hhyphen

/-- **A word in front of a blank.** -/
theorem next_word_blank {r : List Char} (hstart : isWordStart c = true)
    (hr : ∀ d ∈ c :: r, isWordPart d = true) (i : List (Bool × Nat)) :
    next .code i (c :: r ++ ' ' :: tail)
      = (some (.word (Keyword.ofText? (String.ofList (c :: r)))), (c :: r).length, .code, i) := by
  have hblank : isWordPart ' ' = false := by decide
  have hword : (c :: r ++ ' ' :: tail).takeWhile isWordPart = c :: r := by
    rw [List.takeWhile_append_of_pos hr, List.takeWhile_cons_of_neg (by rw [hblank]; nofun),
      List.append_nil]
  have hnext : next .code i (c :: r ++ ' ' :: tail) = (some (.word (Keyword.ofText?
      (String.ofList ((c :: r ++ ' ' :: tail).takeWhile isWordPart)))),
        ((c :: r ++ ' ' :: tail).takeWhile isWordPart).length, .code, i) :=
    next_word hstart (not_sealed (by decide) hr) i
  rwa [hword] at hnext

/-- Nothing is scanned where a character stands that is not of ASCII and goes on no word. -/
theorem Scans.false_of_not_isWordPart (h : Scans .code i before (c :: cs) ts)
    (hstray : ∀ t ∈ ts, t.lexeme ≠ .stray) (hc : 128 ≤ c.toNat) (hpart : isWordPart c = false) :
    False := by
  by_cases hstart : isWordStart c = true
  · -- it begins a word, but that has no characters
    have hsealed : ¬ "non-sealed".toList <+: c :: cs := by
      rintro ⟨rest, hrest⟩
      rw [← (List.cons.inj hrest).1] at hc
      exact absurd hc (by decide)
    have hnext := next_word hstart hsealed i
    rw [List.takeWhile_cons_of_neg (by rw [hpart]; nofun)] at hnext
    obtain ⟨us, rfl, -⟩ := h.of_token nofun hnext
    have hlt := h.lt_of_mem List.mem_cons_self nofun
    rw [List.length_nil, List.take_zero, List.append_nil] at hlt
    exact Nat.lt_irrefl _ hlt
  · obtain ⟨us, rfl, -⟩ := h.of_token nofun (next_stray hc (by simpa using hstart) i cs)
    exact hstray _ List.mem_cons_self rfl

/-- Scanning goes on after the characters of a word that come first. -/
theorem Scans.of_word {w rest : List Char} (h : Scans .code i before (c :: cs) ts)
    (hstart : isWordStart c = true) (hsealed : ¬ "non-sealed".toList <+: c :: cs)
    (hsplit : c :: cs = w ++ rest) (hw : ∀ d ∈ w, isWordPart d = true)
    (hrest : ∀ d ∈ rest.head?, isWordPart d = false) :
    ∃ k s us, ts = ⟨.word k, s⟩ :: us ∧ Scans .code i (before ++ w) rest us := by
  have htake : (w ++ rest).takeWhile isWordPart = w := by
    rw [List.takeWhile_append_of_pos hw]
    cases rest with
    | nil => exact List.append_nil w
    | cons d rest => rw [List.takeWhile_cons_of_neg (by rw [hrest d rfl]; nofun), List.append_nil]
  obtain ⟨us, rfl, hus⟩ := h.of_token nofun (next_word hstart hsealed i)
  rw [hsplit, htake, List.take_left, List.drop_left] at hus
  exact ⟨_, _, us, rfl, hus⟩

/-- **An identifier in front of a blank** is scanned to one word if it begins with a
letter, and else to a number, unless there are characters that begin nothing. -/
theorem Scans.of_identifier {r : List Char} (hr : ∀ d ∈ c :: r, isIdentifierPart d = true)
    (h : Scans .code i before (c :: r ++ ' ' :: tail) ts) (hstray : ∀ t ∈ ts, t.lexeme ≠ .stray) :
    (c.isDigit = true ∧ ∃ k s us, ts = ⟨.piece k, s⟩ :: us ∧ (Lexeme.piece k).isComment = false)
      ∨ isWordStart c = true ∧ (∀ d ∈ c :: r, isWordPart d = true) ∧ ∃ k s us,
        ts = ⟨.word k, s⟩ :: us ∧ Scans .code i (before ++ c :: r) (' ' :: tail) us := by
  have hascii : ∀ d ∈ c :: r, isWordPart d = false → 128 ≤ d.toNat := by
    intro d hd hpart
    refine Nat.le_of_not_lt fun hlt => ?_
    rw [(isWordPart_of_isIdentifierPart hlt (hr d hd)).1] at hpart
    cases hpart
  by_cases hstart : isWordStart c = true
  · have hsealed : ¬ "non-sealed".toList <+: c :: r ++ ' ' :: tail :=
      not_sealed (by decide) hr
    by_cases hall : ∀ d ∈ c :: r, isWordPart d = true
    · have hblank : ∀ d ∈ (' ' :: tail).head?, isWordPart d = false := by
        rintro d hd
        rw [← Option.some.inj hd]
        decide
      exact .inr ⟨hstart, hall, Scans.of_word h hstart hsealed rfl hall hblank⟩
    · -- the word ends at a character that begins nothing
      obtain ⟨d, r', hd⟩ : ∃ d r', (c :: r).dropWhile isWordPart = d :: r' :=
        List.exists_cons_of_ne_nil fun hnil => hall (List.dropWhile_eq_nil_iff.1 hnil)
      have hsplit : c :: r = (c :: r).takeWhile isWordPart ++ d :: r' := by
        rw [← hd, List.takeWhile_append_dropWhile]
      have hpart : isWordPart d = false := by
        have hnot := List.head?_dropWhile_not isWordPart (c :: r)
        rwa [hd] at hnot
      have hmem : d ∈ c :: r := by
        rw [hsplit]
        exact List.mem_append_right _ List.mem_cons_self
      have hword : c :: (r ++ ' ' :: tail)
          = (c :: r).takeWhile isWordPart ++ d :: (r' ++ ' ' :: tail) := by
        rw [← List.cons_append, hsplit, List.append_assoc, List.cons_append, ← hsplit]
      obtain ⟨k, s, us, rfl, hus⟩ := Scans.of_word h hstart hsealed hword
        (fun _ => List.mem_takeWhile_imp) (fun e he => Option.some.inj he ▸ hpart)
      exact (hus.false_of_not_isWordPart (fun t ht => hstray t (List.mem_cons_of_mem _ ht))
        (hascii d hmem hpart) hpart).elim
  · by_cases hc : c.toNat < 128
    · have hdigit := ((isWordPart_of_isIdentifierPart hc (hr c List.mem_cons_self)).2).resolve_left
        hstart
      obtain ⟨x, n, hnext, rfl | ⟨⟨k, rfl⟩, hcomment⟩⟩ := next_digit hdigit i (r ++ ' ' :: tail)
      · obtain ⟨us, rfl, -⟩ := h.of_token nofun hnext
        exact absurd rfl (hstray _ List.mem_cons_self)
      · obtain ⟨us, rfl, -⟩ := h.of_token nofun hnext
        exact .inl ⟨hdigit, k, _, us, rfl, hcomment⟩
    · obtain ⟨us, rfl, -⟩ := h.of_token nofun
        (next_stray (Nat.le_of_not_lt hc) (by simpa using hstart) i (r ++ ' ' :: tail))
      exact absurd rfl (hstray _ List.mem_cons_self)

end Syntax.Token

end JavaMutants
