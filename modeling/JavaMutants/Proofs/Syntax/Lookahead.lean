import JavaMutants.Proofs.Syntax.Lexing
import Mathlib.Data.List.Find

/-!
# How far scanning looks ahead

What is scanned at the front of a text may depend on all that follows: a
comment has to be closed somewhere, and a number is the longest there is.
What ends there nevertheless depends on less. If a step ends before a brace
or a semicolon, what comes after that mark could be anything, as long as it
closes no comment (`Token.next_append`).

How scanning goes on depends on the quoted texts that code stands in, but
what is scanned does not (`Token.next_eq_advance`).
-/

namespace JavaMutants.Syntax

open Text

/-- The characters that end what can be said about a text from its front:
braces and the semicolon. -/
def barriers : List Char := [Char.ofNat 0x7b, Char.ofNat 0x7d, ';']

/-- A check of all barriers. -/
theorem forall_barrier (P : Char → Prop)
    (h : P (Char.ofNat 0x7b) ∧ P (Char.ofNat 0x7d) ∧ P ';') : ∀ e ∈ barriers, P e := by
  simpa [barriers] using h

variable {e : Char} {v w B B' : List Char}

/-! ## What lies before a barrier -/

/-- A text begins with given characters if what comes before another character does. -/
theorem prefix_append_iff {P : List Char} (h : e ∉ P) : P <+: v ++ e :: B ↔ P <+: v := by
  induction v generalizing P with
  | nil =>
    cases P with
    | nil => simp
    | cons p P =>
      have hp : p ≠ e := fun hp => h (hp ▸ List.mem_cons_self)
      simp [List.cons_prefix_cons, hp]
  | cons c v ih =>
    cases P with
    | nil => simp
    | cons p P =>
      rw [List.cons_append, List.cons_prefix_cons, List.cons_prefix_cons,
        ih fun he => h (List.mem_cons_of_mem p he)]

/-- A text begins with given characters or does not, whatever comes after a
character that is not among them. -/
theorem isPrefixOf_append {P : List Char} (h : e ∉ P) :
    P.isPrefixOf (v ++ e :: B) = P.isPrefixOf (v ++ e :: B') := by
  rw [Bool.eq_iff_iff, List.isPrefixOf_iff_prefix, List.isPrefixOf_iff_prefix,
    prefix_append_iff h, prefix_append_iff h]

theorem isPrefixOf_cons_append {P : List Char} (h : e ∉ P.tail) (c : Char) :
    P.isPrefixOf (c :: (v ++ e :: B)) = P.isPrefixOf (c :: (v ++ e :: B')) := by
  cases P with
  | nil => rfl
  | cons p P =>
    have hP : P.isPrefixOf (v ++ e :: B) = P.isPrefixOf (v ++ e :: B') := isPrefixOf_append h
    simp only [List.isPrefixOf, hP]

/-- Characters of some sort end where they do, whatever comes later. -/
theorem takeWhile_append {p : Char → Bool}
    (h : ((v ++ e :: B).takeWhile p).length ≤ v.length) :
    (v ++ e :: B').takeWhile p = (v ++ e :: B).takeWhile p := by
  rw [List.takeWhile_append] at h ⊢
  rw [List.takeWhile_append]
  split at h
  next hv =>
    cases he : p e with
    | true =>
      rw [List.takeWhile_cons_of_pos he, List.length_append, List.length_cons] at h
      omega
    | false => simp [hv, he]
  next hv => simp [hv]

theorem takeWhile_append_of_not {p : Char → Bool} (h : p e = false) :
    (v ++ e :: B').takeWhile p = (v ++ e :: B).takeWhile p := by
  refine takeWhile_append ?_
  rw [List.takeWhile_append]
  split
  next => simp [h]
  next => exact (List.takeWhile_prefix p).length_le

namespace Token

/-- **A comment ends before a character, or the characters before it do not
matter.** -/
theorem blockCommentLength_append (he : e ≠ '/') (n : Nat) (w : List Char) :
    blockCommentLength n (w ++ e :: B)
      = (blockCommentLength n w).or (blockCommentLength (n + w.length) (e :: B)) := by
  fun_induction blockCommentLength n w with
  | case1 n w => rfl
  | case2 n c w hne ih =>
    have hstep : blockCommentLength n (c :: (w ++ e :: B))
        = blockCommentLength (n + 1) (w ++ e :: B) := by
      refine blockCommentLength.eq_2 _ _ _ fun rest hc hw => ?_
      cases w with
      | nil =>
        obtain ⟨h, -⟩ := List.cons.inj hw
        exact he h
      | cons d w =>
        obtain ⟨rfl, -⟩ := List.cons.inj hw
        exact hne _ hc rfl
    rw [List.cons_append, hstep, ih, List.length_cons, Nat.add_assoc, Nat.add_comm 1]
  | case3 n => rfl

/-- A character literal ends where it does, whatever comes later. -/
theorem characterLength_append {m k : Nat} {a b : List Char}
    (h : characterLength m (w ++ a) = some k) (hk : k ≤ m + w.length) :
    characterLength m (w ++ b) = some k := by
  generalize hcs : w ++ a = cs at h
  fun_induction characterLength m cs generalizing w with
  | case1 => cases h
  | case2 m rest hm =>
    cases h
    cases w with
    | nil =>
      rw [List.length_nil] at hk
      omega
    | cons c w =>
      obtain ⟨rfl, -⟩ := List.cons.inj hcs
      show characterLength m ('\'' :: (w ++ b)) = _
      rw [characterLength, if_neg hm]
  | case3 m c cs ih =>
    obtain ⟨taken, rest, -, hlen⟩ := exists_taken_of_characterLength h
    match w, hcs with
    | [], _ => simp at hk; omega
    | [_], _ => simp at hk; omega
    | x :: y :: w, hcs =>
      obtain ⟨rfl, hcs₁⟩ := List.cons.inj hcs
      obtain ⟨rfl, hcs₂⟩ := List.cons.inj hcs₁
      show characterLength m ('\\' :: y :: (w ++ b)) = _
      rw [characterLength]
      exact ih (by simp only [List.length_cons] at hk; omega) hcs₂ h
  | case4 => cases h
  | case5 m c cs hquote hback hc ih =>
    obtain ⟨taken, rest, -, hlen⟩ := exists_taken_of_characterLength h
    cases w with
    | nil => simp at hk; omega
    | cons x w =>
      obtain ⟨rfl, hcs₁⟩ := List.cons.inj hcs
      have hx : ∀ d ds, x :: (w ++ b) = '\\' :: d :: ds → False := by
        rintro d ds heq
        obtain ⟨rfl, -⟩ := List.cons.inj heq
        simp at hc
      show characterLength m (x :: (w ++ b)) = _
      rw [characterLength, if_neg hc]
      · exact ih (by simp only [List.length_cons] at hk; omega) hcs₁ h
      · exact hquote
      · rintro d ds rfl -
        simp at hc
  | case6 => cases h

/-- One character of a text block. -/
theorem textBlockLength_cons (n : Nat) (c : Char) (cs : List Char) :
    textBlockLength n (c :: cs)
      = if ['"', '"', '"'].isPrefixOf (c :: cs) || c == '\\' then n
        else textBlockLength (n + 1) cs := by
  by_cases hq : ['"', '"', '"'].isPrefixOf (c :: cs) = true
  · obtain ⟨rest, hrest⟩ := List.isPrefixOf_iff_prefix.1 hq
    rw [hq, Bool.true_or, if_pos rfl, ← hrest]
    exact textBlockLength.eq_1 n rest
  · by_cases hb : c = '\\'
    · subst hb
      rw [beq_self_eq_true, Bool.or_true, if_pos rfl]
      exact textBlockLength.eq_2 n cs
    · rw [if_neg (by simp [hq, hb])]
      refine textBlockLength.eq_3 n c cs ?_ hb
      rintro rest rfl rfl
      exact hq rfl

/-- The text of a text block ends where it does, whatever comes later. -/
theorem textBlockLength_append (he : e ≠ '"') (hb : e ≠ '\\') {n : Nat}
    (h : textBlockLength n (w ++ e :: B) ≤ n + w.length) :
    textBlockLength n (w ++ e :: B') = textBlockLength n (w ++ e :: B) := by
  have hle : ∀ n cs, n ≤ textBlockLength n cs := by
    intro n cs
    fun_induction textBlockLength n cs with
    | case1 | case2 | case4 => exact Nat.le_refl _
    | case3 n c cs _ _ ih => exact Nat.le_trans (Nat.le_succ n) ih
  induction w generalizing n with
  | nil =>
    have hstep : textBlockLength n (e :: B) = textBlockLength (n + 1) B := by
      rw [textBlockLength_cons, if_neg]
      simp [List.isPrefixOf, he.symm, hb]
    have hlt := hle (n + 1) B
    rw [List.nil_append, hstep, List.length_nil] at h
    omega
  | cons c w ih =>
    have hq : ['"', '"', '"'].isPrefixOf (c :: (w ++ e :: B'))
        = ['"', '"', '"'].isPrefixOf (c :: (w ++ e :: B)) :=
      isPrefixOf_cons_append (by simp [he]) c
    rw [List.cons_append, textBlockLength_cons] at h ⊢
    rw [List.cons_append, textBlockLength_cons, hq]
    split at h
    next hc => rw [if_pos hc, if_pos hc]
    next hc =>
      rw [if_neg hc, if_neg hc]
      exact ih (by rw [List.length_cons] at h; omega)

/-- After its first character, no escape has a quotation mark or a backslash. -/
theorem excludes_escape_after {c : Char} (hc : c = '"' ∨ c = '\\') (d : Char) :
    (escape.after d).excludes c = true := by
  have hrest : ∀ (accepts : Char → Bool) {p : Pattern}, p.excludes c = true →
      (Pattern.after d (.either (.one accepts) p)).excludes c = true := by
    intro accepts p hp
    refine Pattern.excludes_orElse ?_ (Pattern.excludes_after d hp)
    rw [Pattern.after]
    split
    next => rfl
    next => rfl
  refine hrest _ ?_
  rcases hc with rfl | rfl <;> decide

/-- **An escape is the same**, whatever comes after a quotation mark or a backslash
that follows it. -/
theorem escape_longest_append {c d : Char} (hc : c = '"' ∨ c = '\\') (h : c ∈ w)
    (a b : List Char) : escape.longest (d :: (w ++ a)) = escape.longest (d :: (w ++ b)) := by
  unfold Pattern.longest
  rw [Pattern.longestFrom, Pattern.longestFrom]
  split
  next => rfl
  next => exact Pattern.longestFrom_append (excludes_escape_after hc d) h _ _ a b

/-- No escape is empty. -/
theorem escape_longest_pos {cs : List Char} {n : Nat} (h : escape.longest cs = some n) :
    0 < n := by
  cases cs with
  | nil => cases h
  | cons d cs =>
    have hempty : escape.matchesEmpty = false := by decide
    unfold Pattern.longest at h
    rw [Pattern.longestFrom, hempty] at h
    split at h
    next => cases h
    next =>
      rcases Pattern.notMem_take_longestFrom (excludes_escape_after (.inl rfl) d) h with hn | ⟨hle, -⟩
      · cases hn
      · exact hle

/-! ## Steps before a barrier -/

/-- **A comment is closed or not**, whatever comes after a barrier, if that
closes no comment. -/
theorem blockComment_append {c : Char} (he : e ∈ barriers)
    (hclose : ∀ k, blockCommentLength k B = none → blockCommentLength k B' = none)
    (h : ∀ n ∈ if ['/', '*'].isPrefixOf (c :: (v ++ e :: B)) then
        blockCommentLength 2 ((c :: (v ++ e :: B)).drop 2) else none, n ≤ v.length + 1) :
    (if ['/', '*'].isPrefixOf (c :: (v ++ e :: B')) then
        blockCommentLength 2 ((c :: (v ++ e :: B')).drop 2) else none)
      = if ['/', '*'].isPrefixOf (c :: (v ++ e :: B)) then
        blockCommentLength 2 ((c :: (v ++ e :: B)).drop 2) else none := by
  have hslash : e ≠ '/' := by rintro rfl; exact absurd he (by decide)
  have hstar : e ≠ '*' := by rintro rfl; exact absurd he (by decide)
  have hp : ['/', '*'].isPrefixOf (c :: (v ++ e :: B'))
      = ['/', '*'].isPrefixOf (c :: (v ++ e :: B)) :=
    isPrefixOf_cons_append (by simp [hstar]) c
  rw [hp]
  split at h
  next hopen =>
    rw [if_pos hopen, if_pos hopen]
    obtain ⟨w, rfl⟩ : ∃ w, v = '*' :: w := by
      obtain ⟨rest, hrest⟩ := List.isPrefixOf_iff_prefix.1 hopen
      obtain ⟨-, hrest⟩ := List.cons.inj hrest
      cases v with
      | nil => exact absurd (List.cons.inj hrest).1.symm hstar
      | cons d w =>
        obtain ⟨rfl, -⟩ := List.cons.inj hrest
        exact ⟨w, rfl⟩
    have hstep : ∀ k cs, blockCommentLength k (e :: cs) = blockCommentLength (k + 1) cs :=
      fun k cs => blockCommentLength.eq_2 k e cs fun _ h _ => hstar h
    have hdrop : ∀ cs, (c :: ('*' :: w ++ e :: cs)).drop 2 = w ++ e :: cs := fun _ => rfl
    rw [hdrop, blockCommentLength_append hslash, hstep] at h
    rw [hdrop, hdrop, blockCommentLength_append hslash, blockCommentLength_append hslash, hstep,
      hstep]
    cases hw : blockCommentLength 2 w with
    | some k => rfl
    | none =>
      rw [hw] at h
      -- it would end after the barrier
      cases hB : blockCommentLength (2 + w.length + 1) B with
      | none => rw [hclose _ hB]
      | some k =>
        have hle := h k hB
        have hge := le_of_blockCommentLength hB
        rw [List.length_cons] at hle
        omega
  next hopen => rw [if_neg hopen, if_neg hopen]

/-- What begins with an apostrophe is a character literal, or stray. -/
theorem next_apostrophe (i : List (Bool × Nat)) (cs : List Char) :
    next .code i ('\'' :: cs) = match characterLength 0 cs with
      | some n => (some (.piece .characterLiteral), n + 1, .code, i)
      | none => (some .stray, 1, .code, i) := rfl

/-- A step of code that ends before a barrier is the same whatever comes
after it. -/
theorem next_code_append {c : Char} {i i' : List (Bool × Nat)} {m' : Mode} {x : Option Lexeme}
    {n : Nat} (he : e ∈ barriers) (h : next .code i (c :: (v ++ e :: B)) = (x, n, m', i'))
    (hn : n ≤ v.length + 1) (hx : x ≠ some .stray)
    (hclose : ∀ k, blockCommentLength k B = none → blockCommentLength k B' = none) :
    next .code i (c :: (v ++ e :: B')) = (x, n, m', i') := by
  by_cases hquote : c = '\''
  · -- the literal ends before the barrier
    subst hquote
    rw [next_apostrophe] at h ⊢
    split at h
    next k hk =>
      cases h
      rw [characterLength_append hk (by omega)]
    next =>
      cases h
      exact absurd rfl hx
  -- most of what is looked at ends at the barrier
  have hprefix : ∀ P : List Char, e ∉ P.tail →
      P.isPrefixOf (c :: (v ++ e :: B')) = P.isPrefixOf (c :: (v ++ e :: B)) :=
    fun P hP => isPrefixOf_cons_append hP c
  have hwhile : ∀ p : Char → Bool, p e = false →
      (c :: (v ++ e :: B')).takeWhile p = (c :: (v ++ e :: B)).takeWhile p := fun p hp => by
    rw [← List.cons_append, ← List.cons_append]
    exact takeWhile_append_of_not hp
  have hspace := hwhile isSpace (forall_barrier (fun e => isSpace e = false) (by decide) e he)
  have hword := hwhile isWordPart (forall_barrier (fun e => isWordPart e = false) (by decide) e he)
  have hhead : (v ++ e :: B').head? = (v ++ e :: B).head? := by cases v <;> rfl
  have hnumber : Number.read? (c :: (v ++ e :: B')) = Number.read? (c :: (v ++ e :: B)) := by
    have hex := forall_barrier (fun e => ∀ f ∈ Number.forms, f.2.excludes e = true) (by decide) e he
    have hmem : e ∈ c :: (v ++ [e]) := by simp
    have hread := Number.read?_append hex hmem B' B
    simpa using hread
  have hpunct : punct? (c :: (v ++ e :: B')) = punct? (c :: (v ++ e :: B)) := by
    have hall := forall_barrier (fun e => ∀ p ∈ Punct.all, e ∉ p.text.toList.tail) (by decide) e he
    refine List.find?_congr fun p hp => ?_
    exact hprefix _ (hall p hp)
  have hmarks := forall_barrier (fun e => e ∉ ['/', '/'].tail ∧ e ∉ "non-sealed".toList.tail
    ∧ e ∉ ['"', '"', '"'].tail) (by decide) e he
  unfold next at h ⊢
  dsimp only at h ⊢
  rw [hspace, hprefix _ hmarks.1, hword, hprefix _ hmarks.2.1, hhead, hnumber,
    hprefix _ hmarks.2.2, hpunct]
  split at h
  next hc =>
    rw [if_pos hc]
    exact h
  next hc =>
    rw [if_neg hc]
    split at h
    next hl =>
      rw [if_pos hl]
      cases h
      have hline : (c :: v ++ e :: B').takeWhile (· != '\n')
          = (c :: v ++ e :: B).takeWhile (· != '\n') := takeWhile_append hn
      rw [← List.cons_append, hline]
      rfl
    next hl =>
      rw [if_neg hl]
      rw [blockComment_append (B := B) he hclose fun k hk => by
        rw [Option.mem_def] at hk
        rw [hk] at h
        cases h
        exact hn]
      split at h
      next hk => exact h
      next hk =>
        have hfalse : ¬ (c == '\'') = true := by simpa using hquote
        rw [if_neg hfalse] at h ⊢
        exact h

/-- A step in a quoted text that ends before a barrier is the same whatever
comes after it, if the quoted text ends before it as well. -/
theorem next_quoted_append {c : Char} {triple : Bool} {i i' : List (Bool × Nat)} {m' : Mode}
    {x : Option Lexeme} {n : Nat} (he : e ∈ barriers)
    (h : next (.quoted triple) i (c :: (v ++ e :: B)) = (x, n, m', i')) (hn : n ≤ v.length + 1)
    (hx : x ≠ some .stray) (hq : m' ≠ .code → '"' ∈ (c :: v).drop n) :
    next (.quoted triple) i (c :: (v ++ e :: B')) = (x, n, m', i') := by
  have hquote : e ≠ '"' := by rintro rfl; exact absurd he (by decide)
  have hback : e ≠ '\\' := by rintro rfl; exact absurd he (by decide)
  have hhead : (v ++ e :: B').head? = (v ++ e :: B).head? := by cases v <;> rfl
  have htake : ((c :: (v ++ e :: B')).take 2).length = ((c :: (v ++ e :: B)).take 2).length := by
    cases v <;> rfl
  have hprefix : ['"', '"', '"'].isPrefixOf (c :: (v ++ e :: B'))
      = ['"', '"', '"'].isPrefixOf (c :: (v ++ e :: B)) :=
    isPrefixOf_cons_append (by simp [hquote]) c
  unfold next at h ⊢
  dsimp only at h ⊢
  rw [List.head?_cons, List.tail_cons] at h ⊢
  rw [hhead, htake, hprefix]
  split at h
  next hc =>
    rw [if_pos hc]
    split at h
    next hopen =>
      rw [if_pos hopen]
      exact h
    next hopen =>
      rw [if_neg hopen]
      split at h
      next ht =>
        rw [if_pos ht]
        exact h
      next ht =>
        rw [if_neg ht]
        split at h
        next k hk =>
          cases h
          have hpos := escape_longest_pos hk
          -- the escape has a character before the barrier
          cases v with
          | nil =>
            rw [List.length_nil] at hn
            omega
          | cons d w =>
            have hmem : '"' ∈ w := by
              obtain ⟨k, rfl⟩ := Nat.exists_eq_succ_of_ne_zero (Nat.pos_iff_ne_zero.1 hpos)
              exact List.mem_of_mem_drop (hq nofun)
            have hsame : escape.longest (d :: w ++ e :: B') = some k := by
              rw [← hk]
              exact escape_longest_append (.inl rfl) hmem _ _
            rw [hsame]
        next =>
          cases h
          exact absurd rfl hx
  next hc =>
    rw [if_neg hc]
    split at h
    next ht =>
      rw [if_pos ht]
      split at h
      next hclose =>
        rw [if_pos hclose]
        exact h
      next hclose =>
        rw [if_neg hclose]
        cases h
        have hsame : textBlockLength 0 (c :: v ++ e :: B') = textBlockLength 0 (c :: v ++ e :: B) :=
          textBlockLength_append hquote hback (by rw [Nat.zero_add]; exact hn)
        rw [← List.cons_append, hsame]
        rfl
    next ht =>
      rw [if_neg ht]
      split at h
      next hclose =>
        rw [if_pos hclose]
        exact h
      next hclose =>
        rw [if_neg hclose]
        cases h
        rw [← List.cons_append, takeWhile_append (v := c :: v) hn]
        rfl

/-- **A step that ends before a barrier is the same whatever comes after
it**, if that closes no comment. -/
theorem next_append {mode m' : Mode} {i i' : List (Bool × Nat)} {x : Option Lexeme} {n : Nat}
    (he : e ∈ barriers) (hv : v ≠ []) (h : next mode i (v ++ e :: B) = (x, n, m', i'))
    (hn : n ≤ v.length) (hx : x ≠ some .stray) (hq : m' ≠ .code → '"' ∈ v.drop n)
    (hclose : ∀ k, blockCommentLength k B = none → blockCommentLength k B' = none) :
    next mode i (v ++ e :: B') = (x, n, m', i') := by
  obtain ⟨c, v, rfl⟩ := List.exists_cons_of_ne_nil hv
  cases mode with
  | code => exact next_code_append he h hn hx hclose
  | quoted triple => exact next_quoted_append he h hn hx hq

/-! ## Where words stand -/

/-- **What is not of ASCII begins a word** or nothing. -/
theorem next_stray {c : Char} (hc : 128 ≤ c.toNat) (hstart : isWordStart c = false)
    (i : List (Bool × Nat)) (cs : List Char) :
    next .code i (c :: cs) = (some .stray, 1, .code, i) := by
  -- what else could stand here begins with a character of ASCII
  have hne : ∀ d : Char, d.toNat < 128 → c ≠ d := by
    rintro d hd rfl
    exact absurd hd (Nat.not_lt.2 hc)
  have hspace : isSpace c = false := by
    have hblank := hne ' ' (by decide)
    simp only [isSpace, Bool.or_eq_false_iff, beq_eq_false_iff_ne, Bool.and_eq_false_iff,
      decide_eq_false_iff_not]
    exact ⟨hblank, .inr (by omega)⟩
  have hdigit : c.isDigit = false := by
    by_contra h
    have hle := (Char.isDigit_iff_toNat.1 (Bool.of_not_eq_false h)).2
    have hnine : '9'.toNat = 57 := rfl
    omega
  have hprefix : ∀ (d : Char) (ds : List Char), d.toNat < 128 →
      (d :: ds).isPrefixOf (c :: cs) = false := by
    intro d ds hd
    rw [List.isPrefixOf, beq_false_of_ne (hne d hd).symm, Bool.false_and]
  have hpunct : punct? (c :: cs) = none := by
    refine List.find?_eq_none.2 fun p hp h => ?_
    have hall : ∀ p ∈ Punct.all, (p.text.toList.head?.any fun d => d.toNat < 128) = true := by
      decide
    obtain ⟨d, hd, hlt⟩ := (Option.any_eq_true _ _).1 (hall p hp)
    obtain ⟨ds, hds⟩ := List.head?_eq_some_iff.1 hd
    rw [hds, hprefix d ds (of_decide_eq_true hlt)] at h
    cases h
  unfold next
  dsimp only
  rw [hspace, hprefix '/' _ (by decide), hprefix '/' _ (by decide)]
  simp only [Bool.false_eq_true, if_false]
  rw [hstart, hdigit, hprefix '"' _ (by decide), hpunct, beq_false_of_ne (hne '.' (by decide)),
    beq_false_of_ne (hne '"' (by decide)), beq_false_of_ne (hne '\'' (by decide))]
  rfl

/-- A byte order mark begins nothing. -/
theorem next_byteOrderMark (i : List (Bool × Nat)) (cs : List Char) :
    next .code i ('\ufeff' :: cs) = (some .stray, 1, .code, i) :=
  next_stray (by decide) (by decide +kernel) i cs

/-- The marks of quoted texts. -/
def quotedMarks : List Lexeme := [.punct .quote, .punct .textQuote, .punct .interpolate]

/-- **Between quotation marks** there are no other marks and no words. -/
theorem lexeme_of_quoted {triple : Bool} {i : List (Bool × Nat)} {cs : List Char} {x : Lexeme}
    {r : Nat × Mode × List (Bool × Nat)} (h : next (.quoted triple) i cs = (some x, r)) :
    x ∈ quotedMarks ∨ x = .stray ∨ ∃ k, x = .piece k := by
  unfold next at h
  dsimp only at h
  repeat' split at h
  all_goals
    cases h
    first | exact .inl (by decide) | exact .inr (.inl rfl) | exact .inr (.inr ⟨_, rfl⟩)

/-! ## How scanning goes on -/

/-- **How scanning goes on** after what was scanned. -/
def advance (mode : Mode) (inside : List (Bool × Nat)) :
    Option Lexeme → Mode × List (Bool × Nat)
  | some (.punct p) =>
    match mode with
    | .code => afterMark p inside
    | .quoted triple => (.code, if p = .interpolate then (triple, 0) :: inside else inside)
  | _ => (mode, inside)

/-- **What is scanned does not depend on the quoted texts** that code stands
in. -/
theorem next_eq_advance (mode : Mode) (cs : List Char) :
    ∃ x n, ∀ i, next mode i cs = (x, n, advance mode i x) := by
  unfold next
  cases mode with
  | quoted triple =>
    dsimp only
    split
    next =>
      split
      next => exact ⟨_, _, fun _ => rfl⟩
      next =>
        split
        next => exact ⟨_, _, fun _ => rfl⟩
        next =>
          split
          next => exact ⟨_, _, fun _ => rfl⟩
          next => exact ⟨_, _, fun _ => rfl⟩
    next =>
      split
      next =>
        split
        next => exact ⟨_, _, fun _ => rfl⟩
        next => exact ⟨_, _, fun _ => rfl⟩
      next =>
        split
        next => exact ⟨_, _, fun _ => rfl⟩
        next => exact ⟨_, _, fun _ => rfl⟩
  | code =>
    dsimp only
    split
    next => exact ⟨_, _, fun _ => rfl⟩
    next c rest =>
      split
      next => exact ⟨_, _, fun _ => rfl⟩
      next =>
        split
        next => exact ⟨_, _, fun _ => rfl⟩
        next =>
          split
          next => exact ⟨_, _, fun _ => rfl⟩
          next =>
            split
            next =>
              split
              next => exact ⟨_, _, fun _ => rfl⟩
              next => exact ⟨_, _, fun _ => rfl⟩
            next =>
              split
              next =>
                split
                next => exact ⟨_, _, fun _ => rfl⟩
                next => exact ⟨_, _, fun _ => rfl⟩
              next =>
                split
                next => exact ⟨_, _, fun _ => rfl⟩
                next =>
                  split
                  next => exact ⟨_, _, fun _ => rfl⟩
                  next =>
                    split
                    next =>
                      split
                      next => exact ⟨_, _, fun _ => rfl⟩
                      next => exact ⟨_, _, fun _ => rfl⟩
                    next =>
                      split
                      next => exact ⟨_, _, fun _ => rfl⟩
                      next p hp => exact ⟨_, _, fun i => next_punct (not_quote_of_punct? hp) i⟩

end Token

end JavaMutants.Syntax
