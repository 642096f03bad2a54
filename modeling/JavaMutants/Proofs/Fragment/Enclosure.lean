import JavaMutants.Proofs.Syntax.Boundary
import JavaMutants.Proofs.Syntax.Passage
import JavaMutants.Proofs.Syntax.Sound

/-!
# The class around a member

A member of a class is parsed in the body of a class that is put around
it. What is put in front is three tokens whatever comes after them
(`code_enclosed`).
-/

namespace JavaMutants.Syntax

open Text Syntax.Tree Grammar Rule

namespace Token

/-! ## Tokens in front -/

/-- What is put in front of a member, up to the brace. -/
def opened : List Char := "class __Fragment \x7b".toList

/-- **Three tokens are put in front of a member.** -/
theorem passes_opened (after : List Char) :
    Passes after .code [] [] opened [⟨.word (some .class_), ⟨0, 5⟩⟩, ⟨.word none, ⟨6, 16⟩⟩,
      ⟨.punct .braceOpen, ⟨17, 18⟩⟩] .code [] := by
  -- a word, a blank, a name, a blank and a brace
  let word : List Char := ['c', 'l', 'a', 's', 's']
  let name : List Char := ['_', '_', 'F', 'r', 'a', 'g', 'm', 'e', 'n', 't']
  let brace : List Char := [Char.ofNat 0x7b]
  have n₁ : next .code [] (word ++ (([' '] ++ (name ++ ([' '] ++ (brace ++ [])))) ++ after))
      = (some (.word (some .class_)), 5, .code, []) := rfl
  have n₂ : next .code [] ([' '] ++ ((name ++ ([' '] ++ (brace ++ []))) ++ after))
      = (none, 1, .code, []) := rfl
  have n₃ : next .code [] (name ++ (([' '] ++ (brace ++ [])) ++ after))
      = (some (.word none), 10, .code, []) := rfl
  have n₄ : next .code [] ([' '] ++ ((brace ++ []) ++ after)) = (none, 1, .code, []) := rfl
  have n₅ : next .code [] (brace ++ ([] ++ after)) = (some (.punct .braceOpen), 1, .code, []) := rfl
  have hall : Passes after .code [] [] (word ++ ([' '] ++ (name ++ ([' '] ++ (brace ++ []))))) _
      .code [] :=
    .token n₁ (List.cons_ne_nil _ _) (.skip n₂ (List.cons_ne_nil _ _)
      (.token n₃ (List.cons_ne_nil _ _) (.skip n₄ (List.cons_ne_nil _ _)
        (.token n₅ (List.cons_ne_nil _ _) .nil))))
  have b₁ : byteLength ([] ++ word) = 5 := by decide
  have b₂ : byteLength ([] ++ word ++ [' ']) = 6 := by decide
  have b₃ : byteLength ([] ++ word ++ [' '] ++ name) = 16 := by decide
  have b₄ : byteLength ([] ++ word ++ [' '] ++ name ++ [' ']) = 17 := by decide
  have b₅ : byteLength ([] ++ word ++ [' '] ++ name ++ [' '] ++ brace) = 18 := by decide
  rw [byteLength_nil, b₁, b₂, b₃, b₄, b₅] at hall
  have hopened : opened = word ++ ([' '] ++ (name ++ ([' '] ++ (brace ++ [])))) := by decide
  rw [hopened]
  exact hall

theorem toList_before : Fragment.before.toList = opened ++ ['\n'] := by decide

/-- **Whatever comes after what is put in front of a member begins after
it.** -/
theorem scans_enclosed {cs : List Char} {ts : List Token}
    (h : Scans .code [] [] (Fragment.before.toList ++ cs) ts) :
    ∃ us, ts = ⟨.word (some .class_), ⟨0, 5⟩⟩ :: ⟨.word none, ⟨6, 16⟩⟩
        :: ⟨.punct .braceOpen, ⟨17, 18⟩⟩ :: us
      ∧ ∀ t ∈ us, 19 ≤ t.span.start := by
  rw [toList_before, List.append_assoc] at h
  obtain ⟨us, rfl, hus⟩ := (passes_opened ('\n' :: cs)).of_scans h
  have hskip : next .code [] ('\n' :: cs)
      = (none, (('\n' :: cs).takeWhile isSpace).length, .code, []) := rfl
  obtain ⟨htake, hrest⟩ := hus.of_skip nofun hskip
  refine ⟨us, rfl, fun t ht => ?_⟩
  have hle := hrest.le_start ht
  have hopened : byteLength ([] ++ opened) = 18 := by decide
  have hpos := byteLength_pos htake
  rw [byteLength_append, hopened] at hle
  omega

end Token

/-! ## The end of an enclosed text -/

/-- What is put after a member, as characters. -/
def closing : List Char := ['\n', Char.ofNat 0x7d, '\n']

/-- Characters that reach beyond some others of the same text. -/
theorem exists_beyond {a d Q E : List Char} (h : a ++ d = Q ++ E)
    (hlt : byteLength Q < byteLength a) : ∃ e, e ≠ [] ∧ a = Q ++ e ∧ E = e ++ d := by
  rcases List.append_eq_append_iff.1 h with ⟨b, rfl, -⟩ | ⟨e, rfl, rfl⟩
  · rw [byteLength_append] at hlt
    omega
  · refine ⟨e, ?_, rfl, rfl⟩
    rintro rfl
    rw [List.append_nil] at hlt
    exact Nat.lt_irrefl _ hlt

/-- No mark goes over the end of a line. -/
theorem Punct.newline_notMem_text (p : Punct) : '\n' ∉ p.text.toList := by
  cases p <;> decide

theorem getLast?_mem_of_append {a b : List Char} {c : Char} (hb : b ≠ [])
    (h : (a ++ b).getLast? = some c) : c ∈ b := by
  rw [List.getLast?_append_of_ne_nil _ hb] at h
  exact List.mem_of_getLast? h

section Closing

variable {text : String} {tree : Tree} {Q : List Char}

/-- **After the closing brace there is no mark.** -/
theorem stop_le_of_punct (htext : text.toList = Q ++ closing) {u : Token}
    (hu : u ∈ Token.code text.toList) {p : Punct} (hp : u.lexeme = .punct p) :
    u.span.stop ≤ byteLength Q + 2 := by
  obtain ⟨a, b, c, habc, hb, hs⟩ := (Token.lies_code text.toList).exists_spelling hu
  rw [hp] at hb
  obtain rfl : b = p.text.toList := hb
  by_contra hlt
  rw [hs] at hlt
  simp only [List.nil_append] at hlt
  have hall : a ++ p.text.toList ++ c = (Q ++ ['\n', Char.ofNat 0x7d]) ++ ['\n'] := by
    rw [List.append_assoc, ← habc, htext, List.append_assoc]
    rfl
  have hsize : byteLength (Q ++ ['\n', Char.ofNat 0x7d]) = byteLength Q + 2 := by
    rw [byteLength_append]
    rfl
  obtain ⟨e, he, hae, hec⟩ := exists_beyond hall (by rw [hsize]; omega)
  have hlast : (a ++ p.text.toList).getLast? = some '\n' := by
    cases e with
    | nil => exact absurd rfl he
    | cons d e =>
      obtain ⟨rfl, hnil⟩ := List.cons.inj hec
      obtain ⟨rfl, -⟩ := List.append_eq_nil_iff.1 hnil.symm
      rw [hae, List.getLast?_append]
      rfl
  have hne : p.text.toList ≠ [] := by cases p <;> decide
  exact p.newline_notMem_text (getLast?_mem_of_append hne hlast)

/-- Semicolons and braces stand for marks. -/
theorem exists_punct_of_isStop {x : Lexeme} {l : Label} (hx : x.standsAs l = true)
    (hl : isStop l = true) : ∃ p, x = .punct p := by
  rcases Bool.or_eq_true_iff.1 hl with hl | hl
  · rw [beq_iff_eq.1 hl] at hx
    cases x <;> first | exact ⟨_, rfl⟩ | cases hx
  · rw [beq_iff_eq.1 hl] at hx
    cases x <;> first | exact ⟨_, rfl⟩ | cases hx

/-- **Only a mark goes over the closing brace**, since a program ends in
one. -/
theorem IsParse.stop_le_of_plain (h : IsParse text tree) (htext : text.toList = Q ++ closing)
    {t : Token} (ht : t ∈ Token.code text.toList) (hx : t.lexeme.isPlain = true) :
    t.span.stop ≤ byteLength Q + 1 := by
  by_contra hlt
  obtain ⟨label, hl, hmem⟩ : ∃ label, t.lexeme.standsAs label = true
      ∧ (leafLabel label t.span, t.span) ∈ leavesAll (bareAll tree.children) :=
    (h.takes.exists_leaf ht (Lexeme.isWhole_of_isPlain hx)).resolve_left List.not_mem_nil
  have hlabel : leafLabel label t.span = label := leafLabel_eq (lt_of_leafLabel (h.whole _ hmem))
  obtain ⟨mid, after, -, -, hord, -⟩ := h.takes.lies (Token.lies_code text.toList) h.whole
  obtain ⟨before, others, hsplit⟩ := List.append_of_mem hmem
  have hends := endsIn_program h.derives
  unfold EndsIn at hends
  rw [hsplit, List.map_append, ordered_append_iff] at hord
  obtain ⟨_, -, -, -, hord⟩ := hord
  cases hlast : others.getLast? with
  | none =>
    -- the token is the last one, and not a mark
    obtain rfl := List.getLast?_eq_none_iff.1 hlast
    have hy := hends (leafLabel label t.span, t.span) (by rw [hsplit, List.getLast?_append]; rfl)
    rw [h.whole _ hmem] at hy
    have hstop : isStop (leafLabel label t.span) = true := hy.resolve_right nofun
    rw [hlabel] at hstop
    obtain ⟨p, hp⟩ := exists_punct_of_isStop hl hstop
    rw [hp] at hx
    cases hx
  | some y =>
    -- the last one is a mark that comes later
    have hyo : y ∈ others := List.mem_of_getLast? hlast
    have hyall : y ∈ leavesAll (bareAll tree.children) := by
      rw [hsplit]
      exact List.mem_append_right _ (List.mem_cons_of_mem _ hyo)
    obtain ⟨hstart, hstop, -⟩ := hord.mem (List.mem_map.2 ⟨y, hyo, rfl⟩)
    have hy := (hends y (by rw [hsplit, List.getLast?_append, List.getLast?_cons, hlast]; rfl))
    rw [h.whole y hyall] at hy
    obtain ⟨u, hu, -, hus, hcase⟩ := h.takes.exists_token hyall
    obtain ⟨p, hp⟩ : ∃ p, u.lexeme = .punct p := by
      rcases hcase with ⟨l, hl, rfl⟩ | ⟨p, -, hp, -⟩
      · have hll : leafLabel l u.span = l := leafLabel_eq (lt_of_leafLabel (h.whole _ hyall))
        have hstop : isStop (leafLabel l u.span) = true := hy.resolve_right nofun
        exact exists_punct_of_isStop hl (hll ▸ hstop)
      · exact ⟨p, hp⟩
    have hle := stop_le_of_punct htext hu hp
    have hstart : t.span.stop ≤ y.2.start := hstart
    omega

/-- Characters that reach into the closing ones. -/
theorem closing_cases {a d : List Char} (h : a ++ d = Q ++ closing)
    (hlt : byteLength Q < byteLength a) :
    (a = Q ++ ['\n'] ∧ d = [Char.ofNat 0x7d, '\n'])
      ∨ (a = Q ++ ['\n', Char.ofNat 0x7d] ∧ d = ['\n']) ∨ (a = Q ++ closing ∧ d = []) := by
  obtain ⟨e, he, rfl, hed⟩ := exists_beyond h hlt
  unfold closing at hed
  match e with
  | [] => exact absurd rfl he
  | [x] =>
    cases hed
    exact .inl ⟨rfl, rfl⟩
  | [x, y] =>
    cases hed
    exact .inr (.inl ⟨rfl, rfl⟩)
  | [x, y, z] =>
    cases hed
    exact .inr (.inr ⟨rfl, rfl⟩)
  | x :: y :: z :: w :: e => cases hed

/-- What ends in the closing brace and has no end of a line is that
brace. -/
theorem eq_brace_of_append {a b : List Char} (hb : b ≠ []) (hline : '\n' ∉ b)
    (h : a ++ b = Q ++ ['\n', Char.ofNat 0x7d]) : a = Q ++ ['\n'] ∧ b = [Char.ofNat 0x7d] := by
  obtain ⟨b', d, rfl⟩ : ∃ b' d, b = b' ++ [d] := ⟨_, _, (List.dropLast_append_getLast hb).symm⟩
  have hsplit : (a ++ b') ++ [d] = (Q ++ ['\n']) ++ [Char.ofNat 0x7d] := by
    rw [List.append_assoc, h, List.append_assoc]
    rfl
  obtain ⟨ha, hd⟩ := List.append_inj' hsplit rfl
  obtain rfl : b' = [] := by
    by_contra hne
    have hlast : (a ++ b').getLast? = some '\n' := by
      rw [ha, List.getLast?_append]
      rfl
    exact hline (List.mem_append_left _ (getLast?_mem_of_append hne hlast))
  rw [List.append_nil] at ha
  exact ⟨ha, hd⟩

/-- A comment does not reach beyond the member: it does not begin with the
brace, and ends in none of the characters. -/
theorem isComment_of_beyond {m m' : Token.Mode} {i i' : List (Bool × Nat)} {c : List Char}
    {x : Lexeme} {n : Nat} (hstep : Token.Step m i c (some x, n, m', i')) (hne : c.take n ≠ [])
    {a d : List Char} (h : (a ++ c.take n) ++ d = Q ++ closing)
    (hlt : byteLength Q < byteLength (a ++ c.take n)) : x.isComment = false := by
  by_contra hc
  obtain ⟨hhead, hends⟩ := hstep.ends_of_comment (by simpa using hc)
  have hlast : ∀ e, (a ++ c.take n).getLast? = some e → (c.take n).getLast? = some e := by
    intro e he
    rwa [List.getLast?_append_of_ne_nil _ hne] at he
  rcases closing_cases h hlt with ⟨ha, -⟩ | ⟨ha, -⟩ | ⟨ha, -⟩
  · have hl := hlast '\n' (by rw [ha, List.getLast?_append]; rfl)
    rcases hends with hends | hends
    · exact hends (List.mem_of_getLast? hl)
    · cases hl.symm.trans hends
  · have hl := hlast (Char.ofNat 0x7d) (by rw [ha, List.getLast?_append]; rfl)
    rcases hends with hends | hends
    · obtain ⟨-, hb⟩ := eq_brace_of_append hne hends ha
      rw [hb] at hhead
      cases hhead
    · cases hl.symm.trans hends
  · have hl := hlast '\n' (by rw [ha, List.getLast?_append]; rfl)
    rcases hends with hends | hends
    · exact hends (List.mem_of_getLast? hl)
    · cases hl.symm.trans hends

/-- A mark that reaches beyond the member is the brace. -/
theorem punct_of_beyond {p : Punct} {a d : List Char}
    (h : (a ++ p.text.toList) ++ d = Q ++ closing)
    (hlt : byteLength Q < byteLength (a ++ p.text.toList)) :
    p = .braceClose ∧ a = Q ++ ['\n'] := by
  have hne : p.text.toList ≠ [] := by cases p <;> decide
  have hlast : ∀ e, (a ++ p.text.toList).getLast? = some e → e ∈ p.text.toList :=
    fun e he => getLast?_mem_of_append hne he
  rcases closing_cases h hlt with ⟨ha, -⟩ | ⟨ha, -⟩ | ⟨ha, -⟩
  · exact absurd (hlast '\n' (by rw [ha, List.getLast?_append]; rfl)) p.newline_notMem_text
  · obtain ⟨ha', hp⟩ := eq_brace_of_append hne p.newline_notMem_text ha
    exact ⟨by cases p <;> first | rfl | exact absurd hp (by decide), ha'⟩
  · exact absurd (hlast '\n' (by rw [ha, List.getLast?_append]; rfl)) p.newline_notMem_text

/-- In a quoted text, the closing brace is text as well. -/
theorem next_quoted_closing (triple : Bool) (i : List (Bool × Nat)) :
    ∃ k, k ≠ .lineComment ∧ k ≠ .blockComment
      ∧ Token.next (.quoted triple) i [Char.ofNat 0x7d, '\n']
        = (some (.piece k), 2, .quoted triple, i) := by
  cases triple with
  | true => exact ⟨.multilineStringFragment, nofun, nofun, rfl⟩
  | false => exact ⟨.stringFragment, nofun, nofun, rfl⟩

/-- **No token of an enclosed text reaches beyond the member**, but the
brace after it. -/
theorem IsParse.stop_of_mem_scan (h : IsParse text tree) (htext : text.toList = Q ++ closing)
    (hmark : text.toList.head? ≠ some '\ufeff') {t : Token} (ht : t ∈ Token.scan text.toList)
    (hfin : t.lexeme ≠ .finish) :
    t.span.stop ≤ byteLength Q
      ∨ t = ⟨.punct .braceClose, ⟨byteLength Q + 1, byteLength Q + 2⟩⟩ := by
  obtain ⟨x, s⟩ := t
  obtain ⟨a, c, n, m, m', i, i', us, hac, hstep, hne, hs, hus, hsub⟩ :=
    (h.scans hmark).exists_step ht hfin
  rw [List.nil_append] at hs hus
  obtain rfl : s = _ := hs
  by_cases hle : byteLength (a ++ c.take n) ≤ byteLength Q
  · exact .inl hle
  have hlt := Nat.not_le.1 hle
  have hall : (a ++ c.take n) ++ c.drop n = Q ++ closing := by
    rw [List.append_assoc, List.take_append_drop, ← hac, htext]
  have hone : byteLength (Q ++ ['\n']) = byteLength Q + 1 := byteLength_append _ _
  have hcomment := isComment_of_beyond hstep hne hall hlt
  cases hx : x.isPlain with
  | false =>
    -- a mark
    obtain ⟨p, rfl⟩ : ∃ p, x = .punct p := by
      cases x <;> first | exact ⟨_, rfl⟩ | exact (hfin rfl).elim | cases hx
    have hspell : c.take n = p.text.toList := hstep.spelledBy
    rw [hspell] at hall hlt ⊢
    obtain ⟨rfl, rfl⟩ := punct_of_beyond hall hlt
    refine .inr ?_
    rw [byteLength_append (Q ++ ['\n']), hone]
    rfl
  | true =>
    exfalso
    have hcode : ∀ {y s}, Token.mk y s ∈ Token.scan text.toList → y.isComment = false →
        Token.mk y s ∈ Token.code text.toList := fun hy hyc =>
      List.mem_filter.2 ⟨hy, by simpa [Token.isComment, Lexeme.isComment] using hyc⟩
    have hstop := h.stop_le_of_plain htext (hcode ht hcomment) hx
    obtain ⟨rfl, -, hline⟩ := hstep.of_plain hx hcomment
    rcases closing_cases hall hlt with ⟨ha, hd⟩ | ⟨ha, -⟩ | ⟨ha, -⟩
    · -- it ends in the end of the line, so a quoted text goes on
      cases m' with
      | code =>
        have hlast : (c.take n).getLast? = some '\n' := by
          rw [← List.getLast?_append_of_ne_nil a hne, ha, List.getLast?_append]
          rfl
        exact hline rfl _ hlast rfl
      | quoted triple =>
        obtain ⟨k, hk₁, hk₂, hnext⟩ := next_quoted_closing triple i'
        rw [hd] at hus
        obtain ⟨vs, rfl, -⟩ := hus.of_token (by simp) hnext
        have hmem := hcode (hsub List.mem_cons_self) (by simp [Lexeme.isComment, hk₁, hk₂])
        have hstop' := h.stop_le_of_plain htext hmem rfl
        have hbig : byteLength (a ++ c.take n ++ [Char.ofNat 0x7d, '\n'].take 2)
            = byteLength Q + 3 := by
          rw [ha, byteLength_append, hone]
          rfl
        simp only [hbig] at hstop'
        omega
    · have htwo : byteLength (Q ++ ['\n', Char.ofNat 0x7d]) = byteLength Q + 2 :=
        byteLength_append _ _
      simp only [ha, htwo] at hstop
      omega
    · have hthree : byteLength (Q ++ closing) = byteLength Q + 3 := byteLength_append _ _
      simp only [ha, hthree] at hstop
      omega

end Closing

end JavaMutants.Syntax
