import JavaMutants.Proofs.Fragment.Body

/-!
# Calls of other constructors

The body of a constructor can begin with a call of another one, and the
emptied body keeps that call between two blanks. No body begins with that and
goes on (`Braced.inner_eq_of_call`). In such a body the call would stand after
one blank, too, since what stands before a call is blank or a comment and no call
begins as a comment does. So it would end in the same semicolon, and the brace
that comes after it would end the body.
-/

namespace JavaMutants

open Syntax Text Tree Grammar Rule

/-! ## Code after a blank -/

namespace Syntax.Token

variable {m m' : Mode} {i i' : List (Bool × Nat)} {mark after cs v : List Char}
  {ts us : List Token} {t : Token}

/-- A slash in code begins a comment or one of two marks. -/
theorem lexeme_of_next_slash {x : Lexeme} {n : Nat}
    (h : next .code i ('/' :: cs) = (some x, n, m', i')) :
    x.isComment = true ∨ x = .stray ∨ x = .punct .slash ∨ x = .punct .divAssign := by
  have hmarks : ∀ p : Punct, p.text.toList.head? = some '/' → p = .slash ∨ p = .divAssign := by
    intro p hp
    cases p <;> first | exact .inl rfl | exact .inr rfl | cases hp
  rcases lexeme_of_isMarkStart (by decide) h with hx | hx | ⟨p, rfl, hp⟩
  · exact .inl hx
  · exact .inr (.inl hx)
  · have hhead := head?_of_mark hp
    rcases hmarks p hhead with rfl | rfl
    · exact .inr (.inr (.inl rfl))
    · exact .inr (.inr (.inr rfl))

/-- Where there are only comments, scanning goes on in the same state. -/
theorem Passes.eq_of_comments (h : Passes after m i mark v ts m' i')
    (hts : ∀ t ∈ ts, t.isComment = true) : m' = m ∧ i' = i := by
  induction h with
  | nil => exact ⟨rfl, rfl⟩
  | skip hs _ _ ih =>
    obtain ⟨rfl, rfl⟩ := ih hts
    exact eq_of_next_none hs
  | @token m i mark w v x m₁ i₁ ts m' i' hs _ _ ih =>
    obtain ⟨hx, hts⟩ := List.forall_mem_cons.1 hts
    obtain ⟨rfl, rfl⟩ := ih hts
    obtain ⟨y, k, hall⟩ := next_eq_advance m (w ++ (v ++ after))
    obtain ⟨rfl, hk⟩ := Prod.mk.inj ((hall i).symm.trans hs)
    have hadvance := (Prod.mk.inj hk).2
    rcases Bool.or_eq_true_iff.1 hx with hx | hx <;> obtain rfl := beq_iff_eq.1 hx <;>
      cases hadvance <;> exact ⟨rfl, rfl⟩

/-- Where there are only comments, the first character that is not blank is a slash. -/
theorem Passes.head_of_comments (h : Passes after m i mark v ts m' i')
    (hts : ∀ t ∈ ts, t.isComment = true) : ∀ c ∈ (v.dropWhile isSpace).head?, c = '/' := by
  induction h with
  | nil => exact fun c hc => absurd hc (by simp)
  | @skip m i mark w v m₁ i₁ ts m' i' hs hw _ ih =>
    have hstep := step_next m i (List.append_ne_nil_of_left_ne_nil hw (v ++ after))
    rw [hs] at hstep
    generalize hr : ((none : Option Lexeme), w.length, m₁, i₁) = r at hstep
    generalize hcs : w ++ (v ++ after) = cs at hstep
    cases hstep with
    | space =>
      have hlength : w.length = _ := (Prod.mk.inj (Prod.mk.inj hr).2).1
      have hblank : ∀ c ∈ w, isSpace c = true := fun c hc => by
        have htake := congrArg (List.take w.length) hcs
        rw [List.take_left, hlength, take_length_takeWhile] at htake
        rw [htake] at hc
        exact List.all_eq_true.1 List.all_takeWhile c hc
      rw [List.dropWhile_append_of_pos hblank]
      exact ih hts
    | _ => cases hr
  | @token m i mark w v x m₁ i₁ ts m' i' hs hw _ _ =>
    have hstep := step_next m i (List.append_ne_nil_of_left_ne_nil hw (v ++ after))
    rw [hs] at hstep
    obtain ⟨-, rest, hrest⟩ := hstep.of_comment (List.forall_mem_cons.1 hts).1
    obtain ⟨c, w, rfl⟩ := List.exists_cons_of_ne_nil hw
    obtain rfl : c = '/' := (List.cons.inj hrest).1
    intro d hd
    exact (Option.some.inj hd).symm

/-- **After one blank in code comes the next token**, if what comes there is
neither blank nor a slash. -/
theorem Scans.exists_next_of_blank {c : Char} (h : Scans .code i mark (' ' :: c :: cs) ts)
    (hspace : isSpace c = false) (hslash : c ≠ '/')
    (hts : ts.filter (fun t => !t.isComment) = t :: us) :
    t.span.start = byteLength (mark ++ [' '])
      ∧ ∃ n m' i', next .code i (c :: cs) = (some t.lexeme, n, m', i') := by
  have hblank : isSpace ' ' = true := by decide
  have hskip := next_space hblank i (c :: cs)
  rw [List.takeWhile_cons_of_pos hblank, List.takeWhile_cons_of_neg (by simp [hspace])] at hskip
  obtain ⟨-, hrest⟩ := h.of_skip nofun hskip
  have hstep := step_code i c cs
  obtain ⟨⟨x, n, m', i'⟩, hnext⟩ : ∃ r, next .code i (c :: cs) = r := ⟨_, rfl⟩
  rw [hnext] at hstep
  cases x with
  | none =>
    generalize hr : ((none : Option Lexeme), n, m', i') = r at hstep
    cases hstep with
    | space hc => rw [hspace] at hc; cases hc
    | _ => cases hr
  | some x =>
    obtain ⟨vs, rfl, -⟩ := hrest.of_token nofun hnext
    have hcomment : x.isComment = false := by
      by_contra hx
      obtain ⟨-, rest, heq⟩ := hstep.of_comment (by simpa using hx)
      exact hslash (List.cons.inj heq).1
    have hkeep : ∀ s, (!(Token.mk x s).isComment) = true := fun _ => by
      show (!x.isComment) = true
      rw [hcomment]
      rfl
    rw [List.filter_cons, if_pos (hkeep _)] at hts
    obtain ⟨rfl, -⟩ := List.cons.inj hts
    exact ⟨rfl, n, m', i', hnext⟩

end Syntax.Token

/-! ## What a call is read from -/

/-- The parts that a call can begin with. -/
def callParts : List Part := [
  .node .explicitConstructorInvocation, .typeArguments, .node .typeArguments, .primary, .atom,
  .plainType .alone, .simpleType .alone, .string, .parenthesized, .node .parenthesizedExpression,
  .creation ]

/-- What no call begins with: the end, a stray character, a mark that could be
taken apart, and a slash. -/
def notInCall : List Lexeme :=
  .finish :: .stray :: [Punct.gt, .ge, .shr, .shrAssign, .ushr, .ushrAssign, .slash, .divAssign].map .punct

theorem isBlocked_callParts : ∀ x ∈ notInCall, isBlocked x callParts = true := by decide

theorem refuses_call :
    ∀ x ∈ notInCall, refuses x callParts (body .explicitConstructorInvocation) = true := by
  decide

theorem isWhole_of_notMem {x : Lexeme} (h : x ∉ notInCall) : x.isWhole = true := by
  cases x with
  | punct p => cases p <;> first | rfl | exact absurd (by decide) h
  | finish => exact absurd (by decide) h
  | _ => rfl

/-- The only part that is a call. -/
def showsCall (p : Part) : Bool := p == .node .explicitConstructorInvocation

theorem showsCall_of_shows (p : Part)
    (h : (rules p).shows (.named .explicitConstructorInvocation) showsCall = true) :
    showsCall p = true := by
  have h' := forall_part_of_all
    (fun p => !(rules p).shows (.named .explicitConstructorInvocation) showsCall || showsCall p)
    (by decide +kernel) (fun l n => by rw [rules_binary_high]; rfl) p
  simpa [h] using h'

/-- **A call in braces is what comes first.** -/
theorem exists_derives_call {k : Kind} (hk : k ∈ bodyKinds) {ts rest : List Token}
    {nodes : List Tree} (h : Derives rules (inBraces k) none ts nodes rest) {n : Tree}
    (hn : n ∈ nodes) (hl : n.label = .named .explicitConstructorInvocation) :
    ∃ mid, Derives rules (body .explicitConstructorInvocation) none ts n.children mid := by
  have hshows : ∀ {rule : Rules} {ts rest : List Token} {nodes : List Tree},
      rule.shows (.named .explicitConstructorInvocation) showsCall = false →
      Derives rules rule none ts nodes rest → n ∉ nodes := by
    intro rule ts rest nodes hrule h hn
    rcases h.shows rfl showsCall_of_shows hn hl with ⟨m, hm, -⟩ | hs
    · exact absurd hm List.not_mem_nil
    · rw [hrule] at hs
      cases hs
  have hother : ∀ k ∈ bodyKinds, k = .constructorBody
      ∨ (inBraces k).shows (.named .explicitConstructorInvocation) showsCall = false := by decide
  rcases hother k hk with rfl | hother
  · obtain ⟨ns, mid, ms, rfl, hcall, hstatements⟩ := h.of_both
    rcases List.mem_append.1 hn with hn | hn
    · rcases hcall.of_either with hcall | hcall
      · obtain ⟨cs, rfl, hcs⟩ := hcall.of_part.of_tree
        obtain rfl := List.mem_singleton.1 hn
        exact ⟨mid, hcs⟩
      · obtain ⟨rfl, -⟩ := hcall.of_nothing
        exact absurd hn List.not_mem_nil
    · exact absurd hn (hshows rfl hstatements)
  · exact absurd hn (hshows hother h)

/-! ## A call in its body -/

namespace Braced

variable {text : String} {tree c b call : Tree} (x : Braced text b)

/-- A call stands between the braces. -/
theorem bare_mem_nodes (hcall : call ∈ b.children)
    (hl : call.label = .named .explicitConstructorInvocation) : call.bare ∈ x.nodes := by
  have hmem : call.bare ∈ bareAll b.children :=
    mem_bareAll_iff.2 ⟨call, hcall, by simp [isComment, isA, hl], rfl⟩
  have hlabel : call.bare.label = .named .explicitConstructorInvocation := by rw [label_bare, hl]
  have hleaf : ∀ {p : Punct} {s : Span}, call.bare ≠ tokenLeaf (.punct p) s := by
    intro p s heq
    rw [heq] at hlabel
    cases label_tokenLeaf hlabel rfl
  rw [x.children, List.mem_cons, List.mem_append, List.mem_singleton] at hmem
  exact (hmem.resolve_left hleaf).resolve_right hleaf

/-- **A call in its body**: it begins with the first token after the brace and
ends in a semicolon, and all that was opened in it was closed. -/
theorem exists_tokens_of_call (h : IsParse text tree) (hc : c ∈ tree.children)
    (hb : b ∈ c.preorder) (hcall : call ∈ b.children)
    (hl : call.label = .named .explicitConstructorInvocation) : ∃ t us before s mid,
      x.tokens.filter (fun t => !t.isComment) = t :: us
      ∧ t :: us = before ++ ⟨.punct .semicolon, s⟩ :: mid ∧ t.lexeme ∉ notInCall
      ∧ t.span.start = call.start ∧ s.stop = call.stop
      ∧ beyond false .outer (t :: us) = beyond false .outer mid := by
  have hmem := x.bare_mem_nodes hcall hl
  obtain ⟨mid, hderives⟩ := exists_derives_call x.mem x.derives hmem (by rw [label_bare, hl])
  have htrack : (body .explicitConstructorInvocation).track? false isBalanced .outer
      = some .outer := by decide
  have hbalanced := hderives.beyond track?_of_isBalanced htrack
  -- the last token is a semicolon
  obtain ⟨_, _, _, -, hfirst, hothers⟩ := hderives.of_both
  obtain ⟨_, _, _, -, hargs, hlast⟩ := hothers.of_both
  obtain ⟨s, rfl, -⟩ := hlast.of_mark
  obtain ⟨before, hown⟩ :=
    (hfirst.follows.trans hargs.follows).exists_append_of_brace (.inr (.inr rfl))
  obtain ⟨t, us, htokens⟩ : ∃ t us, x.tokens.filter (fun t => !t.isComment) = t :: us :=
    List.exists_cons_of_ne_nil (by rw [hown]; simp)
  -- the first one is none of those that no call begins with
  rw [htokens] at hderives hbalanced hown
  have ht : t.lexeme ∉ notInCall := fun hx =>
    not_derives_of_refuses (isBlocked_callParts _ hx) (refuses_call _ hx) rfl hderives
  obtain ⟨first, hcode⟩ := x.code
  rw [htokens, hown] at hcode
  have hfin : ∀ v ∈ before ++ [⟨.punct .semicolon, s⟩], v.lexeme ≠ .finish := by
    have hterminated := Token.terminated_code text.toList
    rw [hcode, ← List.append_assoc] at hterminated
    have hbefore := (hterminated.of_append (List.cons_ne_nil _ _)).1
    intro v hv
    rcases List.mem_append.1 hv with hv | hv
    · exact hbefore v (List.mem_append_right _ hv)
    · rw [List.mem_singleton.1 hv]
      nofun
  rw [hown, List.append_cons] at hderives
  rw [List.append_cons] at hcode
  obtain ⟨vs, hvs⟩ : ∃ vs, before ++ [⟨.punct .semicolon, s⟩] = t :: vs := by
    cases before with
    | nil => exact ⟨[], congrArg (· :: []) (List.cons.inj hown).1.symm⟩
    | cons u before => exact ⟨_, congrArg (· :: _) (List.cons.inj hown).1.symm⟩
  obtain ⟨d, hd, hnd⟩ := h.bare_mem hc (mem_preorder_trans
    (mem_preorder_of_child hcall (mem_preorder_self _)) hb) (by simp [isComment, isA, hl])
  obtain ⟨hstart, hstop⟩ := h.bounds_of_derives hd hnd (k := .explicitConstructorInvocation)
    rfl hcode hderives hvs rfl hfin
  rw [Tree.start, span_bare] at hstart
  rw [Tree.stop, span_bare] at hstop
  exact ⟨t, us, before, s, mid, htokens, hown, ht, hstart.symm, hstop.symm, hbalanced⟩

/-- **The text of a call** stands where scanning goes on in code, after blanks and
comments, and begins with neither a blank nor a slash. -/
theorem exists_text_of_call (h : IsParse text tree) (hc : c ∈ tree.children)
    (hb : b ∈ c.preorder) (hcall : call ∈ b.children)
    (hl : call.label = .named .explicitConstructorInvocation) {s : String}
    (hs : Text.slice? text call.start call.stop = some s) : ∃ v ch cs d,
      s.toList = ch :: cs ∧ x.inner ++ '\x7d' :: x.behind = v ++ (s.toList ++ d)
      ∧ byteLength (x.front ++ '\x7b' :: v) = call.start
      ∧ Token.isSpace ch = false ∧ ch ≠ '/' ∧ ∀ c ∈ (v.dropWhile Token.isSpace).head?, c = '/' := by
  obtain ⟨t, us, before, -, mid, htokens, hown, ht, hstart, -, -⟩ :=
    x.exists_tokens_of_call h hc hb hcall hl
  have hwhole := isWhole_of_notMem ht
  have hfin : t.lexeme ≠ .finish := fun hx => by rw [hx] at hwhole; cases hwhole
  -- what stands before its first token is blank or a comment
  obtain ⟨as, vs, hts, has, -⟩ := Token.exists_of_filter_eq (htokens.trans (List.nil_append _).symm)
  have hscans := x.scans
  rw [hts] at hscans
  obtain ⟨v, d, m, i, hsplit, hpasses, hscans, hfirst⟩ := hscans.exists_passes hfin
  have hcomments : ∀ u ∈ as, u.isComment = true := fun u hu => by
    simpa using List.filter_eq_nil_iff.1 has u hu
  obtain ⟨rfl, rfl⟩ := hpasses.eq_of_comments hcomments
  obtain ⟨n, m', i', hnext, hne, -, -⟩ := hscans.next_of_start hfin hfirst
  obtain ⟨ch, d, rfl⟩ := List.exists_cons_of_ne_nil hne
  have hspace : Token.isSpace ch = false := by
    by_contra hspace
    cases (Token.next_space (by simpa using hspace) _ d).symm.trans hnext
  have hslash : ch ≠ '/' := by
    rintro rfl
    have hcode : t.isComment = false := by
      have hmem : t ∈ x.tokens.filter fun t => !t.isComment := htokens ▸ List.mem_cons_self
      simpa using (List.mem_filter.1 hmem).2
    rcases Token.lexeme_of_next_slash hnext with hx | hx | hx | hx
    · cases hx.symm.trans hcode
    all_goals exact ht (by rw [hx]; decide)
  -- the text of the call begins there
  obtain ⟨a, z, htext, ha, hz⟩ := slice?_eq_some_iff.1 hs
  have hplace : byteLength (x.front ++ '\x7b' :: v) = call.start := by
    rw [← hstart, hfirst]
    simp
  have hlist : a.toList ++ (s.toList ++ z.toList) = x.front ++ '\x7b' :: v ++ (ch :: d) := by
    rw [← String.toList_append, ← String.toList_append, ← String.append_assoc, ← htext, x.text_eq,
      hsplit]
    simp
  obtain ⟨-, hrest⟩ := append_inj_of_byteLength hlist (ha.trans hplace.symm)
  have hlt := (h.cuts hc (mem_preorder_trans (mem_preorder_of_child hcall (mem_preorder_self _))
    hb)).1
  obtain ⟨ch', cs, hcs⟩ : ∃ ch' cs, s.toList = ch' :: cs := by
    refine List.exists_cons_of_ne_nil fun hnil => ?_
    rw [size, hnil, byteLength_nil] at hz
    omega
  have hhead := hrest
  rw [hcs] at hhead
  obtain rfl := (List.cons.inj hhead).1
  exact ⟨v, ch', cs, z.toList, hcs, by rw [hsplit, hrest], hplace, hspace, hslash,
    hpasses.head_of_comments hcomments⟩

include x in
/-- **A call ends with its semicolon.** -/
theorem getLast?_of_call (h : IsParse text tree) (hc : c ∈ tree.children)
    (hb : b ∈ c.preorder) (hcall : call ∈ b.children)
    (hl : call.label = .named .explicitConstructorInvocation) {s : String}
    (hs : Text.slice? text call.start call.stop = some s) : s.toList.getLast? = some ';' := by
  obtain ⟨v, ch, cs, d, hcs, hsplit, hplace, -⟩ := x.exists_text_of_call h hc hb hcall hl hs
  obtain ⟨t, us, before, semi, mid, htokens, hown, -, -, hstop, -⟩ :=
    x.exists_tokens_of_call h hc hb hcall hl
  obtain ⟨as, vs, hts, -, -⟩ := Token.exists_of_filter_eq (htokens.trans hown)
  have hscans := x.scans
  rw [hts] at hscans
  obtain ⟨w, e, i, hw, rfl, -⟩ := hscans.exists_after (.inr rfl)
  obtain ⟨-, -, -, -, hz⟩ := slice?_eq_some_iff.1 hs
  obtain ⟨hend, -⟩ := append_inj_of_byteLength
    (show v ++ s.toList ++ d = w ++ Punct.semicolon.text.toList ++ e by
      rw [List.append_assoc, ← hsplit, hw, List.append_assoc]) (by
    have hstop' : byteLength (x.front ++ ['\x7b'] ++ w ++ Punct.semicolon.text.toList)
      = call.stop := hstop
    rw [← hz, ← hplace, size] at hstop'
    simp only [byteLength_append, byteLength_cons, byteLength_nil] at hstop' ⊢
    omega)
  have hlast := congrArg List.getLast? hend
  rwa [hcs, List.getLast?_append_of_ne_nil _ (List.cons_ne_nil _ _), ← hcs,
    List.getLast?_append_of_ne_nil _ (by decide)] at hlast

/-- **A call stands in what is between the braces**, after blanks and comments. -/
theorem exists_inner_of_call (h : IsParse text tree) (hc : c ∈ tree.children)
    (hb : b ∈ c.preorder) (hcall : call ∈ b.children)
    (hl : call.label = .named .explicitConstructorInvocation) {s : String}
    (hs : Text.slice? text call.start call.stop = some s) :
    ∃ v w, x.inner = v ++ (s.toList ++ w) ∧ ∀ c ∈ (v.dropWhile Token.isSpace).head?, c = '/' := by
  obtain ⟨v, -, -, d, -, hsplit, hplace, -, -, hhead⟩ := x.exists_text_of_call h hc hb hcall hl hs
  obtain ⟨t, us, before, semi, mid, htokens, hown, -, -, hstop, hbalanced⟩ :=
    x.exists_tokens_of_call h hc hb hcall hl
  -- the brace that ends the body comes after the semicolon of the call
  have hclose : ⟨.punct .braceClose, spanAfter (x.front ++ '\x7b' :: x.inner) ['\x7d']⟩ ∈ mid := by
    obtain ⟨crossed, -, hmid, -⟩ := exists_crossAll? false .outer mid
    rw [← hbalanced, ← htokens, x.beyond_tokens] at hmid
    rw [hmid]
    exact List.mem_append_right _ List.mem_cons_self
  have hle : call.stop ≤ byteLength (x.front ++ '\x7b' :: x.inner) := by
    obtain ⟨first, hcode⟩ := x.code
    have hpair := (Token.lies_code text.toList).pairwise
    rw [hcode, htokens, hown] at hpair
    have hlast := (List.pairwise_append.1 (List.pairwise_append.1 hpair).2.1).2.1
    rw [← hstop]
    exact (List.pairwise_cons.1 hlast).1 _ hclose
  obtain ⟨-, -, -, -, hz⟩ := slice?_eq_some_iff.1 hs
  have hsize : byteLength (v ++ s.toList) ≤ byteLength x.inner := by
    rw [← hz, ← hplace, size] at hle
    simp only [byteLength_append, byteLength_cons] at hle ⊢
    omega
  rw [← List.append_assoc] at hsplit
  obtain ⟨w, hw, -⟩ := Text.exists_append_of_byteLength hsplit.symm hsize
  exact ⟨v, w, by rw [hw, List.append_assoc], hhead⟩

/-- A body does not begin with its call between two blanks in braces and go on. -/
theorem inner_eq_of_call (h : IsParse text tree) (hc : c ∈ tree.children)
    (hb : b ∈ c.preorder) (hcall : call ∈ b.children)
    (hl : call.label = .named .explicitConstructorInvocation) {s : String}
    (hs : Text.slice? text call.start call.stop = some s) {after : List Char}
    (hnew : x.inner ++ '\x7d' :: x.behind = ' ' :: (s.toList ++ ' ' :: '\x7d' :: after)) :
    x.inner = ' ' :: (s.toList ++ [' ']) := by
  obtain ⟨-, ch, cs, -, hcs, -, -, hspace, hslash, -⟩ := x.exists_text_of_call h hc hb hcall hl hs
  obtain ⟨t, us, before, semi, mid, htokens, hown, -, hstart, hstop, hbalanced⟩ :=
    x.exists_tokens_of_call h hc hb hcall hl
  -- the call stands after one blank
  have hfirst : call.start = byteLength (x.front ++ ['\x7b'] ++ [' ']) := by
    have hscans := x.scans
    rw [hnew, hcs] at hscans
    rw [← hstart]
    exact (hscans.exists_next_of_blank hspace hslash htokens).1
  have hcallstop : call.stop = byteLength (x.front ++ '\x7b' :: ' ' :: s.toList) := by
    obtain ⟨-, -, -, -, hz⟩ := slice?_eq_some_iff.1 hs
    rw [← hz, hfirst, size, ← byteLength_append]
    simp
  -- it ends in its own semicolon
  obtain ⟨as, vs, hts, -, hmid⟩ := Token.exists_of_filter_eq (htokens.trans hown)
  have hscans := x.scans
  rw [hts] at hscans
  obtain ⟨w, d, i, hw, rfl, hafter⟩ := hscans.exists_after (.inr rfl)
  have hsplit : w ++ Punct.semicolon.text.toList ++ d
      = ' ' :: s.toList ++ ' ' :: '\x7d' :: after := by
    rw [List.append_assoc, ← hw, hnew, List.cons_append]
  obtain ⟨hcallend, rfl⟩ := append_inj_of_byteLength hsplit (by
    have hend : byteLength (x.front ++ ['\x7b'] ++ w ++ Punct.semicolon.text.toList)
      = byteLength (x.front ++ '\x7b' :: ' ' :: s.toList) := hstop.trans hcallstop
    simp only [byteLength_append, byteLength_cons, byteLength_nil] at hend ⊢
    omega)
  -- the brace that comes after it has not been opened in it
  obtain ⟨t', us', rfl⟩ : ∃ t' us', mid = t' :: us' := by
    refine List.exists_cons_of_ne_nil ?_
    rintro rfl
    rw [← htokens, x.beyond_tokens] at hbalanced
    cases hbalanced
  obtain ⟨hplace, n, m', i', hnext⟩ := hafter.exists_next_of_blank (by decide) (by decide) hmid
  have hbrace := Token.next_barrier (p := .braceClose) (by decide) i after
  have hlexeme : t'.lexeme = .punct .braceClose :=
    (Option.some.inj (Prod.mk.inj (hbrace.symm.trans hnext)).1).symm
  have hbeyond : beyond false .outer (x.tokens.filter fun t => !t.isComment) = t' :: us' := by
    rw [htokens, hbalanced]
    exact beyond_cons_of_none (by rw [hlexeme]; rfl)
  have hall : x.inner ++ '\x7d' :: x.behind = ' ' :: (s.toList ++ [' ']) ++ '\x7d' :: after := by
    rw [hnew]
    simp
  refine x.inner_eq_of_beyond hall hbeyond ?_
  rw [hplace, List.append_assoc _ w, hcallend]
  simp

/-- **Neither does a body with a call begin with that call between two blanks in
braces, nor that with it**, unless they are the same. -/
theorem inner_eq_of_call_begins (h : IsParse text tree) (hc : c ∈ tree.children)
    (hb : b ∈ c.preorder) (hcall : call ∈ b.children)
    (hl : call.label = .named .explicitConstructorInvocation) {s : String}
    (hs : Text.slice? text call.start call.stop = some s)
    (hbegins : x.inner ++ ['\x7d'] <+: ' ' :: s.toList ++ [' ', '\x7d']
      ∨ ' ' :: s.toList ++ [' ', '\x7d'] <+: x.inner ++ ['\x7d']) :
    x.inner = ' ' :: (s.toList ++ [' ']) := by
  rcases hbegins with ⟨r, hr⟩ | ⟨r, hr⟩
  · -- the call is in the body, so there are two characters less at most
    obtain ⟨v, w, hinner, -⟩ := x.exists_inner_of_call h hc hb hcall hl hs
    have hlength := congrArg List.length hr
    simp only [hinner, List.length_append, List.length_cons, List.length_nil] at hlength
    match r with
    | [] =>
      have hsplit : x.inner ++ ['\x7d'] = ' ' :: (s.toList ++ [' ']) ++ ['\x7d'] := by simpa using hr
      exact (List.append_inj' hsplit rfl).1
    | [last] =>
      have hsplit : x.inner ++ ['\x7d'] ++ [last] = ' ' :: s.toList ++ [' '] ++ ['\x7d'] := by
        simpa using hr
      cases (List.append_inj' (List.append_inj' hsplit rfl).1 rfl).2
    | e :: f :: r =>
      rw [List.length_cons, List.length_cons] at hlength
      obtain rfl : v = [] := List.length_eq_zero_iff.1 (by omega)
      obtain rfl : w = [] := List.length_eq_zero_iff.1 (by omega)
      obtain rfl : r = [] := List.length_eq_zero_iff.1 (by omega)
      rw [List.nil_append, List.append_nil] at hinner
      have hsplit : s.toList ++ ['\x7d'] ++ [e, f] = ' ' :: s.toList ++ [' ', '\x7d'] := by
        rw [← hinner] at hr ⊢
        exact hr
      have hcount := congrArg (List.count '\x7d') (List.append_inj' hsplit rfl).1
      simp at hcount
  · have hsplit : x.inner ++ '\x7d' :: x.behind
        = ' ' :: (s.toList ++ ' ' :: '\x7d' :: (r ++ x.behind)) := by
      rw [List.append_cons, ← hr]
      simp
    exact x.inner_eq_of_call h hc hb hcall hl hs hsplit

end Braced

end JavaMutants
