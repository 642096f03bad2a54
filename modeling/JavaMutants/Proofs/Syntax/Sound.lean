import JavaMutants.Proofs.Syntax.Lexing
import JavaMutants.Proofs.Syntax.Outcome
import JavaMutants.Proofs.Syntax.Parse

/-!
# Which texts are sound

A text is sound exactly if the grammar reads all of its tokens and none of
them is empty: what is read then has no fault (`Takes.sound`), and nothing
else is accepted (`outcome_of_parseSound`, `exists_parseSound`).

A node that was made of some tokens begins where the first of them does and
ends where the last of them does (`Tree.Nested.bounds_of_takes`).
-/

namespace JavaMutants.Syntax

open Syntax.Tree Grammar Text

/-! ## Reading sound texts -/

/-- **A sound text is read as a whole.** -/
theorem outcome_of_parseSound {text : String} {tree : Tree} (h : parseSound text = .ok tree) :
    outcome (body .program) [] (Token.code text.toList) = some (bareAll tree.children, []) := by
  obtain ⟨root, rest, hread, rfl, -⟩ := exists_read_of_parseSound h
  rw [readProgram_eq, the, outcome_part] at hread
  have hp : (body .program).isPaced isTaking = true := isPaced_rules (.node .program)
  obtain ⟨nodes, hroot, hnodes⟩ := (outcome_tree_eq_some_iff hp).1 hread
  obtain rfl : root = above (.named .program) nodes := (List.cons.inj hroot).1
  have hd : Derives rules (body .program) none (Token.code text.toList) nodes rest :=
    derives_of_outcome rfl hnodes
  obtain rfl := rest_eq_nil (Token.terminated_code text.toList) hd
  rw [bareAll_children_finishRoot _ (Token.isComment_of_mem_comments text.toList) hd]
  exact hnodes

/-! ## Scanning a sound text -/

section Sound

variable {text : String} {tree : Tree}

/-- The leaves of the code of a sound text are its tokens. -/
theorem IsParse.takes (h : IsParse text tree) :
    Takes (Token.code text.toList) (leavesAll (bareAll tree.children)) [] :=
  takes_of_program h.derives

/-- No token of a sound text is empty. -/
theorem IsParse.lt_of_mem_scan (h : IsParse text tree) {t : Token}
    (ht : t ∈ Token.scan text.toList) (hfin : t.lexeme ≠ .finish) :
    t.span.start < t.span.stop := by
  by_contra hle
  by_cases hc : t.isComment = true
  · exact hle (Token.lt_of_comment_mem_scan ht hc)
  · have hcode : t ∈ Token.code text.toList := List.mem_filter.2 ⟨ht, by simpa using hc⟩
    rcases h.takes.fault_of_empty hcode hfin (Nat.not_lt.1 hle) with hrest | ⟨x, hx, hf⟩
    · cases hrest
    · rw [h.whole x hx] at hf
      cases hf

/-- **A sound text is scanned to its end**, from its first character on or
after a byte order mark. -/
theorem IsParse.exists_scans (h : IsParse text tree) :
    ∃ mark cs, text.toList = mark ++ cs
      ∧ Token.Scans .code [] mark cs (Token.scan text.toList)
      ∧ (mark = ['\ufeff'] ∨ mark = [] ∧ text.toList.head? ≠ some '\ufeff') := by
  have hlt := fun t => h.lt_of_mem_scan (t := t)
  by_cases hmark : text.toList.head? = some '\ufeff'
  · obtain ⟨cs, hcs⟩ : ∃ cs, text.toList = '\ufeff' :: cs := by
      obtain ⟨c, cs, hcs⟩ := List.exists_cons_of_ne_nil fun hnil : text.toList = [] => by
        rw [hnil] at hmark
        cases hmark
      rw [hcs] at hmark
      exact ⟨cs, by rw [hcs, Option.some.inj hmark]⟩
    have hscan : Token.scan text.toList
        = Token.scanFrom (cs.length + 1) .code [] (byteLength ['\ufeff']) cs := by
      rw [hcs]
      rfl
    rw [hscan] at hlt ⊢
    exact ⟨['\ufeff'], cs, hcs, Token.scans_scanFrom (Nat.le_succ _) hlt, .inl rfl⟩
  · have hscan : Token.scan text.toList
        = Token.scanFrom text.toList.length .code [] (byteLength []) text.toList :=
      Token.scan_eq_scanFrom hmark
    rw [hscan] at hlt ⊢
    exact ⟨[], text.toList, rfl, Token.scans_scanFrom (Nat.le_refl _) hlt, .inr ⟨rfl, hmark⟩⟩

theorem IsParse.scans (h : IsParse text tree) (hmark : text.toList.head? ≠ some '\ufeff') :
    Token.Scans .code [] [] text.toList (Token.scan text.toList) := by
  obtain ⟨mark, cs, hcs, hscans, rfl | ⟨rfl, -⟩⟩ := h.exists_scans
  · rw [hcs] at hmark
    exact absurd rfl hmark
  · rw [List.nil_append] at hcs
    rwa [← hcs] at hscans

/-- No token of a sound text is a character that begins nothing. -/
theorem IsParse.ne_stray (h : IsParse text tree) {t : Token} (ht : t ∈ Token.scan text.toList) :
    t.lexeme ≠ .stray := by
  intro hx
  have hcode : t ∈ Token.code text.toList :=
    List.mem_filter.2 ⟨ht, by simp [Token.isComment, hx]⟩
  rcases h.takes.exists_leaf hcode (by rw [hx]; rfl) with hrest | ⟨label, hl, -⟩
  · cases hrest
  · rw [hx] at hl
    cases hl

end Sound

/-! ## Leaves without faults -/

theorem Lexeme.isFault_of_standsAs {x : Lexeme} {l : Label} (h : x.standsAs l = true) :
    l.isFault = false := by
  cases l with
  | error | missing => cases x <;> cases h
  | _ => rfl

/-- What is left of a mark is not empty. -/
theorem Punct.text_ne_nil (p : Punct) : p.text.toList ≠ [] := by
  cases p <;> decide

/-- **Tokens that are not empty become leaves without faults.** -/
theorem Takes.sound {ts rest : List Token} {ls : List (Label × Span)} (h : Takes ts ls rest)
    {before cs : List Char} (hlies : Lies before cs ts)
    (hlt : ∀ t ∈ ts, t.lexeme ≠ .finish → t.span.start < t.span.stop) :
    ∀ x ∈ ls, x.1.isFault = false := by
  induction h generalizing before cs with
  | nil => exact fun _ hx => absurd hx List.not_mem_nil
  | @token label t ts leaves rest hl _ ih =>
    obtain ⟨ht, hlt⟩ := List.forall_mem_cons.1 hlt
    obtain ⟨a, b, c, rfl, -, -, hts⟩ := hlies.cons_inv
    have hfin : t.lexeme ≠ .finish := by
      intro hx
      rw [hx] at hl
      cases hl
    refine List.forall_mem_cons.2 ⟨?_, ih hts hlt⟩
    rw [leafLabel_eq (ht hfin)]
    exact Lexeme.isFault_of_standsAs hl
  | @angle p q s ts leaves rest hp _ ih =>
    obtain ⟨ht, hlts⟩ := List.forall_mem_cons.1 hlt
    obtain ⟨a, b, c, rfl, hb, hs, hts⟩ := hlies.cons_inv
    obtain rfl : b = p.text.toList := hb
    obtain rfl : s = _ := hs
    have hspan := ht nofun
    obtain ⟨d, -, hts⟩ := lies_afterAngle hp hts
    refine List.forall_mem_cons.2 ⟨?_, ih hts fun u hu hne => ?_⟩
    · rw [leafLabel_eq]
      · rfl
      · exact Nat.lt_min.2 ⟨Nat.lt_succ_self _, hspan⟩
    · cases q with
      | none => exact hlts u hu hne
      | some q =>
        rcases List.mem_cons.1 hu with rfl | hu
        · -- what is left has the characters of a mark
          have hpos := byteLength_pos q.text_ne_nil
          have hgt : '>'.utf8Size = 1 := by decide
          simp only [byteLength_append, Punct.text_of_afterAngle? hp, byteLength_cons, hgt,
            Option.elim_some]
          omega
        · exact hlts u hu hne
  | @finish s ts leaves rest _ ih =>
    obtain ⟨-, hlt⟩ := List.forall_mem_cons.1 hlt
    obtain ⟨a, b, c, rfl, -, -, hts⟩ := hlies.cons_inv
    exact ih hts hlt

/-- Reading a program puts a root above what is read. -/
theorem readProgram_of_outcome {ts : List Token} {nodes : List Tree}
    (h : outcome (body .program) [] ts = some (nodes, [])) :
    (readProgram ts).result = some ([above (.named .program) nodes], []) := by
  have hp : (body .program).isPaced isTaking = true := isPaced_rules (.node .program)
  rw [readProgram_eq, the, outcome_part]
  exact (outcome_tree_eq_some_iff hp).2 ⟨nodes, rfl, h⟩

/-- **A text that is read as a whole from tokens that are not empty is
sound.** -/
theorem exists_parseSound {text : String} {nodes : List Tree}
    (h : outcome (body .program) [] (Token.code text.toList) = some (nodes, []))
    (hlt : ∀ t ∈ Token.code text.toList, t.lexeme ≠ .finish → t.span.start < t.span.stop) :
    ∃ tree, parseSound text = .ok tree ∧ bareAll tree.children = nodes := by
  have hd : Derives rules (body .program) none (Token.code text.toList) nodes [] :=
    derives_of_outcome rfl h
  have hcomments := Token.isComment_of_mem_comments text.toList
  have hparse : parse text = finishRoot (size text) (Token.comments text.toList)
      (above (.named .program) nodes) := by
    unfold parse
    simp only
    rw [← Token.code, ← Token.comments, readProgram_of_outcome h]
  -- no leaf is a fault, so no node is
  have hsound := (takes_of_program hd).sound (Token.lies_code text.toList) hlt
  obtain ⟨hflag, hfaulty⟩ := flagged_finishRoot (size text) hcomments
    (flagged_above (l := .named .program) hd.flagged)
  have hnone : (parse text).firstFault = none := by
    rw [hparse, hflag.firstFault_eq_none_iff, hfaulty]
    by_contra hf
    rw [Bool.not_eq_false] at hf
    obtain ⟨n, hn, hfault⟩ := (flagged_above (l := .named .program) hd.flagged).faulty_eq_true_iff.1 hf
    rcases mem_preorder_iff.1 hn with rfl | ⟨c, hc, hnc⟩
    · cases hfault
    · have hc : c ∈ nodes := hc
      have hnil := hd.children_eq_nil hc hnc fun k hk => by
        rw [hk] at hfault
        cases hfault
      have hx : (n.label, n.span) ∈ leavesAll nodes := by
        refine mem_leavesAll_iff.2 ⟨c, hc, mem_leaves_of_mem_preorder hnc ?_⟩
        rw [leaves_of_children_nil hnil]
        exact List.mem_singleton.2 rfl
      rw [hsound _ hx] at hfault
      cases hfault
  refine ⟨parse text, ?_, ?_⟩
  · unfold parseSound
    simp only [hnone]
  · rw [hparse]
    exact bareAll_children_finishRoot _ hcomments hd

/-! ## Where nodes lie -/

namespace Tree

/-- **A node over the leaves of some tokens reaches from the first of them to
the last.** -/
theorem Nested.bounds_of_takes {n : Tree} (hn : Nested n) {own rest : List Token}
    (h : Takes (own ++ rest) n.leaves rest) {before cs : List Char}
    (hlies : Lies before cs (own ++ rest)) (hsound : ∀ x ∈ n.leaves, x.1.isFault = false)
    {t u : Token} {ts us : List Token} (hfirst : own = t :: ts) (hlast : own = us ++ [u])
    (hfin : ∀ t ∈ own, t.lexeme ≠ .finish) (hlt : ∀ t ∈ own, t.span.start < t.span.stop) :
    n.start = t.span.start ∧ n.stop = u.span.stop := by
  obtain ⟨mid, after, -, hrest, hord, -⟩ := h.lies hlies hsound
  have hpair := hlies.pairwise
  -- every leaf comes from one of the tokens
  have hown : ∀ x ∈ n.leaves, ∃ v ∈ own, v.span.start ≤ x.2.start ∧ x.2.stop ≤ v.span.stop := by
    intro x hx
    obtain ⟨v, hv, hstart, hstop, -⟩ := h.exists_token hx
    rcases List.mem_append.1 hv with hv | hv
    · exact ⟨v, hv, hstart, hstop⟩
    · obtain ⟨-, hlt, hle⟩ := hord.mem (List.mem_map.2 ⟨x, hx, rfl⟩)
      have hge := (hrest.start_le_stop hv).1
      omega
  -- the first and the last of them are where leaves begin and end
  have hmarks : ∀ v ∈ own, ∀ p, v.lexeme = .punct p →
      v.span.stop = v.span.start + p.text.toList.length := by
    intro v hv p hp
    obtain ⟨a, b, c, -, hb, hspan⟩ := hlies.exists_spelling (List.mem_append_left _ hv)
    rw [hp] at hb
    obtain rfl : b = p.text.toList := hb
    have hbytes : byteLength p.text.toList = p.text.toList.length := by cases p <;> decide
    rw [hspan]
    simp only [byteLength_append, hbytes]
  obtain ⟨x, hx, y, hy, hxt, hyu⟩ : ∃ x ∈ n.leaves, ∃ y ∈ n.leaves,
      x.2.start = t.span.start ∧ y.2.stop = u.span.stop := by
    rcases h.exists_ends hfin hmarks with ⟨hnil, -⟩ | ⟨t', ht', u', hu', x, hx, y, hy, hxt, hyu⟩
    · rw [hfirst] at hnil
      cases hnil
    · rw [hfirst] at ht'
      cases ht'
      rw [hlast, List.getLast?_append] at hu'
      cases hu'
      exact ⟨x, List.mem_of_mem_head? hx, y, List.mem_of_mem_getLast? hy, hxt, hyu⟩
  have hin : ∀ x ∈ n.leaves, n.start ≤ x.2.start ∧ x.2.stop ≤ n.stop := fun _ => hn.bounds_leaf
  have hpair := (List.pairwise_append.1 hpair).1
  constructor
  · obtain ⟨z, hz, hzs, -⟩ := hn.exists_leaf_start
    obtain ⟨v, hv, hvs, -⟩ := hown z hz
    have hle := (hin x hx).1
    rw [hfirst] at hv hpair
    rcases List.mem_cons.1 hv with rfl | hv
    · omega
    · have hbefore := (List.pairwise_cons.1 hpair).1 v hv
      have htlt := hlt t (hfirst ▸ List.mem_cons_self)
      omega
  · obtain ⟨z, hz, hzs, -⟩ := hn.exists_leaf_stop
    obtain ⟨v, hv, -, hvs⟩ := hown z hz
    have hle := (hin y hy).2
    have hult := hlt u (hlast ▸ List.mem_append_right _ (List.mem_singleton.2 rfl))
    rw [hlast] at hv hpair
    rcases List.mem_append.1 hv with hv | hv
    · have hbefore := (List.pairwise_append.1 hpair).2.2 v hv u (List.mem_singleton.2 rfl)
      omega
    · obtain rfl := List.mem_singleton.1 hv
      omega

end Tree

end JavaMutants.Syntax
