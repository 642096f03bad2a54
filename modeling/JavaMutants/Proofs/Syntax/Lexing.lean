import JavaMutants.Proofs.Syntax.Scan

/-!
# Scanning without a bound

Scanning stops after as many steps as the text has characters. That is
never too early if no token is empty, which is so in every sound text:
then scanning is one step after the other up to the end of the text
(`Scans`), and every token stands between what was scanned before it and
what is scanned after it (`Scans.exists_step`).
-/

namespace JavaMutants.Syntax

open Text

namespace Token

/-- **Scanning from a state**, up to the end of the text, in steps that
each take something. -/
inductive Scans : Mode → List (Bool × Nat) → List Char → List Char → List Token → Prop where
  /-- The text has ended. -/
  | done {mode inside before} :
      Scans mode inside before [] [⟨.finish, ⟨byteLength before, byteLength before⟩⟩]
  /-- Characters are skipped. -/
  | skip {mode inside before cs n mode' inside' ts}
      (hs : next mode inside cs = (none, n, mode', inside')) (hn : cs.take n ≠ [])
      (h : Scans mode' inside' (before ++ cs.take n) (cs.drop n) ts) :
      Scans mode inside before cs ts
  /-- Characters are those of a token. -/
  | token {mode inside before cs x n mode' inside' ts}
      (hs : next mode inside cs = (some x, n, mode', inside')) (hn : cs.take n ≠ [])
      (h : Scans mode' inside' (before ++ cs.take n) (cs.drop n) ts) :
      Scans mode inside before cs
        (⟨x, ⟨byteLength before, byteLength (before ++ cs.take n)⟩⟩ :: ts)

/-- What is skipped is not empty. -/
theorem take_ne_nil_of_skip {mode mode' : Mode} {inside inside' : List (Bool × Nat)}
    {cs : List Char} (hne : cs ≠ []) {n : Nat}
    (h : next mode inside cs = (none, n, mode', inside')) : cs.take n ≠ [] := by
  have hstep := step_next mode inside hne
  rw [h] at hstep
  generalize hr : ((none : Option Lexeme), n, mode', inside') = r at hstep
  cases hstep with
  | @space _ c cs hc =>
    obtain ⟨-, hr⟩ := Prod.mk.inj hr
    obtain ⟨rfl, -⟩ := Prod.mk.inj hr
    rw [take_length_takeWhile, List.takeWhile_cons_of_pos hc]
    exact List.cons_ne_nil _ _
  | _ => cases (Prod.mk.inj hr).1

/-- **Scanning ends with the text** if no token is empty. -/
theorem scans_scanFrom {fuel : Nat} {mode : Mode} {inside : List (Bool × Nat)}
    {before cs : List Char} (hf : cs.length ≤ fuel)
    (hlt : ∀ t ∈ scanFrom fuel mode inside (byteLength before) cs,
      t.lexeme ≠ .finish → t.span.start < t.span.stop) :
    Scans mode inside before cs (scanFrom fuel mode inside (byteLength before) cs) := by
  induction fuel generalizing mode inside before cs with
  | zero =>
    obtain rfl := List.length_eq_zero_iff.1 (Nat.le_zero.1 hf)
    exact .done
  | succ fuel ih =>
    by_cases hne : cs = []
    · subst hne
      exact .done
    · obtain ⟨⟨x, n, mode', inside'⟩, hn⟩ : ∃ r, next mode inside cs = r := ⟨_, rfl⟩
      rw [scanFrom_succ fuel _ hne hn, ← byteLength_append] at hlt ⊢
      have htake : cs.take n ≠ [] := by
        cases x with
        | none => exact take_ne_nil_of_skip hne hn
        | some x =>
          intro hnil
          have hx := (hn ▸ step_next mode inside hne).ne_finish
          have h := hlt _ (List.mem_append_left _ (List.mem_singleton.2 rfl)) hx
          rw [hnil, List.append_nil] at h
          exact Nat.lt_irrefl _ h
      have hpos : 0 < n := by
        refine Nat.pos_of_ne_zero ?_
        rintro rfl
        exact htake List.take_zero
      have hrest : Scans mode' inside' (before ++ cs.take n) (cs.drop n)
          (scanFrom fuel mode' inside' (byteLength (before ++ cs.take n)) (cs.drop n)) :=
        ih (by rw [List.length_drop]; omega) fun t ht => hlt t (List.mem_append_right _ ht)
      cases x with
      | none => exact .skip hn htake hrest
      | some x => exact .token hn htake hrest

/-- **With a step for every character the bound does not matter.** -/
theorem Scans.scanFrom_eq {fuel : Nat} {mode : Mode} {inside : List (Bool × Nat)}
    {before cs : List Char} {ts : List Token} (h : Scans mode inside before cs ts)
    (hf : cs.length ≤ fuel) : scanFrom fuel mode inside (byteLength before) cs = ts := by
  -- a step that takes something leaves fewer characters
  have hstep : ∀ {cs : List Char} {n fuel : Nat}, cs.take n ≠ [] → cs.length ≤ fuel →
      cs ≠ [] ∧ ∃ left, fuel = left + 1 ∧ (cs.drop n).length ≤ left := by
    intro cs n fuel hn hf
    obtain ⟨c, cs, rfl⟩ := List.exists_cons_of_ne_nil fun hnil : cs = [] => hn (by
      rw [hnil, List.take_nil])
    have hpos : 0 < n := Nat.pos_of_ne_zero fun hz => hn (by rw [hz, List.take_zero])
    rw [List.length_cons] at hf
    refine ⟨List.cons_ne_nil c cs, fuel - 1, by omega, ?_⟩
    rw [List.length_drop, List.length_cons]
    omega
  induction h generalizing fuel with
  | done => cases fuel <;> rfl
  | skip hs hn _ ih =>
    obtain ⟨hne, left, rfl, hrest⟩ := hstep hn hf
    rw [scanFrom_succ left _ hne hs, ← byteLength_append, ih hrest]
    rfl
  | token hs hn _ ih =>
    obtain ⟨hne, left, rfl, hrest⟩ := hstep hn hf
    rw [scanFrom_succ left _ hne hs, ← byteLength_append, ih hrest]
    rfl

/-- **What is scanned is determined.** -/
theorem Scans.unique {mode : Mode} {inside : List (Bool × Nat)} {before cs : List Char}
    {ts us : List Token} (h : Scans mode inside before cs ts) (h' : Scans mode inside before cs us) :
    ts = us := by
  rw [← h.scanFrom_eq (Nat.le_refl _), h'.scanFrom_eq (Nat.le_refl _)]

/-- A text that does not begin with a byte order mark is scanned from its
first character on. -/
theorem scan_eq_scanFrom {cs : List Char} (hmark : cs.head? ≠ some '\ufeff') :
    scan cs = scanFrom cs.length .code [] 0 cs := by
  unfold scan
  split
  next => exact absurd rfl hmark
  next => rfl

/-- Tokens that are scanned without a bound are not empty. -/
theorem Scans.lt_of_mem {mode : Mode} {inside : List (Bool × Nat)} {before cs : List Char}
    {ts : List Token} (h : Scans mode inside before cs ts) {t : Token} (ht : t ∈ ts)
    (hfin : t.lexeme ≠ .finish) : t.span.start < t.span.stop := by
  induction h with
  | done =>
    obtain rfl := List.mem_singleton.1 ht
    exact absurd rfl hfin
  | skip _ _ _ ih => exact ih ht
  | token _ hn _ ih =>
    rcases List.mem_cons.1 ht with rfl | ht
    · have hpos := byteLength_pos hn
      simp only [byteLength_append]
      omega
    · exact ih ht

section Inversion

variable {mode : Mode} {inside : List (Bool × Nat)} {before cs : List Char} {ts : List Token}

/-- What a text that begins with a token is scanned to. -/
theorem Scans.of_token (h : Scans mode inside before cs ts) (hne : cs ≠ []) {x : Lexeme} {n : Nat}
    {mode' : Mode} {inside' : List (Bool × Nat)}
    (hn : next mode inside cs = (some x, n, mode', inside')) :
    ∃ us, ts = ⟨x, ⟨byteLength before, byteLength (before ++ cs.take n)⟩⟩ :: us
      ∧ Scans mode' inside' (before ++ cs.take n) (cs.drop n) us := by
  cases h with
  | done => exact absurd rfl hne
  | skip hs => cases hs.symm.trans hn
  | token hs _ h =>
    cases hs.symm.trans hn
    exact ⟨_, rfl, h⟩

/-- What a text that begins with something skipped is scanned to. -/
theorem Scans.of_skip (h : Scans mode inside before cs ts) (hne : cs ≠ []) {n : Nat}
    {mode' : Mode} {inside' : List (Bool × Nat)}
    (hn : next mode inside cs = (none, n, mode', inside')) :
    cs.take n ≠ [] ∧ Scans mode' inside' (before ++ cs.take n) (cs.drop n) ts := by
  cases h with
  | done => exact absurd rfl hne
  | skip hs htake h =>
    cases hs.symm.trans hn
    exact ⟨htake, h⟩
  | token hs => cases hs.symm.trans hn

/-- No token begins before scanning does. -/
theorem Scans.le_start (h : Scans mode inside before cs ts) {t : Token} (ht : t ∈ ts) :
    byteLength before ≤ t.span.start := by
  induction h with
  | done =>
    obtain rfl := List.mem_singleton.1 ht
    exact Nat.le_refl _
  | skip _ _ _ ih =>
    have hle := ih ht
    rw [byteLength_append] at hle
    omega
  | token _ _ _ ih =>
    rcases List.mem_cons.1 ht with rfl | ht
    · exact Nat.le_refl _
    · have hle := ih ht
      rw [byteLength_append] at hle
      omega

/-- **Every token is scanned in a step**, after which scanning goes on. -/
theorem Scans.exists_step (h : Scans mode inside before cs ts) {t : Token} (ht : t ∈ ts)
    (hfin : t.lexeme ≠ .finish) :
    ∃ (a c : List Char) (n : Nat) (m m' : Mode) (i i' : List (Bool × Nat)) (us : List Token),
      cs = a ++ c ∧ Step m i c (some t.lexeme, n, m', i') ∧ c.take n ≠ []
        ∧ t.span = ⟨byteLength (before ++ a), byteLength (before ++ a ++ c.take n)⟩
        ∧ Scans m' i' (before ++ a ++ c.take n) (c.drop n) us ∧ us ⊆ ts := by
  induction h with
  | done =>
    obtain rfl := List.mem_singleton.1 ht
    exact absurd rfl hfin
  | @skip mode inside before cs n mode' inside' ts hs hn h ih =>
    obtain ⟨a, c, n', m, m', i, i', us, hc, hstep, hne, hspan, hus, hsub⟩ := ih ht
    refine ⟨cs.take n ++ a, c, n', m, m', i, i', us, ?_, hstep, hne, ?_, ?_, hsub⟩
    · rw [List.append_assoc, ← hc, List.take_append_drop]
    · rw [← List.append_assoc]
      exact hspan
    · rw [← List.append_assoc]
      exact hus
  | @token mode inside before cs x n mode' inside' ts hs hn h ih =>
    rcases List.mem_cons.1 ht with rfl | ht
    · have hne : cs ≠ [] := fun hnil => hn (by rw [hnil, List.take_nil])
      have hstep := step_next mode inside hne
      rw [hs] at hstep
      refine ⟨[], cs, n, mode, mode', inside, inside', ts, rfl, hstep, hn, ?_, ?_,
        List.subset_cons_self _ _⟩
      · rw [List.append_nil]
      · rw [List.append_nil]
        exact h
    · obtain ⟨a, c, n', m, m', i, i', us, hc, hstep, hne, hspan, hus, hsub⟩ := ih ht
      refine ⟨cs.take n ++ a, c, n', m, m', i, i', us, ?_, hstep, hne, ?_, ?_,
        fun u hu => List.mem_cons_of_mem _ (hsub hu)⟩
      · rw [List.append_assoc, ← hc, List.take_append_drop]
      · rw [← List.append_assoc]
        exact hspan
      · rw [← List.append_assoc]
        exact hus

end Inversion

/-! ## Where steps end -/

section Ends

variable {mode mode' : Mode} {inside inside' : List (Bool × Nat)} {cs : List Char} {x : Lexeme}
  {n : Nat}

theorem exists_taken_of_blockCommentLength {m : Nat}
    (h : blockCommentLength m cs = some n) :
    ∃ taken rest, cs = taken ++ '*' :: '/' :: rest ∧ n = m + taken.length + 2 := by
  fun_induction blockCommentLength m cs with
  | case1 m rest =>
    cases h
    exact ⟨[], rest, rfl, rfl⟩
  | case2 m c cs _ ih =>
    obtain ⟨taken, rest, rfl, rfl⟩ := ih h
    exact ⟨c :: taken, rest, rfl, by simp; omega⟩
  | case3 => cases h

/-- **A comment begins with a slash**, and lies on one line or ends with a
slash. -/
theorem Step.ends_of_comment (h : Step mode inside cs (some x, n, mode', inside'))
    (hx : x.isComment = true) :
    (cs.take n).head? = some '/'
      ∧ ('\n' ∉ cs.take n ∨ (cs.take n).getLast? = some '/') := by
  generalize hr : (some x, n, mode', inside') = r at h
  cases h with
  | space => cases hr
  | lineComment h =>
    cases hr
    obtain ⟨rest, rfl⟩ := h
    rw [take_length_takeWhile]
    refine ⟨rfl, .inl fun hmem => ?_⟩
    have hall := List.all_eq_true.1 List.all_takeWhile _ hmem
    exact absurd hall (by decide)
  | blockComment h hn =>
    cases hr
    obtain ⟨rest, rfl⟩ := h
    obtain ⟨taken, rest', hrest, rfl⟩ := exists_taken_of_blockCommentLength hn
    obtain rfl : rest = taken ++ '*' :: '/' :: rest' := hrest
    have htake : (['/', '*'] ++ (taken ++ '*' :: '/' :: rest')).take (2 + taken.length + 2)
        = '/' :: '*' :: taken ++ ['*', '/'] := by
      rw [show 2 + taken.length + 2 = ['/', '*'].length + (taken.length + 2) by simp; omega,
        List.take_length_add_append, List.take_length_add_append]
      rfl
    rw [htake]
    exact ⟨rfl, .inr (by rw [List.getLast?_append]; rfl)⟩
  | plain _ hc =>
    cases hr
    rw [hc] at hx
    cases hx
  | mark => obtain ⟨hr, -⟩ := Prod.mk.inj hr; cases hr; cases hx
  | close => cases hr; cases hx
  | interpolate => cases hr; cases hx

/-- What is neither a comment nor a mark leaves scanning in its state, and
in code does not end in the end of a line. -/
theorem Step.of_plain (h : Step mode inside cs (some x, n, mode', inside'))
    (hx : x.isPlain = true) (hc : x.isComment = false) :
    mode' = mode ∧ inside' = inside
      ∧ (mode = .code → ∀ c ∈ (cs.take n).getLast?, c ≠ '\n') := by
  generalize hr : (some x, n, mode', inside') = r at h
  cases h with
  | space => cases hr
  | lineComment => cases hr; cases hc
  | blockComment => cases hr; cases hc
  | plain _ _ hline => cases hr; exact ⟨rfl, rfl, hline⟩
  | mark => obtain ⟨hr, -⟩ := Prod.mk.inj hr; cases hr; cases hx
  | close => cases hr; cases hx
  | interpolate => cases hr; cases hx

end Ends

end Token

end JavaMutants.Syntax
