import JavaMutants.Proofs.Fragment.Enclosure
import JavaMutants.Proofs.Target.Occurrence

/-!
# The text of a declaration

The text of a declaration of a sound file is a declaration wherever it
stands in code (`Portable`): it is scanned to the same tokens, and those are
read by the rule of its kind (`Target.IsMatch.exists_setting`).
-/

namespace JavaMutants

open Syntax Text Tree Grammar

/-- **Tokens are those of a declaration** that begins with the first of them
and ends with the last of them. -/
structure Spells (k : Kind) (own : List Token) (start stop : Nat) : Prop where
  /-- They begin with a modifier. -/
  first : ∃ t ts, own = t :: ts ∧ t.lexeme ∈ modifierLexemes ∧ t.span.start = start
  /-- They end where the declaration does. -/
  last : ∃ us u, own = us ++ [u] ∧ u.span.stop = stop
  /-- The end of the text is not among them. -/
  ne_finish : ∀ t ∈ own, t.lexeme ≠ .finish
  /-- They are read by the rule of the declaration, whatever comes after
  them. -/
  read : ∀ rest, ∃ nodes, outcome (body k) [] (own ++ rest) = some (nodes, rest)

/-- **Characters are a declaration wherever they stand** in code. -/
structure Portable (k : Kind) (w : List Char) : Prop where
  /-- They begin neither with white space nor with a byte order mark, and with no mark
  but `@`. -/
  head : ∀ c ∈ w.head?, Token.isSpace c = false ∧ c ≠ '\ufeff'
    ∧ (Token.isMarkStart c = true → c = '@')
  /-- Unless a comment is closed after them, they are scanned to the tokens of
  a declaration. -/
  scanned : ∀ before after, (∀ n, Token.blockCommentLength n after = none) →
    ∃ ts, Token.Passes after .code [] before w ts .code []
      ∧ Spells k (ts.filter fun t => !t.isComment) (byteLength before) (byteLength (before ++ w))

/-- A modifier is scanned in code only. It begins with neither white space nor a
byte order mark, and with no mark but `@`. -/
theorem Token.begins_of_modifier {m m' : Token.Mode} {i i' : List (Bool × Nat)} {cs : List Char}
    {x : Lexeme} {n : Nat} (h : Token.next m i cs = (some x, n, m', i'))
    (hx : x ∈ modifierLexemes) :
    m = .code ∧ ∀ c ∈ cs.head?, Token.isSpace c = false ∧ c ≠ '\ufeff'
      ∧ (Token.isMarkStart c = true → c = '@') := by
  cases m with
  | quoted triple =>
    have hnot : ∀ x ∈ modifierLexemes, x ∉ Token.quotedMarks ∧ x ≠ .stray := by decide
    rcases Token.lexeme_of_quoted h with hmem | hstray | ⟨k, rfl⟩
    · exact absurd hmem (hnot x hx).1
    · exact absurd hstray (hnot x hx).2
    · simp [modifierLexemes] at hx
  | code =>
    refine ⟨rfl, fun c hc => ?_⟩
    cases cs with
    | nil => cases hc
    | cons d rest =>
      obtain rfl : d = c := Option.some.inj hc
      refine ⟨?_, ?_, fun hmark => ?_⟩
      · by_contra hspace
        cases (Token.next_space (by simpa using hspace) i rest).symm.trans h
      · rintro rfl
        have hstray : x = .stray := by
          have heq := (Token.next_byteOrderMark i rest).symm.trans h
          exact (Option.some.inj (Prod.mk.inj heq).1).symm
        rw [hstray] at hx
        exact absurd hx (by decide)
      · have hothers : ∀ x ∈ modifierLexemes, x.isComment = false ∧ x ≠ .stray := by decide
        have hmarks : ∀ p : Punct, .punct p ∈ modifierLexemes → p = .at ∨ p = .nonSealed := by
          simp [modifierLexemes]
        rcases Token.lexeme_of_isMarkStart hmark h with hc | rfl | ⟨p, rfl, hp⟩
        · rw [(hothers x hx).1] at hc
          cases hc
        · exact absurd rfl (hothers _ hx).2
        · have hhead := Token.head?_of_mark hp
          rcases hmarks p hx with rfl | rfl
          · exact (Option.some.inj hhead).symm
          · obtain rfl := Option.some.inj hhead
            exact absurd hmark (by decide)

/-- **Where a declaration stands** among the characters and the tokens of a text, and the
nodes right below it. -/
structure Setting (text : String) (k : Kind) (start stop : Nat) (nodes : List Tree) where
  /-- A byte order mark, or nothing. -/
  mark : List Char
  /-- The characters before the declaration. -/
  ahead : List Char
  /-- Its own characters. -/
  own : List Char
  /-- The characters after it. -/
  behind : List Char
  /-- The tokens before it. -/
  before : List Token
  /-- Its own tokens. -/
  tokens : List Token
  /-- The tokens after it. -/
  after : List Token
  /-- All characters are those of the text. -/
  text_eq : text.toList = mark ++ (ahead ++ (own ++ behind))
  /-- All tokens are those of the text. -/
  scan_eq : Token.scan text.toList = before ++ (tokens ++ after)
  /-- The declaration begins there. -/
  start_eq : start = byteLength (mark ++ ahead)
  /-- It ends with its characters. -/
  stop_eq : stop = byteLength (mark ++ ahead ++ own)
  /-- Its characters are scanned to the same tokens elsewhere. -/
  moved : ∀ before' after', (∀ n, Token.blockCommentLength n after' = none) →
    ∃ ts, List.Forall₂ (Token.Moved start (byteLength before')) tokens ts
      ∧ Token.Passes after' .code [] before' own ts .code []
      ∧ Spells k (ts.filter fun t => !t.isComment) (byteLength before') (byteLength (before' ++ own))
  /-- The same nodes are made of these. -/
  read : ∀ {b : Nat} {ts : List Token} (rest : List Token),
    List.Forall₂ (Token.Moved start b) (tokens.filter fun t => !t.isComment) ts →
      ∃ nodes', outcome (body k) [] (ts ++ rest) = some (nodes', rest)
        ∧ List.Forall₂ (Tree.Moved start b) nodes nodes'

/-- Its characters are its text. -/
theorem Setting.slice?_eq {text : String} {k : Kind} {start stop : Nat} {nodes : List Tree}
    (x : Setting text k start stop nodes) : slice? text start stop = some (String.ofList x.own) := by
  refine slice?_eq_some_iff.2
    ⟨String.ofList (x.mark ++ x.ahead), String.ofList x.behind, ?_, ?_, ?_⟩
  · rw [← String.toList_inj, x.text_eq]
    simp
  · rw [size_ofList]
    exact x.start_eq.symm
  · have hstart := x.start_eq
    have hstop := x.stop_eq
    rw [byteLength_append] at hstop
    rw [size_ofList]
    omega

namespace Target

variable {text : String} {tree node mods : Tree} {k : Kind}

/-- **A declaration of a sound text is one wherever its text stands.** -/
theorem IsMatch.exists_setting (h : parseSound text = .ok tree) (hmatch : IsMatch tree node mods)
    (hl : node.label = .named k) (hk : isDeclaration k = true) :
    ∃ x : Setting text k node.start node.stop node.bare.children, Portable k x.own := by
  have hparse := isParse_of_parseSound h
  obtain ⟨before, t, ts, us, u, rest, hcode, ht, hlast, -, hstands, hstart, hstop⟩ :=
    hmatch.exists_own h hl hk
  obtain ⟨mark, cs, htext, hscans, -⟩ := hparse.exists_scans
  rw [List.cons_append] at hcode
  -- scanning reaches the first token in code
  obtain ⟨as, vs, hscan, -, hvs⟩ := Token.exists_of_filter_eq hcode
  have hfin : t.lexeme ≠ .finish := ne_finish_of_closed hstands.closed t List.mem_cons_self
  rw [hscan] at hscans
  obtain ⟨v, c, m, i, rfl, -, hscans, hst⟩ := hscans.exists_passes hfin
  obtain ⟨n, m', i', hnext, -, -, -⟩ := hscans.next_of_start hfin hst
  obtain ⟨rfl, hhead⟩ := Token.begins_of_modifier hnext ht
  have hown : (t :: vs).filter (fun t => !t.isComment) = (t :: ts) ++ rest := by
    have hcomment : ∀ x ∈ modifierLexemes, x.isComment = false := by decide
    rw [List.filter_cons_of_pos, hvs]
    · rfl
    · show (!t.lexeme.isComment) = true
      rw [hcomment _ ht]
      rfl
  obtain ⟨w, after, full, tail, rfl, hfull, hfilter, -, hstop', hmoved⟩ :=
    hscans.exists_moved hown hstands.closed fun x hx =>
      hparse.ne_stray (hscan ▸ List.mem_append_right _ hx)
  have hst' : node.start = byteLength (mark ++ v) := hstart.symm.trans hst
  have hsp : node.stop = byteLength (mark ++ v ++ w) := by
    rw [← hstop]
    exact hstop' u (by rw [hlast, List.getLast?_append]; rfl)
  have hspells : ∀ before' after', (∀ n, Token.blockCommentLength n after' = none) →
      ∃ ts, List.Forall₂ (Token.Moved node.start (byteLength before')) full ts
        ∧ Token.Passes after' .code [] before' w ts .code []
        ∧ Spells k (ts.filter fun t => !t.isComment) (byteLength before')
          (byteLength (before' ++ w)) := by
    intro before' after' hclose
    obtain ⟨ts', hforall, hpasses⟩ := hmoved before' after' hclose
    refine ⟨ts', by rwa [hst'], hpasses, ?_⟩
    replace hforall := Token.forall₂_filter hforall
    rw [hfilter] at hforall
    have hstands' : ∀ rest', ∃ nodes, outcome (body k) []
        ((ts'.filter fun t => !t.isComment) ++ rest') = some (nodes, rest') := fun rest' => by
      obtain ⟨nodes, hnodes, -⟩ := hstands.read _ _ _ rest' hforall
      exact ⟨nodes, hnodes⟩
    generalize (ts'.filter fun t => !t.isComment) = own at hforall hstands'
    refine ⟨?_, ?_, ?_, hstands'⟩
    · cases hforall with
      | @cons _ t' _ us' h _ =>
        refine ⟨t', us', rfl, h.lexeme ▸ ht, ?_⟩
        have hmove := h.start
        omega
    · rw [hlast] at hforall
      obtain ⟨us', _, rfl, -, hu'⟩ := exists_of_forall₂_append hforall
      cases hu' with
      | @cons _ u' _ _ h hnil =>
        cases hnil
        refine ⟨us', u', rfl, ?_⟩
        have hmove := h.stop
        simp only [byteLength_append] at hst' hsp hmove ⊢
        omega
    · intro x hx
      obtain ⟨y, hy, hyx⟩ := exists_mem_left hforall hx
      rw [← hyx.lexeme]
      exact ne_finish_of_closed hstands.closed y hy
  refine ⟨⟨mark, v, w, after, as, full, tail, htext, hfull ▸ hscan, hst', hsp, hspells,
    fun rest hts => hstands.read _ _ _ rest (hfilter ▸ hts)⟩,
    fun c hc => hhead c ?_, fun before' after' hclose => ?_⟩
  · cases w with
    | nil => cases hc
    | cons d w => exact hc
  · obtain ⟨ts', -, hpasses, hspells⟩ := hspells before' after' hclose
    exact ⟨ts', hpasses, hspells⟩

end Target

end JavaMutants
