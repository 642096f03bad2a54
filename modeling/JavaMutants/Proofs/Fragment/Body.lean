import JavaMutants.Proofs.Fragment.Condition
import JavaMutants.Proofs.Fragment.Text
import JavaMutants.Proofs.Syntax.Nest

/-!
# Bodies

The body of a declaration is something in braces that is known by the name
of a body (`hasBody_declaration`). In its text it begins with a brace, and
from there on the first brace that nothing before it has opened is the one
that ends it (`Braced.beyond_tokens`). So no body begins with
something in braces and goes on (`Braced.inner_eq_of_begins`).
-/

namespace JavaMutants

open Syntax Text Tree Grammar Rule

/-! ## The rules of bodies -/

/-- The kinds of bodies. -/
def bodyKinds : List Kind := [
  .block, .constructorBody, .classBody, .interfaceBody, .annotationTypeBody, .enumBody ]

/-- What stands in the braces of a body. -/
def inBraces (k : Kind) : Rules :=
  match body k with
  | .both _ (.both inner _) => inner
  | _ => nothing

theorem body_eq_braces : ∀ k ∈ bodyKinds, body k = braces (inBraces k) := by
  simp only [bodyKinds, List.forall_mem_cons]
  exact ⟨rfl, rfl, rfl, rfl, rfl, rfl, fun _ h => absurd h List.not_mem_nil⟩

theorem track?_inBraces :
    ∀ k ∈ bodyKinds, (inBraces k).track? false isBalanced .outer = some .outer := by decide

theorem nest?_inBraces : ∀ k ∈ bodyKinds, (inBraces k).nest? isNested [] = some [] := by
  decide +kernel

/-- **What a rule gives under the name of a body is something in braces.** What comes before
it closes what it opens. -/
def HasBody (rule : Rules) : Prop :=
  ∀ ts nodes rest, Derives rules rule none ts nodes rest → ∀ b ∈ nodes, b.field = some .body →
    ∃ k ∈ bodyKinds, ∃ us cs, Leads [] ts [] us ∧ Derives rules (body k) none us cs rest
      ∧ b = (above (.named k) cs).withField (some .body)

/-- What comes before a body has none. -/
theorem HasBody.both {a b : Rules} (ha : a.knows .body (fun _ => false) = false)
    (hnest : a.nest? isNested [] = some []) (hb : HasBody b) : HasBody (both a b) := by
  intro ts nodes rest h n hn hf
  obtain ⟨ns, mid, ms, rfl, hns, hms⟩ := h.of_both
  rcases List.mem_append.1 hn with hn | hn
  · exact absurd hf (field_ne_of_derives (.inr rfl) ha hns n hn)
  · obtain ⟨k, hk, us, cs, hleads, hcs, rfl⟩ := hb mid ms rest hms n hn hf
    exact ⟨k, hk, us, cs, (leads_of_isNested hns hnest).trans hleads, hcs, rfl⟩

theorem hasBody_the {k : Kind} (hk : k ∈ bodyKinds) : HasBody (field .body (the k)) := by
  intro ts nodes rest h n hn _
  obtain ⟨ns, rfl, hns⟩ := h.of_field
  obtain ⟨cs, rfl, hcs⟩ := hns.of_part.of_tree
  exact ⟨k, hk, ts, cs, .refl, hcs, List.mem_singleton.1 hn⟩

theorem hasBody_part {p : Part} {k : Kind} (hk : k ∈ bodyKinds) (hp : rules p = the k) :
    HasBody (field .body (part p)) := by
  intro ts nodes rest h n hn hf
  obtain ⟨ns, rfl, hns⟩ := h.of_field
  exact hasBody_the hk ts _ rest (.field (hp ▸ hns.of_part)) n hn hf

/-- **The body of a declaration is something in braces.** -/
theorem hasBody_declaration {k : Kind} (hk : isDeclaration k = true) : HasBody (body k) := by
  have hblock : HasBody (field .body (part .block)) := hasBody_part (by decide) rfl
  have hclass : HasBody (field .body (part .classBody)) := hasBody_part (by decide) rfl
  cases k with
  | classDeclaration =>
    iterate 7 refine HasBody.both rfl rfl ?_
    exact hclass
  | recordDeclaration =>
    iterate 6 refine HasBody.both rfl rfl ?_
    exact hclass
  | interfaceDeclaration =>
    iterate 6 refine HasBody.both rfl rfl ?_
    exact hasBody_the (by decide)
  | enumDeclaration =>
    iterate 4 refine HasBody.both rfl rfl ?_
    exact hasBody_the (by decide)
  | annotationTypeDeclaration =>
    iterate 3 refine HasBody.both rfl rfl ?_
    exact hasBody_the (by decide)
  | constructorDeclaration =>
    iterate 5 refine HasBody.both rfl rfl ?_
    exact hasBody_the (by decide)
  | compactConstructorDeclaration =>
    iterate 2 refine HasBody.both rfl rfl ?_
    exact hblock
  | methodDeclaration =>
    iterate 7 refine HasBody.both rfl rfl ?_
    intro ts nodes rest h n hn hf
    rcases h.of_either with h | h
    · exact hblock ts nodes rest h n hn hf
    · exact absurd hf (field_ne_of_derives (.inr rfl) rfl h n hn)
  | _ => cases hk

/-! ## Bodies in their text -/

/-- The place of some characters after others. -/
def spanAfter (before own : List Char) : Span := ⟨byteLength before, byteLength (before ++ own)⟩

/-- **A body in its text**: what stands around it and in its braces, as
characters, as tokens and as nodes. -/
structure Braced (text : String) (b : Tree) where
  /-- What kind of body it is. -/
  kind : Kind
  /-- It is one of those. -/
  mem : kind ∈ bodyKinds
  /-- What comes before. -/
  front : List Char
  /-- What stands in the braces. -/
  inner : List Char
  /-- What comes after. -/
  behind : List Char
  /-- The parts are those of the text. -/
  text_eq : text.toList = front ++ '\x7b' :: (inner ++ '\x7d' :: behind)
  /-- The body begins with a brace. -/
  start : byteLength front = b.start
  /-- It ends with a brace. -/
  stop : byteLength (front ++ '\x7b' :: (inner ++ ['\x7d'])) = b.stop
  /-- The quoted texts that it stands in. -/
  inside : List (Bool × Nat)
  /-- The tokens after the first brace. -/
  tokens : List Token
  /-- They are scanned there. -/
  scans : Token.Scans .code inside (front ++ ['\x7b']) (inner ++ '\x7d' :: behind) tokens
  /-- They come after others of the code. -/
  code : ∃ before, Token.code text.toList = before ++ tokens.filter fun t => !t.isComment
  /-- The nodes between the braces. -/
  nodes : List Tree
  /-- The tokens that are left after the body. -/
  rest : List Token
  /-- The body has the nodes below it. -/
  children : bareAll b.children = tokenLeaf (.punct .braceOpen) (spanAfter front ['\x7b'])
    :: (nodes ++ [tokenLeaf (.punct .braceClose) (spanAfter (front ++ '\x7b' :: inner) ['\x7d'])])
  /-- They were read up to the last brace. -/
  derives : Derives rules (inBraces kind) none (tokens.filter fun t => !t.isComment) nodes
    (⟨.punct .braceClose, spanAfter (front ++ '\x7b' :: inner) ['\x7d']⟩ :: rest)

theorem ne_afterAngle_of_brace {p r : Punct} (hr : r = .braceOpen ∨ r = .braceClose ∨ r = .semicolon)
    {q : Punct} (h : p.afterAngle? = some (some q)) : Lexeme.punct r ≠ .punct q := by
  rintro ⟨⟩
  cases p <;> cases h <;> simp at hr

/-- Tokens that begin with a brace or a semicolon are the last of those they
come after. -/
theorem Syntax.Follows.exists_append_of_brace {ts us : List Token} {r : Punct} {s : Span}
    (h : Follows ts (⟨.punct r, s⟩ :: us))
    (hr : r = .braceOpen ∨ r = .braceClose ∨ r = .semicolon) :
    ∃ before, ts = before ++ ⟨.punct r, s⟩ :: us :=
  h.exists_append fun t ht p q hq => by
    cases ht
    exact ne_afterAngle_of_brace hr hq

section Sound

variable {text : String} {tree c node b : Tree} {k : Kind}

/-- **A body is read from the tokens from one brace to another**, and all that is opened
before it or in it is closed there. -/
theorem exists_braces_of_body (hk : isDeclaration k = true) {ts rest : List Token}
    {nodes : List Tree} (h : Derives rules (body k) none ts nodes rest) (hb : b ∈ nodes)
    (hf : b.field = some .body) :
    ∃ kind ∈ bodyKinds, ∃ before opening between close inner,
      ts = before ++ ⟨.punct .braceOpen, opening⟩ :: (between ++ ⟨.punct .braceClose, close⟩ :: rest)
      ∧ nestAll? [] before = some [] ∧ nestAll? [] between = some []
      ∧ Derives rules (inBraces kind) none (between ++ ⟨.punct .braceClose, close⟩ :: rest) inner
        (⟨.punct .braceClose, close⟩ :: rest)
      ∧ b = (above (.named kind) (tokenLeaf (.punct .braceOpen) opening
        :: (inner ++ [tokenLeaf (.punct .braceClose) close]))).withField (some .body) := by
  obtain ⟨kind, hkind, us, cs, hus, hcs, heq⟩ := hasBody_declaration hk ts _ rest h b hb hf
  rw [body_eq_braces kind hkind] at hcs
  obtain ⟨_, vs, _, rfl, hopen, hrest⟩ := hcs.of_both
  obtain ⟨opening, rfl, rfl⟩ := hopen.of_mark
  obtain ⟨inner, mid, _, rfl, hinner, hclose⟩ := hrest.of_both
  obtain ⟨close, rfl, rfl⟩ := hclose.of_mark
  have hbrace : ∀ {p : Punct} {s : Span} {ts : List Token}, Lexeme.punct p ∉ remainders →
      ∀ t ∈ (⟨.punct p, s⟩ :: ts : List Token).head?, t.lexeme ∉ remainders := by
    rintro p s ts hp t ⟨⟩
    exact hp
  obtain ⟨before, hbefore, hnest⟩ := hus.exists_append (hbrace (by decide))
  obtain ⟨between, rfl, hnest'⟩ := (leads_of_isNested hinner (nest?_inBraces kind hkind)).exists_append
    (hbrace (by decide))
  exact ⟨kind, hkind, before, opening, between, close, inner, hbefore, hnest, hnest', hinner, heq⟩

/-- The same in the text of the declaration. -/
theorem exists_tokens_of_body (h : parseSound text = .ok tree) (hc : c ∈ tree.children)
    (hn : node ∈ c.preorder) (hl : node.label = .named k) (hk : isDeclaration k = true)
    (hb : node.child? .body = some b) :
    ∃ kind ∈ bodyKinds, ∃ before opening between close nodes rest,
      Token.code text.toList = before
        ++ ⟨.punct .braceOpen, opening⟩ :: (between ++ ⟨.punct .braceClose, close⟩ :: rest)
      ∧ Derives rules (inBraces kind) none (between ++ ⟨.punct .braceClose, close⟩ :: rest) nodes
        (⟨.punct .braceClose, close⟩ :: rest)
      ∧ b.bare = (above (.named kind) (tokenLeaf (.punct .braceOpen) opening
        :: (nodes ++ [tokenLeaf (.punct .braceClose) close]))).withField (some .body) := by
  have hparse := isParse_of_parseSound h
  obtain ⟨-, ts, rest, hfollows, hout⟩ := Target.exists_outcome_of_declaration h hc hn hl hk
  have hplaced : (body k).isPlaced false = true := isPlaced_rules (.node k)
  obtain ⟨hbare, hfield⟩ := bare_mem_of_child? hparse hc hn hb
  rw [← children_bare] at hbare
  obtain ⟨kind, hkind, front, opening, between, close, nodes, rfl, hfront, -, hinner, heq⟩ :=
    exists_braces_of_body hk (derives_of_outcome hplaced hout) hbare hfield
  obtain ⟨before, hcode⟩ :=
    (hfollows.trans (leads_of_nestAll? hfront _).follows).exists_append_of_brace (.inl rfl)
  exact ⟨kind, hkind, before, opening, between, close, nodes, rest, hcode, hinner, heq⟩

/-- **Scanning goes on in code after an opening brace and after a semicolon.** -/
theorem Syntax.Token.Scans.exists_after {m : Token.Mode} {i : List (Bool × Nat)}
    {mark cs : List Char} {as tokens : List Token} {p : Punct} {s : Span}
    (h : Token.Scans m i mark cs (as ++ ⟨.punct p, s⟩ :: tokens))
    (hp : p = .braceOpen ∨ p = .semicolon) :
    ∃ v d i', cs = v ++ (p.text.toList ++ d) ∧ s = spanAfter (mark ++ v) p.text.toList
      ∧ Token.Scans .code i' (mark ++ v ++ p.text.toList) d tokens := by
  obtain ⟨v, d, m, i, rfl, -, h, hstart⟩ := h.exists_passes nofun
  obtain ⟨n, m', i', hnext, hne, hstop, hrest⟩ := h.next_of_start nofun hstart
  have hstep := Token.step_next m i hne
  rw [hnext] at hstep
  obtain ⟨rfl, rfl, ⟨d, rfl⟩, hafter⟩ := hstep.of_barrier (by rcases hp with rfl | rfl <;> decide)
  have hcode : (Token.afterMark p i).1 = .code := by
    rcases hp with rfl | rfl <;> cases i <;> rfl
  rw [← hafter] at hcode
  obtain rfl : m' = .code := hcode
  have htake : (p.text.toList ++ d).take 1 = p.text.toList
      ∧ (p.text.toList ++ d).drop 1 = d := by
    rcases hp with rfl | rfl <;> exact ⟨rfl, rfl⟩
  rw [htake.1] at hstop hrest
  rw [htake.2] at hrest
  obtain ⟨start, stop⟩ := s
  obtain rfl : start = _ := hstart
  obtain rfl : stop = _ := hstop
  exact ⟨v, d, i', rfl, rfl, hrest⟩

/-- **The body of a declaration of a sound text is a body in it.** -/
theorem exists_braced (h : parseSound text = .ok tree) (hc : c ∈ tree.children)
    (hn : node ∈ c.preorder) (hl : node.label = .named k) (hk : isDeclaration k = true)
    (hb : node.child? .body = some b) : Nonempty (Braced text b) := by
  obtain ⟨kind, hkind, before, opening, between, close, nodes, rest, hcode, hinner, hbare⟩ :=
    exists_tokens_of_body h hc hn hl hk hb
  obtain ⟨mark, cs, htext, hscans, -⟩ := (isParse_of_parseSound h).exists_scans
  obtain ⟨as, tokens, hscan, -, htokens⟩ := Token.exists_of_filter_eq hcode
  rw [hscan] at hscans
  obtain ⟨v, d, inside, rfl, rfl, hafter⟩ := hscans.exists_after (.inl rfl)
  have hbrace : Punct.braceOpen.text.toList = ['\x7b'] := rfl
  rw [hbrace] at htext hcode hbare hafter
  -- the last brace stands after the first one
  have hlies := Token.lies_code text.toList
  have hpair := hlies.pairwise
  rw [hcode] at hlies hpair
  have hle := (List.pairwise_cons.1 (List.pairwise_append.1 hpair).2.1).1
    ⟨.punct .braceClose, close⟩ (List.mem_append_right _ List.mem_cons_self)
  obtain ⟨a, w, behind, hsplit, hw, hspan⟩ := hlies.exists_spelling
    (t := ⟨.punct .braceClose, close⟩) (by simp)
  obtain rfl : w = ['\x7d'] := hw
  rw [hspan, List.nil_append] at hle
  have hall : mark ++ v ++ ['\x7b'] ++ d = a ++ '\x7d' :: behind := by
    rw [← List.singleton_append (l := behind), ← hsplit, htext]
    simp
  obtain ⟨inner, rfl, rfl⟩ := Text.exists_append_of_byteLength hall hle
  have hclose : close = spanAfter (mark ++ v ++ '\x7b' :: inner) ['\x7d'] := by
    have hspan : close = _ := hspan
    rw [hspan]
    simp [spanAfter]
  subst hclose
  have hchildren : bareAll b.children = _ :=
    (children_bare b).symm.trans ((congrArg children hbare).trans (children_withField _ _))
  refine ⟨{
    kind, mem := hkind, front := mark ++ v, inner, behind, inside, tokens, nodes, rest
    text_eq := ?_
    start := ?_
    stop := ?_
    scans := hafter
    code := ⟨before ++ [_], by rw [htokens, hcode, List.append_cons]⟩
    children := hchildren
    derives := htokens ▸ hinner }⟩
  · rw [htext]
    simp
  · rw [Tree.start, ← span_bare, hbare, span_withField]
    rfl
  · have hlast := stop_above_append (.named kind)
      (tokenLeaf (.punct .braceOpen) (spanAfter (mark ++ v) ['\x7b']) :: nodes)
      (tokenLeaf (.punct .braceClose) (spanAfter (mark ++ v ++ '\x7b' :: inner) ['\x7d']))
    rw [Tree.stop, ← span_bare, hbare, span_withField]
    refine Eq.trans ?_ hlast.symm
    simp [tokenLeaf, leaf, Tree.stop, Tree.span, spanAfter]

end Sound

/-! ## Where a body ends -/

/-- **Characters that fill braces**: before a closing one they are scanned in code to
tokens that close what they open. -/
def Syntax.Token.Fills (mid : List Char) : Prop :=
  ∀ inside before after, ∃ ts, Token.Passes ('\x7d' :: after) .code inside before mid ts .code inside
    ∧ nestAll? [] ts = some [] ∧ crossAll? false .outer ts = some .outer

namespace Braced

variable {text : String} {b : Tree} (x : Braced text b)
include x

/-- **The text of a body** begins and ends with a brace. -/
theorem text_of_slice? {s : String} (h : Text.slice? text b.start b.stop = some s) :
    s.toList = '\x7b' :: (x.inner ++ ['\x7d']) := by
  obtain ⟨a, z, htext, ha, hstop⟩ := slice?_eq_some_iff.1 h
  have hlist : x.front ++ ('\x7b' :: (x.inner ++ ['\x7d']) ++ x.behind)
      = a.toList ++ (s.toList ++ z.toList) := by
    rw [← String.toList_append, ← String.toList_append, ← String.append_assoc, ← htext, x.text_eq]
    simp
  obtain ⟨-, hrest⟩ := append_inj_of_byteLength hlist (x.start.trans ha.symm)
  have hsize := x.stop
  rw [byteLength_append, x.start] at hsize
  refine (append_inj_of_byteLength hrest ?_).1.symm
  unfold size at hstop
  omega

/-- **The first brace that nothing in the body has opened ends it.** -/
theorem beyond_tokens : beyond false .outer (x.tokens.filter fun t => !t.isComment)
    = ⟨.punct .braceClose, spanAfter (x.front ++ '\x7b' :: x.inner) ['\x7d']⟩ :: x.rest :=
  (x.derives.beyond track?_of_isBalanced (track?_inBraces x.kind x.mem)).trans
    (beyond_cons_of_none rfl)

/-- What stands in the braces comes before the first token that is not crossed. -/
theorem inner_eq_of_beyond {mid after : List Char} {t : Token} {us : List Token}
    (h : x.inner ++ '\x7d' :: x.behind = mid ++ after)
    (hbeyond : beyond false .outer (x.tokens.filter fun t => !t.isComment) = t :: us)
    (ht : t.span.start = byteLength (x.front ++ '\x7b' :: mid)) : x.inner = mid := by
  obtain ⟨rfl, -⟩ := List.cons.inj (hbeyond.symm.trans x.beyond_tokens)
  refine (append_inj_of_byteLength h ?_).1
  simpa [spanAfter] using ht

/-- **Neither does a body begin with other braces, nor they with it**, if what is in
those is scanned in code to tokens with their braces closed and has no closing brace
in it, unless they are the same. -/
theorem inner_eq_of_begins {mid : List Char} (hfills : Token.Fills mid) (hmid : '\x7d' ∉ mid)
    (h : x.inner ++ ['\x7d'] <+: mid ++ ['\x7d'] ∨ mid ++ ['\x7d'] <+: x.inner ++ ['\x7d']) :
    x.inner = mid := by
  rcases h with ⟨r, hr⟩ | ⟨r, hr⟩
  · -- there is no brace before the last one
    rcases List.eq_nil_or_concat r with rfl | ⟨r, last, rfl⟩
    · rw [List.append_nil] at hr
      exact (List.append_inj' hr rfl).1
    · rw [List.concat_eq_append, ← List.append_assoc] at hr
      have hall := (List.append_inj' hr rfl).1
      exact absurd (by rw [← hall]; simp) hmid
  · -- the brace after the others ends the body
    have hsplit : x.inner ++ '\x7d' :: x.behind = mid ++ '\x7d' :: (r ++ x.behind) := by
      rw [List.append_cons, ← hr]
      simp
    have hscans := x.scans
    rw [hsplit] at hscans
    obtain ⟨ts, hpasses, -, hcross⟩ := hfills x.inside (x.front ++ ['\x7b']) (r ++ x.behind)
    obtain ⟨vs, hvs, hscans⟩ := hpasses.of_scans hscans
    have hbrace := Token.next_barrier (p := .braceClose) (by decide) x.inside (r ++ x.behind)
    obtain ⟨us, rfl, -⟩ := hscans.of_token nofun hbrace
    have hbeyond : ∀ s, beyond false .outer ((ts ++ ⟨.punct .braceClose, s⟩ :: us).filter
        fun t => !t.isComment) = ⟨.punct .braceClose, s⟩ :: us.filter fun t => !t.isComment := by
      intro s
      rw [List.filter_append, List.filter_cons_of_pos rfl,
        beyond_append ((Token.crossAll?_filter false .outer ts).trans hcross)]
      exact beyond_cons_of_none rfl
    exact x.inner_eq_of_beyond hsplit (hvs ▸ hbeyond _) (by simp)

end Braced

end JavaMutants
