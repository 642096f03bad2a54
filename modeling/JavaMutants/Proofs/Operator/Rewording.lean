import JavaMutants.Proofs.Text.Overlap
import JavaMutants.Syntax.Token
import Mathlib.Data.Bool.AllAny

/-!
# Exchanges that give the same text

The operators of this program exchange the mark of a comparison (`Swaps`), negate a
condition or a returned value (`Negates`), or give a declaration another body
(`Rebodies`). Two such exchanges at different places of one text never give the same
text, whether the places are apart (`Rewording.ne_of_apart`) or one of them lies in the
other (`Swaps.ne_of_within`, `Negates.ne_of_within`, `Rebodies.ne_of_within`).

If they did, what stands between the places would be made of the few marks that come and
go. Two things have to be known of the places themselves. What is negated goes on before
what is around it ends, and not with those marks alone: `(a)` in brackets and its negation
could not be told from `a` negated. And a body in a body neither begins nor ends with it.
-/

namespace JavaMutants

open Text

/-! ## What is exchanged for what -/

/-- The characters of operators and negations. -/
def exchangeMarks : List Char := ['<', '=', '>', '!', '(', ')']

/-- **The mark of a comparison becomes another one.** -/
inductive Swaps : List Char → List Char → Prop where
  /-- The boundary is taken in. -/
  | widened {c : Char} (hc : c = '<' ∨ c = '>') : Swaps [c] [c, '=']
  /-- The boundary is left out. -/
  | narrowed {c : Char} (hc : c = '<' ∨ c = '>') : Swaps [c, '='] [c]
  /-- A test of equality is turned round. -/
  | turned {c d : Char} (hc : c = '=' ∨ c = '!') (hd : d = '=' ∨ d = '!') (hne : c ≠ d) :
      Swaps [c, '='] [d, '=']

/-- **A text is negated**, which is not made of marks alone: two marks come before it and
one after it. -/
def Negates (old new : List Char) : Prop :=
  ∃ a, (a = ['(', '!'] ∨ a = ['!', '(']) ∧ new = a ++ (old ++ [')']) ∧ ∃ c ∈ old, c ∉ exchangeMarks

/-- **What has come into the braces of a body keeps a call** that stood in them, between
two blanks. Before the call there was nothing but blanks and comments. -/
structure KeepsCall (inner inner' call : List Char) : Prop where
  /-- The call stood in the braces. -/
  exists_parts : ∃ v w, inner = v ++ (call ++ w)
    ∧ ∀ c ∈ (v.dropWhile Syntax.Token.isSpace).head?, c = '/'
  /-- Now it stands between two blanks. -/
  kept : inner' = ' ' :: (call ++ [' '])
  /-- It begins with neither a blank nor a slash. -/
  head : ∃ c cs, call = c :: cs ∧ Syntax.Token.isSpace c = false ∧ c ≠ '/'
  /-- It ends with a semicolon. -/
  last : call.getLast? = some ';'

/-- **A body becomes another one.** -/
structure Rebodies (old new : List Char) : Prop where
  /-- Both are something in braces. In the braces of the new one there is neither a mark
  nor another brace, or there is a call that was there before. -/
  exists_braces : ∃ inner inner', old = '\x7b' :: (inner ++ ['\x7d'])
    ∧ new = '\x7b' :: (inner' ++ ['\x7d'])
    ∧ ((∀ c ∈ inner', c ∉ '\x7b' :: exchangeMarks) ∨ ∃ call, KeepsCall inner inner' call)
  /-- Neither begins with the other. -/
  apart : old <+: new ∨ new <+: old → new = old

/-- **What the operators make of a text.** -/
def Rewording (old new : List Char) : Prop :=
  Swaps old new ∨ Negates old new ∨ Rebodies old new

variable {x x' y y' o o' p q g r : List Char}

namespace Swaps

theorem subset (h : Swaps x x') : x ⊆ exchangeMarks ∧ x' ⊆ exchangeMarks := by
  cases h with
  | widened hc => rcases hc with rfl | rfl <;> decide
  | narrowed hc => rcases hc with rfl | rfl <;> decide
  | turned hc hd => rcases hc with rfl | rfl <;> rcases hd with rfl | rfl <;> decide

/-- The marks can be exchanged back. -/
theorem symm (h : Swaps x x') : Swaps x' x := by
  cases h with
  | widened hc => exact .narrowed hc
  | narrowed hc => exact .widened hc
  | turned hc hd hne => exact .turned hd hc hne.symm

/-- How long the marks are. -/
theorem length (h : Swaps x x') : x.length = 1 ∧ x'.length = 2 ∨ x.length = 2 ∧ x'.length = 1
    ∨ x.length = 2 ∧ x'.length = 2 := by
  cases h with
  | widened => exact .inl ⟨rfl, rfl⟩
  | narrowed => exact .inr (.inl ⟨rfl, rfl⟩)
  | turned => exact .inr (.inr ⟨rfl, rfl⟩)

end Swaps

theorem Negates.length (h : Negates x x') : x'.length = x.length + 3 := by
  obtain ⟨a, ha, rfl, -⟩ := h
  have hlength : a.length = 2 := by rcases ha with rfl | rfl <;> rfl
  simp only [List.length_append, hlength, List.length_singleton]
  omega

/-- A mark that comes in begins and ends with marks. -/
theorem Swaps.ends (h : Swaps x x') : (∃ c ∈ exchangeMarks, x'.head? = some c)
    ∧ ∃ c ∈ exchangeMarks, x'.getLast? = some c := by
  have hne : x' ≠ [] := by
    rintro rfl
    have hlength := h.length
    simp only [List.length_nil] at hlength
    omega
  exact ⟨⟨_, h.subset.2 (List.head_mem hne), List.head?_eq_some_head hne⟩,
    ⟨_, h.subset.2 (List.getLast_mem hne), List.getLast?_eq_some_getLast hne⟩⟩

theorem Negates.changed (h : Negates x x') : x' ≠ x := fun heq => by
  have hlength := h.length
  rw [heq] at hlength
  omega

/-- What is negated begins and ends with marks. -/
theorem Negates.ends (h : Negates x x') : (∃ c ∈ exchangeMarks, x'.head? = some c)
    ∧ ∃ c ∈ exchangeMarks, x'.getLast? = some c := by
  obtain ⟨a, ha, rfl, -⟩ := h
  refine ⟨?_, ')', by decide, by simp⟩
  rcases ha with rfl | rfl
  · exact ⟨'(', by decide, rfl⟩
  · exact ⟨'!', by decide, rfl⟩

/-- **What comes in begins with a mark or a brace.** -/
theorem Rewording.head (h : Rewording x x') : ∃ c ∈ '\x7b' :: exchangeMarks, x'.head? = some c := by
  rcases h with h | h | h
  · obtain ⟨⟨c, hc, hhead⟩, -⟩ := h.ends
    exact ⟨c, List.mem_cons_of_mem _ hc, hhead⟩
  · obtain ⟨⟨c, hc, hhead⟩, -⟩ := h.ends
    exact ⟨c, List.mem_cons_of_mem _ hc, hhead⟩
  · obtain ⟨-, inner', -, rfl, -⟩ := h.exists_braces
    exact ⟨_, List.mem_cons_self, rfl⟩

/-! ## Places that are apart -/

/-- **An equals sign before what ends in something else** is not one after it. -/
theorem ne_of_grown {c : Char} (hc : c ≠ '=') (g r : List Char) :
    '=' :: (g ++ c :: r) ≠ g ++ c :: '=' :: r := by
  intro h
  have h' : ('=' :: g ++ [c]) ++ r = (g ++ [c, '=']) ++ r := by simpa using h
  have hlast := congrArg List.getLast? (List.append_cancel_right h')
  simp only [List.getLast?_append] at hlast
  exact hc (Option.some.inj hlast)

/-- **Two marks that are apart** are not exchanged to the same effect. -/
theorem Swaps.ne_of_apart (hx : Swaps x x') (hy : Swaps y y') (g r : List Char) :
    x' ++ (g ++ (y ++ r)) ≠ x ++ (g ++ (y' ++ r)) := by
  intro h
  have hlength := congrArg List.length h
  have hylength := hy.length
  simp only [List.length_append] at hlength
  cases hx with
  | turned _ _ hne => exact hne (List.cons.inj (List.append_inj h rfl).1).1.symm
  | widened =>
    cases hy with
    | @widened d hd =>
      have hd' : d ≠ '=' := by rcases hd with rfl | rfl <;> decide
      exact ne_of_grown hd' g r (by simpa using h)
    | _ =>
      simp only [List.length_cons, List.length_nil] at hlength
      omega
  | narrowed =>
    cases hy with
    | @narrowed d hd =>
      have hd' : d ≠ '=' := by rcases hd with rfl | rfl <;> decide
      exact ne_of_grown hd' g r (by simpa using h.symm)
    | _ =>
      simp only [List.length_cons, List.length_nil] at hlength
      omega

/-- **Two exchanges at places that are apart** give different texts. -/
theorem Rewording.ne_of_apart (hx : Rewording x x') (hne : x' ≠ x) (hy : Rewording y y')
    (g r : List Char) : x' ++ (g ++ (y ++ r)) ≠ x ++ (g ++ (y' ++ r)) := by
  intro h
  obtain ⟨hbegins, hsub⟩ := Text.subset_of_exchanges h hne
  rcases hx with hx | ⟨a, ha, rfl, c, hc, hmark⟩ | hx
  · obtain ⟨hxs, hxs'⟩ := hx.subset
    rcases hy with hy | hy | hy
    · exact hx.ne_of_apart hy g r h
    · have hlength := congrArg List.length h
      have hxlength := hx.length
      have hylength := hy.length
      simp only [List.length_append] at hlength
      omega
    · -- the marks come before the brace that the body begins with
      obtain ⟨u, u', rfl, rfl, -⟩ := hy.exists_braces
      have hbrace : ∀ z ⊆ exchangeMarks, '\x7b' ∉ z ++ g := fun z hz hmem => by
        have hg : '\x7b' ∈ exchangeMarks := (List.mem_append.1 hmem).elim (fun h => hz h)
          fun h => (List.mem_append.1 (hsub h)).elim (fun h => hxs' h) fun h => hxs h
        exact absurd hg (by decide)
      have hfront : (x' ++ g) ++ '\x7b' :: (u ++ ['\x7d'] ++ r)
          = (x ++ g) ++ '\x7b' :: (u' ++ ['\x7d'] ++ r) := by simpa using h
      exact hne (List.append_cancel_right
        (Text.append_cons_inj_of_notMem (hbrace _ hxs') (hbrace _ hxs) hfront).1)
  · -- what is negated would be made of the two marks before it
    have hpos : a ≠ [] := by rcases ha with rfl | rfl <;> simp
    have hfront : x <+: a ++ (x ++ [')']) := hbegins.resolve_left fun hle => by
      have hle := hle.length_le
      simp only [List.length_append, List.length_singleton] at hle
      omega
    have hmem := Text.subset_of_prefix_append hpos
      (List.prefix_of_prefix_length_le hfront ⟨[')'], by simp⟩ (by simp)) hc
    rcases ha with rfl | rfl <;> simp only [List.mem_cons, List.not_mem_nil, or_false] at hmem <;>
      rcases hmem with rfl | rfl <;> exact hmark (by decide)
  · exact hne (hx.apart hbegins.symm)

/-! ## A place in the other -/

/-- **Nothing in a mark** is exchanged to the same effect as the mark. -/
theorem Swaps.ne_of_within (ho : Swaps o o') (hy : Rewording y y') (heq : o = p ++ (y ++ q))
    (hpq : p ≠ [] ∨ q ≠ []) : o' ≠ p ++ (y' ++ q) := by
  intro h
  have hlength := congrArg List.length heq
  have hlength' := congrArg List.length h
  have hpos : 0 < p.length + q.length := by
    rcases hpq with hp | hq
    · exact Nat.add_pos_left (List.length_pos_of_ne_nil hp) _
    · exact Nat.add_pos_right _ (List.length_pos_of_ne_nil hq)
  have holength := ho.length
  simp only [List.length_append] at hlength hlength'
  rcases hy with hy | hy | hy
  · have hylength := hy.length
    omega
  · have hylength := hy.length
    omega
  · obtain ⟨u, u', rfl, -⟩ := hy.exists_braces
    simp only [List.length_cons, List.length_append, List.length_nil] at hlength
    omega

/-- **What is in a negated text** is exchanged to another effect than the negation, if a
negation in it does not end where the text does but for marks. -/
theorem Negates.ne_of_within (ho : Negates o o')
    (hy : Swaps y y' ∨ (Negates y y' ∧ ∃ c ∈ q, c ∉ exchangeMarks) ∨ Rebodies y y')
    (heq : o = p ++ (y ++ q)) : o' ≠ p ++ (y' ++ q) := by
  intro h
  have hlength := congrArg List.length heq
  have hlength' := congrArg List.length h
  have holength := ho.length
  obtain ⟨a, ha, rfl, -⟩ := ho
  have halength : a.length = 2 := by rcases ha with rfl | rfl <;> rfl
  subst heq
  simp only [List.length_append] at hlength hlength' holength
  rcases hy with hy | ⟨⟨b, hb, rfl, -⟩, c, hc, hmark⟩ | hy
  · have hylength := hy.length
    omega
  · -- the closing brackets of the two negations are next to each other
    have hblength : b.length = 2 := by rcases hb with rfl | rfl <;> rfl
    have hparts : (a ++ p) ++ (y ++ (q ++ [')'])) = (p ++ b) ++ (y ++ ([')'] ++ q)) := by
      simpa using h
    obtain ⟨-, hrest⟩ := List.append_inj hparts (by simp [halength, hblength, Nat.add_comm])
    have hclose : q ++ [')'] = [')'] ++ (q ++ []) := by simpa using List.append_cancel_left hrest
    obtain rfl := List.mem_singleton.1 (Text.subset_of_append_eq hclose (List.cons_ne_nil _ _) hc)
    exact hmark (by decide)
  · -- the brace that ends the body is next to the closing bracket
    obtain ⟨u, u', rfl, rfl, -⟩ := hy.exists_braces
    have hparts : (a ++ (p ++ '\x7b' :: (u ++ ['\x7d']))) ++ (q ++ [')'])
        = (p ++ '\x7b' :: u') ++ ('\x7d' :: q) := by simpa using h
    obtain ⟨-, hrest⟩ := List.append_inj' hparts (by simp)
    have hclose : q ++ [')'] = ['\x7d'] ++ (q ++ []) := by simpa using hrest
    have hsub := Text.subset_of_append_eq hclose (List.cons_ne_nil _ _)
    have hmem : ')' ∈ '\x7d' :: q := by
      rw [← hrest]
      simp
    rcases List.mem_cons.1 hmem with hbrace | hmem
    · cases hbrace
    · cases List.mem_singleton.1 (hsub hmem)

/-- What stands before a kept call in the new body is one blank. If it has not changed,
that is all there was before, and what is exchanged lies in the call or goes on after
it. -/
theorem KeepsCall.exists_rest {inner inner' call : List Char} (h : KeepsCall inner inner' call)
    (hy : ∃ c ∈ '\x7b' :: exchangeMarks, y.head? = some c)
    (hy' : ∃ c ∈ '\x7b' :: exchangeMarks, y'.head? = some c)
    (heq : inner = p ++ (y ++ q)) (heq' : inner' = p ++ (y' ++ q)) :
    ∃ u w, u ≠ [] ∧ u.getLast? = some ';' ∧ u ++ w = y ++ q ∧ u ++ [' '] = y' ++ q := by
  have hother : ∀ c ∈ '\x7b' :: exchangeMarks, Syntax.Token.isSpace c = false ∧ c ≠ '/' :=
    List.all_iff_forall_prop.1 (by decide)
  obtain ⟨b, hb, hyb⟩ := hy
  obtain ⟨b', hb', hyb'⟩ := hy'
  obtain ⟨hbspace, hbslash⟩ := hother b hb
  obtain ⟨hbspace', -⟩ := hother b' hb'
  obtain ⟨y, rfl⟩ := List.head?_eq_some_iff.1 hyb
  obtain ⟨y', rfl⟩ := List.head?_eq_some_iff.1 hyb'
  obtain ⟨v, w, hinner, hv⟩ := h.exists_parts
  obtain ⟨c, cs, hcall, hspace, hslash⟩ := h.head
  have hold : v ++ (call ++ w) = p ++ (b :: y ++ q) := hinner.symm.trans heq
  have hnew : ' ' :: (call ++ [' ']) = p ++ (b' :: y' ++ q) := h.kept.symm.trans heq'
  have hblank : Syntax.Token.isSpace ' ' = true := rfl
  -- the blank comes first, before and after
  obtain ⟨p, rfl⟩ : ∃ z, p = ' ' :: z := by
    cases p with
    | nil =>
      rw [← (List.cons.inj hnew).1, hblank] at hbspace'
      cases hbspace'
    | cons d p => exact ⟨p, by rw [(List.cons.inj hnew).1]⟩
  obtain ⟨v, rfl⟩ : ∃ z, v = ' ' :: z := by
    cases v with
    | nil =>
      rw [hcall] at hold
      rw [(List.cons.inj hold).1, hblank] at hspace
      cases hspace
    | cons d v => exact ⟨v, by rw [(List.cons.inj hold).1]⟩
  have hold : v ++ (call ++ w) = p ++ (b :: y ++ q) := (List.cons.inj hold).2
  have hnew : call ++ [' '] = p ++ (b' :: y' ++ q) := (List.cons.inj hnew).2
  -- nothing comes between it and the call
  obtain rfl : v = [] := by
    cases v with
    | nil => rfl
    | cons d v =>
      have hd : Syntax.Token.isSpace d = true ∨ d = '/' := by
        cases hds : Syntax.Token.isSpace d with
        | true => exact .inl rfl
        | false => exact .inr (hv d (by simp [hblank, hds]))
      cases p with
      | nil =>
        obtain rfl := (List.cons.inj hold).1
        exact absurd hd (by simp [hbspace, hbslash])
      | cons e p =>
        obtain rfl := (List.cons.inj hold).1
        rw [hcall] at hnew
        obtain rfl := (List.cons.inj hnew).1
        exact absurd hd (by simp [hspace, hslash])
  have hafter : ∀ r, [' '] = r ++ (b' :: y' ++ q) → False := fun r hr => by
    cases r with
    | nil =>
      rw [← (List.cons.inj hr).1, hblank] at hbspace'
      cases hbspace'
    | cons d r => simp at hr
  rcases List.append_eq_append_iff.1 hnew with ⟨r, -, hr⟩ | ⟨u, rfl, hu⟩
  · exact (hafter r hr).elim
  · have hne : u ≠ [] := by
      rintro rfl
      exact hafter [] hu.symm
    refine ⟨u, w, hne, ?_, ?_, hu.symm⟩
    · rw [← h.last, List.getLast?_append_of_ne_nil _ hne]
    · rw [List.nil_append, List.append_assoc] at hold
      exact List.append_cancel_left hold

/-- A mark in a body that keeps a call is exchanged to another effect than the body. -/
theorem Swaps.ne_of_kept {u w : List Char} (hy : Swaps y y') (hne : u ≠ [])
    (hlast : u.getLast? = some ';') (hold : u ++ w = y ++ q) : u ++ [' '] ≠ y' ++ q := by
  intro hnew
  obtain ⟨c, u, rfl⟩ := List.exists_cons_of_ne_nil hne
  cases hy with
  | turned _ _ hcd => exact hcd ((List.cons.inj hold).1.symm.trans (List.cons.inj hnew).1)
  | @widened d hd =>
    have hold : u ++ w = q := (List.cons.inj hold).2
    have hnew : u ++ [' '] = '=' :: q := (List.cons.inj hnew).2
    have hlength := congrArg List.length hold
    have hlength' := congrArg List.length hnew
    simp only [List.length_append, List.length_cons, List.length_nil] at hlength hlength'
    obtain rfl : w = [] := List.eq_nil_of_length_eq_zero (by omega)
    obtain rfl : u = q := by simpa using hold
    have hsub : u ⊆ ['='] := Text.subset_of_append_eq
      (show u ++ [' '] = ['='] ++ (u ++ []) by simpa using hnew) (List.cons_ne_nil _ _)
    have hmem : ' ' ∈ '=' :: u := by
      rw [← hnew]
      simp
    rcases List.mem_cons.1 hmem with heq | hmem
    · cases heq
    · cases List.mem_singleton.1 (hsub hmem)
  | @narrowed d hd =>
    obtain ⟨rfl, hrest⟩ := List.cons.inj hold
    obtain rfl : u ++ [' '] = q := (List.cons.inj hnew).2
    have hrest : u ++ w = ['='] ++ (u ++ [' ']) := hrest
    have hsub : u ⊆ ['='] := Text.subset_of_append_eq hrest (List.cons_ne_nil _ _)
    rcases List.mem_cons.1 (List.mem_of_getLast? hlast) with rfl | hmem
    · rcases hd with hd | hd <;> cases hd
    · cases List.mem_singleton.1 (hsub hmem)

/-- A body in a body that keeps a call is exchanged to another effect than that body. -/
theorem Rebodies.ne_of_kept {u w : List Char} (hy : Rebodies y y') (hchanged : y' ≠ y)
    (hold : u ++ w = y ++ q) : u ++ [' '] ≠ y' ++ q := by
  intro hnew
  have hbegins : y' <+: u := by
    rcases List.prefix_concat_iff.1 (show y' <+: u ++ [' '] from hnew ▸ List.prefix_append y' q)
      with heq | hbegins
    · obtain ⟨i, i', -, rfl, -⟩ := hy.exists_braces
      have hlast := congrArg List.getLast? heq
      rw [← List.cons_append, List.getLast?_concat, List.getLast?_concat] at hlast
      cases hlast
    · exact hbegins
  have hapart := List.prefix_or_prefix_of_prefix
    (show y <+: u ++ w from hold ▸ List.prefix_append y q) (List.prefix_append u w)
  rcases hapart with hle | hle
  · exact hchanged (hy.apart (List.prefix_or_prefix_of_prefix hle hbegins))
  · exact hchanged (hy.apart (.inr (hbegins.trans hle)))

/-- **What is in a body** is exchanged to another effect than the body, if a body in it
has something around it. -/
theorem Rebodies.ne_of_within (ho : Rebodies o o')
    (hy : Swaps y y' ∨ Negates y y' ∨ (Rebodies y y' ∧ p ≠ [] ∧ q ≠ [])) (hchanged : y' ≠ y)
    (heq : o = p ++ (y ++ q)) : o' ≠ p ++ (y' ++ q) := by
  intro heq'
  have hrewording : Rewording y y' := hy.imp id (Or.imp id And.left)
  obtain ⟨inner, inner', rfl, rfl, hinner⟩ := ho.exists_braces
  -- the braces are around what is exchanged
  have hmarks : ((∃ c ∈ exchangeMarks, y'.head? = some c) ∧ ∃ c ∈ exchangeMarks, y'.getLast? = some c)
      → p ≠ [] ∧ q ≠ [] := by
    rintro ⟨⟨c, hc, hhead⟩, d, hd, hlast⟩
    constructor
    · rintro rfl
      have hfirst := congrArg List.head? heq'
      rw [List.nil_append, List.head?_append, hhead] at hfirst
      rw [← Option.some.inj hfirst] at hc
      exact absurd hc (by decide)
    · rintro rfl
      have hend := congrArg List.getLast? heq'
      rw [List.append_nil, List.getLast?_append, hlast, ← List.cons_append,
        List.getLast?_concat] at hend
      rw [← Option.some.inj hend] at hd
      exact absurd hd (by decide)
  obtain ⟨hp, hq⟩ : p ≠ [] ∧ q ≠ [] := by
    rcases hy with hy | hy | ⟨-, hpq⟩
    · exact hmarks hy.ends
    · exact hmarks hy.ends
    · exact hpq
  obtain ⟨b, p, rfl⟩ := List.exists_cons_of_ne_nil hp
  have hin : ∀ z i, '\x7b' :: (i ++ ['\x7d']) = b :: p ++ (z ++ q) → i = p ++ (z ++ q.dropLast) := by
    intro z i h
    have h' := congrArg List.dropLast (List.cons.inj h).2
    simpa [List.dropLast_append_of_ne_nil, hq] using h'
  have hold := hin _ _ heq
  have hnew := hin _ _ heq'
  rcases hinner with hplain | ⟨call, hkeeps⟩
  · obtain ⟨c, hc, hhead⟩ := hrewording.head
    exact hplain c (hnew ▸ by simp [List.mem_of_head? hhead]) hc
  · have hparts := fun hhead => hkeeps.exists_rest hhead hrewording.head hold hnew
    rcases hy with hy | hy | ⟨hy, -⟩
    · obtain ⟨⟨c, hc, hhead⟩, -⟩ := hy.symm.ends
      obtain ⟨u, w, hne, hlast, hrest, hrest'⟩ := hparts ⟨c, List.mem_cons_of_mem _ hc, hhead⟩
      exact hy.ne_of_kept hne hlast hrest hrest'
    · -- the negation alone is longer than the two blanks
      obtain ⟨v, w, rfl, -⟩ := hkeeps.exists_parts
      have hlength := congrArg List.length hold
      have hlength' := congrArg List.length (hkeeps.kept.symm.trans hnew)
      have hylength := hy.length
      simp only [List.length_append, List.length_cons, List.length_nil] at hlength hlength'
      omega
    · have hbrace : ∃ c ∈ '\x7b' :: exchangeMarks, y.head? = some c := by
        obtain ⟨i, -, rfl, -⟩ := hy.exists_braces
        exact ⟨_, List.mem_cons_self, rfl⟩
      obtain ⟨u, w, -, -, hrest, hrest'⟩ := hparts hbrace
      exact hy.ne_of_kept hchanged hrest hrest'

end JavaMutants
