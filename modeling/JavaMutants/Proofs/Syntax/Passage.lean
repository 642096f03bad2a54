import JavaMutants.Proofs.Syntax.Locality
import JavaMutants.Proofs.Syntax.Lookahead
import Mathlib.Algebra.GroupWithZero.Nat
import Mathlib.Data.List.Forall2

/-!
# The same tokens elsewhere

Characters whose braces are closed are scanned to the same tokens wherever
they stand in code, in whatever depth of quoted texts, and whatever comes
before and after them (`Token.Scans.exists_moved`). So a declaration that is
taken out of its text keeps its tokens.

Scanning passes over characters if steps lead from the first of them to what
comes after (`Passes`). Two things that are left behind might matter to a
step. The quoted texts that code stands in tell what a closing brace ends,
but not as long as no brace is closed that was opened before (`Nests`). And
what comes after a brace or a semicolon does not matter to what ends there.
-/

namespace JavaMutants.Syntax

open Text

namespace Token

/-- **Scanning passes over characters** that something comes after, from one
state to another. -/
inductive Passes (after : List Char) : Mode → List (Bool × Nat) → List Char → List Char →
    List Token → Mode → List (Bool × Nat) → Prop where
  /-- There are none. -/
  | nil {mode inside before} : Passes after mode inside before [] [] mode inside
  /-- Characters are skipped. -/
  | skip {mode inside before w v mode₁ inside₁ ts mode' inside'}
      (hs : next mode inside (w ++ (v ++ after)) = (none, w.length, mode₁, inside₁))
      (hw : w ≠ []) (h : Passes after mode₁ inside₁ (before ++ w) v ts mode' inside') :
      Passes after mode inside before (w ++ v) ts mode' inside'
  /-- Characters are those of a token. -/
  | token {mode inside before w v x mode₁ inside₁ ts mode' inside'}
      (hs : next mode inside (w ++ (v ++ after)) = (some x, w.length, mode₁, inside₁))
      (hw : w ≠ []) (h : Passes after mode₁ inside₁ (before ++ w) v ts mode' inside') :
      Passes after mode inside before (w ++ v)
        (⟨x, ⟨byteLength before, byteLength (before ++ w)⟩⟩ :: ts) mode' inside'

section Passes

variable {m m₁ m' : Mode} {i i₁ i' : List (Bool × Nat)} {before after cs v v' : List Char}
  {ts us : List Token} {t : Token}

/-- Scanning goes on after what was passed over. -/
theorem Passes.scans (h : Passes after m i before v ts m' i')
    (h' : Scans m' i' (before ++ v) after us) : Scans m i before (v ++ after) (ts ++ us) := by
  induction h with
  | nil => simpa using h'
  | skip hs hw _ ih =>
    rw [List.append_assoc]
    refine .skip hs ?_ ?_
    · rwa [List.take_left]
    · rw [List.take_left, List.drop_left]
      exact ih (by rwa [List.append_assoc])
  | @token m i before w v x mode₁ inside₁ ts _ _ hs hw _ ih =>
    have hrest : Scans mode₁ inside₁ (before ++ (w ++ (v ++ after)).take w.length)
        ((w ++ (v ++ after)).drop w.length) (ts ++ us) := by
      rw [List.take_left, List.drop_left]
      exact ih (by rwa [List.append_assoc])
    have htoken := Scans.token hs (by rwa [List.take_left]) hrest
    rw [List.take_left] at htoken
    rwa [List.append_assoc]

theorem Passes.trans (h : Passes (v' ++ after) m i before v ts m₁ i₁)
    (h' : Passes after m₁ i₁ (before ++ v) v' us m' i') :
    Passes after m i before (v ++ v') (ts ++ us) m' i' := by
  induction h with
  | nil => simpa using h'
  | @skip _ _ _ w v _ _ _ _ _ hs hw _ ih =>
    rw [List.append_assoc]
    rw [← List.append_assoc v] at hs
    exact .skip hs hw (ih (by rwa [List.append_assoc]))
  | @token _ _ _ w v _ _ _ _ _ _ hs hw _ ih =>
    rw [List.append_assoc]
    rw [← List.append_assoc v] at hs
    exact .token hs hw (ih (by rwa [List.append_assoc]))

/-- Nothing is scanned where nothing is passed over. -/
theorem Passes.eq_nil (h : Passes after m i before v ts m' i') (hv : v = []) : ts = [] := by
  cases h with
  | nil => rfl
  | skip _ hw => exact absurd (List.append_eq_nil_iff.1 hv).1 hw
  | token _ hw => exact absurd (List.append_eq_nil_iff.1 hv).1 hw

/-- **What is passed over is scanned first.** -/
theorem Passes.of_scans (h : Passes after m i before v ts m' i')
    (h' : Scans m i before (v ++ after) us) :
    ∃ vs, us = ts ++ vs ∧ Scans m' i' (before ++ v) after vs := by
  induction h generalizing us with
  | nil => exact ⟨us, rfl, by simpa using h'⟩
  | @skip _ _ _ w v _ _ _ _ _ hs hw _ ih =>
    have hne : w ++ v ++ after ≠ [] := fun hnil => hw
      (List.append_eq_nil_iff.1 (List.append_eq_nil_iff.1 hnil).1).1
    obtain ⟨-, hrest⟩ := h'.of_skip hne (by rw [List.append_assoc]; exact hs)
    rw [List.append_assoc, List.take_left, List.drop_left] at hrest
    obtain ⟨vs, rfl, hvs⟩ := ih hrest
    exact ⟨vs, rfl, by rwa [← List.append_assoc]⟩
  | @token _ _ _ w v _ _ _ _ _ _ hs hw _ ih =>
    have hne : w ++ v ++ after ≠ [] := fun hnil => hw
      (List.append_eq_nil_iff.1 (List.append_eq_nil_iff.1 hnil).1).1
    obtain ⟨us, rfl, hrest⟩ := h'.of_token hne (by rw [List.append_assoc]; exact hs)
    rw [List.append_assoc, List.take_left] at hrest ⊢
    rw [List.drop_left] at hrest
    obtain ⟨vs, rfl, hvs⟩ := ih hrest
    exact ⟨vs, rfl, by rwa [← List.append_assoc]⟩

/-- Nothing but the end is scanned where there are no characters. -/
theorem Scans.eq_of_nil (h : Scans m i before [] ts) : ∃ s, ts = [⟨.finish, s⟩] := by
  cases h with
  | done => exact ⟨_, rfl⟩
  | skip _ hn => exact absurd List.take_nil hn
  | token _ hn => exact absurd List.take_nil hn

/-- **Scanning up to a token** passes over what comes before it. -/
theorem Scans.exists_passes (h : Scans m i before cs (ts ++ t :: us))
    (hfin : t.lexeme ≠ .finish) :
    ∃ v c m' i', cs = v ++ c ∧ Passes c m i before v ts m' i'
      ∧ Scans m' i' (before ++ v) c (t :: us) ∧ t.span.start = byteLength (before ++ v) := by
  -- a step that a token comes after does not reach the end of the text
  have hlength : ∀ {m i before n ts} {cs : List Char},
      Scans m i before (cs.drop n) (ts ++ t :: us) → (cs.take n).length = n := by
    intro m i before n ts cs h
    rw [List.length_take, Nat.min_eq_left]
    by_contra hlt
    rw [List.drop_eq_nil_of_le (by omega)] at h
    obtain ⟨s, hs⟩ := h.eq_of_nil
    cases ts with
    | nil => exact hfin (by rw [(List.cons.inj hs).1])
    | cons u ts => simp at hs
  generalize hvs : ts ++ t :: us = vs at h
  induction h generalizing ts with
  | @done mode inside before =>
    cases ts with
    | nil => exact absurd (by rw [(List.cons.inj hvs).1]) hfin
    | cons u ts => simp at hvs
  | @skip mode inside before cs n mode₁ inside₁ vs hs hn h ih =>
    subst hvs
    obtain ⟨v, c, m', i', hc, hpass, hscans, hstart⟩ := ih rfl
    refine ⟨cs.take n ++ v, c, m', i', ?_, .skip ?_ hn hpass, ?_, ?_⟩
    · rw [List.append_assoc, ← hc, List.take_append_drop]
    · rw [← hc, List.take_append_drop, hlength h]
      exact hs
    · rwa [← List.append_assoc]
    · rwa [← List.append_assoc]
  | @token mode inside before cs x n mode₁ inside₁ vs hs hn h ih =>
    cases ts with
    | nil =>
      obtain ⟨rfl, rfl⟩ := List.cons.inj hvs
      refine ⟨[], cs, mode, inside, rfl, .nil, ?_, by rw [List.append_nil]⟩
      rw [List.append_nil]
      exact .token hs hn h
    | cons u ts =>
      obtain ⟨rfl, rfl⟩ := List.cons.inj hvs
      obtain ⟨v, c, m', i', hc, hpass, hscans, hstart⟩ := ih rfl
      refine ⟨cs.take n ++ v, c, m', i', ?_, .token ?_ hn hpass, ?_, ?_⟩
      · rw [List.append_assoc, ← hc, List.take_append_drop]
      · rw [← hc, List.take_append_drop, hlength h]
        exact hs
      · rwa [← List.append_assoc]
      · rwa [← List.append_assoc]

/-- What is scanned where a token begins is that token. -/
theorem Scans.next_of_start (h : Scans m i before cs (t :: us)) (hfin : t.lexeme ≠ .finish)
    (hstart : t.span.start = byteLength before) :
    ∃ n m' i', next m i cs = (some t.lexeme, n, m', i') ∧ cs ≠ []
      ∧ t.span.stop = byteLength (before ++ cs.take n)
      ∧ Scans m' i' (before ++ cs.take n) (cs.drop n) us := by
  cases h with
  | done => exact absurd rfl hfin
  | skip _ hn h =>
    have hle := h.le_start List.mem_cons_self
    have hpos := byteLength_pos hn
    rw [hstart, byteLength_append] at hle
    omega
  | token hs hn h =>
    refine ⟨_, _, _, hs, ?_, rfl, h⟩
    rintro rfl
    exact hn List.take_nil

end Passes

/-! ## Quoted texts around -/

/-- The quoted texts that code stands in, with more braces open in the
innermost. -/
def raise (n : Nat) : List (Bool × Nat) → List (Bool × Nat)
  | [] => []
  | (triple, depth) :: outer => (triple, depth + n) :: outer

/-- How many braces are open in some quoted texts, with those that begin
their code. -/
def weight (inside : List (Bool × Nat)) : Nat := (inside.map fun x => x.2 + 1).sum

@[simp] theorem weight_cons (triple : Bool) (depth : Nat) (outer : List (Bool × Nat)) :
    weight ((triple, depth) :: outer) = depth + 1 + weight outer := by
  simp [weight]

/-- **Code stands in quoted texts that began within others**: those within
and the braces between account for all braces that are open. -/
def Nests (outer : List (Bool × Nat)) (depth : Nat) (inner whole : List (Bool × Nat)) : Prop :=
  ∃ d, depth = d + weight inner ∧ whole = inner ++ raise d outer

theorem Nests.start (outer : List (Bool × Nat)) : Nests outer 0 [] outer := by
  refine ⟨0, rfl, ?_⟩
  cases outer <;> rfl

/-- Where no brace is open, code stands where it began. -/
theorem Nests.eq_of_zero {outer inner whole : List (Bool × Nat)} (h : Nests outer 0 inner whole) :
    inner = [] ∧ whole = outer := by
  obtain ⟨d, hd, rfl⟩ := h
  obtain ⟨rfl, hw⟩ : d = 0 ∧ weight inner = 0 := by omega
  cases inner with
  | nil => exact ⟨rfl, by cases outer <;> rfl⟩
  | cons x inner =>
    rw [weight_cons] at hw
    omega

section Steps

variable {outer inner inner' whole whole' : List (Bool × Nat)} {m m' : Mode} {cs : List Char} {x : Lexeme}
  {n : Nat} {d e : Depth}

theorem Nests.afterMark {p : Punct} (h : Nests outer d.brace inner whole) (hi : p ≠ .interpolate)
    (hx : (Lexeme.punct p).cross? false d = some e) :
    ∃ inner', Token.afterMark p inner = ((Token.afterMark p whole).1, inner')
      ∧ Nests outer e.brace inner' (Token.afterMark p whole).2 := by
  obtain ⟨k, hk, rfl⟩ := h
  cases p with
  | interpolate => exact absurd rfl hi
  | braceOpen =>
    cases hx
    cases inner with
    | nil =>
      refine ⟨[], ?_, k + 1, congrArg (· + 1) hk, ?_⟩
      · cases outer <;> rfl
      · cases outer <;> rfl
    | cons x inner =>
      refine ⟨(x.1, x.2 + 1) :: inner, rfl, k, ?_, rfl⟩
      rw [weight_cons] at hk ⊢
      show d.brace + 1 = _
      omega
  | braceClose =>
    rw [Lexeme.cross?] at hx
    split at hx
    next => cases hx
    next hd =>
      cases hx
      cases inner with
      | nil =>
        -- a brace is closed that was opened in between
        obtain ⟨k, rfl⟩ : ∃ j, k = j + 1 := Nat.exists_eq_succ_of_ne_zero fun hz => hd (by
          rw [hk, hz]
          rfl)
        have hdepth : d.brace - 1 = k + weight [] := by rw [hk]; rfl
        refine ⟨[], ?_, k, hdepth, ?_⟩
        · cases outer <;> rfl
        · cases outer <;> rfl
      | cons x inner =>
        obtain ⟨triple, depth⟩ := x
        rw [weight_cons] at hk
        cases depth with
        | zero => exact ⟨inner, rfl, k, by show d.brace - 1 = _; omega, rfl⟩
        | succ depth =>
          refine ⟨(triple, depth) :: inner, rfl, k, ?_, rfl⟩
          rw [weight_cons]
          show d.brace - 1 = _
          omega
  | parenClose =>
    rw [Lexeme.cross?] at hx
    split at hx
    next => cases hx
    next =>
      cases hx
      exact ⟨inner, rfl, k, hk, rfl⟩
  | _ =>
    cases hx
    exact ⟨inner, rfl, k, hk, rfl⟩

/-- **A step that keeps count of braces does the same** within the quoted
texts that began outside and without them. -/
theorem Nests.of_step (h : Nests outer d.brace inner whole)
    (hs : Step m whole cs (some x, n, m', whole')) (hx : x.cross? false d = some e) :
    ∃ inner', advance m inner (some x) = (m', inner') ∧ Nests outer e.brace inner' whole' := by
  generalize hr : (some x, n, m', whole') = r at hs
  cases hs with
  | space => cases hr
  | lineComment | blockComment =>
    cases hr
    cases hx
    exact ⟨inner, rfl, h⟩
  | plain hplain =>
    cases hr
    refine ⟨inner, ?_, ?_⟩
    · cases x <;> first | rfl | cases hplain
    · cases x <;> first | (cases hx; exact h) | cases hplain
  | mark hi hp =>
    obtain ⟨hy, hr₁⟩ := Prod.mk.inj hr
    obtain ⟨-, hr₂⟩ := Prod.mk.inj hr₁
    cases hy
    obtain ⟨inner', hinner, hnests⟩ := h.afterMark hi hx
    rw [← hr₂] at hinner hnests
    exact ⟨inner', hinner, hnests⟩
  | @close triple =>
    cases hr
    refine ⟨inner, ?_, ?_⟩
    · cases triple <;> rfl
    · cases triple <;> (cases hx; exact h)
  | interpolate =>
    cases hr
    cases hx
    obtain ⟨k, hk, rfl⟩ := h
    refine ⟨(_, 0) :: inner, rfl, k, ?_, rfl⟩
    rw [weight_cons]
    show d.brace + 1 = _
    omega

/-- **A quoted text that was begun ends in a mark**: it is still open after a
step, or the step is over that mark. -/
theorem Step.quote_mem (hs : Step m whole cs (some x, n, m', whole'))
    (hadvance : advance m inner (some x) = (m', inner')) (h : m ≠ .code ∨ inner ≠ []) :
    (m' ≠ .code ∨ inner' ≠ []) ∨ '"' ∈ cs.take n := by
  generalize hr : (some x, n, m', whole') = r at hs
  cases hs with
  | space => cases hr
  | lineComment | blockComment =>
    cases hr
    cases hadvance
    exact .inl h
  | plain hplain =>
    cases hr
    cases x <;> first | (cases hadvance; exact .inl h) | cases hplain
  | @mark _ _ p =>
    cases (Prod.mk.inj hr).1
    have hafter : afterMark p inner = (m', inner') := hadvance
    obtain ⟨y, ys, rfl⟩ := List.exists_cons_of_ne_nil (h.resolve_left fun h => h rfl)
    unfold afterMark at hafter
    split at hafter
    all_goals
      cases hafter
      first | exact .inl (.inr (List.cons_ne_nil _ _)) | exact .inl (.inl nofun)
  | @close triple _ _ hp =>
    cases hr
    refine .inr ?_
    rw [take_of_begins hp]
    cases triple <;> decide
  | interpolate =>
    cases hr
    cases hadvance
    exact .inl (.inr (List.cons_ne_nil _ _))

end Steps

/-! ## Passing over the same characters elsewhere -/

/-- What a step scans before a barrier is scanned elsewhere, too. -/
theorem next_moved {e : Char} {w v B B' : List Char} {m m' : Mode} {whole whole' : List (Bool × Nat)}
    {x : Option Lexeme} (he : e ∈ barriers) (hw : w ≠ [])
    (h : next m whole (w ++ (v ++ e :: B)) = (x, w.length, m', whole')) (hx : x ≠ some .stray)
    (hq : m' ≠ .code → '"' ∈ v)
    (hclose : ∀ k, blockCommentLength k B = none → blockCommentLength k B' = none)
    (inner : List (Bool × Nat)) :
    next m inner (w ++ (v ++ e :: B')) = (x, w.length, advance m inner x) := by
  have hne : w ++ v ≠ [] := fun hnil => hw (List.append_eq_nil_iff.1 hnil).1
  rw [← List.append_assoc] at h
  have hmoved := next_append he hne h (by simp) hx (by rwa [List.drop_left]) hclose
  obtain ⟨y, k, hall⟩ := next_eq_advance m (w ++ v ++ e :: B')
  obtain ⟨rfl, hk⟩ := Prod.mk.inj ((hall whole).symm.trans hmoved)
  obtain ⟨rfl, -⟩ := Prod.mk.inj hk
  rw [← List.append_assoc]
  exact hall inner

/-- Where something is skipped, scanning goes on as before. -/
theorem eq_of_next_none {m m' : Mode} {i i' : List (Bool × Nat)} {cs : List Char} {n : Nat}
    (h : next m i cs = (none, n, m', i')) : m' = m ∧ i' = i := by
  obtain ⟨y, k, hall⟩ := next_eq_advance m cs
  obtain ⟨rfl, hk⟩ := Prod.mk.inj ((hall i).symm.trans h)
  cases (Prod.mk.inj hk).2
  exact ⟨rfl, rfl⟩

theorem Moved.of_add {a b k : Nat} {t u : Token} (h : Moved (a + k) (b + k) t u) :
    Moved a b t u :=
  ⟨h.lexeme, by have h₁ := h.start; omega, by have h₁ := h.stop; omega⟩

/-- **Characters before a barrier are passed over in the same way elsewhere**,
if all braces opened among them are closed among them. -/
theorem Passes.moved {e : Char} {B B' : List Char} (he : e ∈ barriers)
    (hclose : ∀ k, blockCommentLength k B = none → blockCommentLength k B' = none)
    {outer : List (Bool × Nat)} {m : Mode} {whole whole' : List (Bool × Nat)}
    {before v : List Char} {ts : List Token}
    {m' : Mode} (h : Passes (e :: B) m whole before v ts m' whole') (hcode : m' = .code) {d d' : Depth}
    (hcross : crossAll? false d ts = some d') (hd : d'.brace = 0) {inner : List (Bool × Nat)}
    (hnests : Nests outer d.brace inner whole) (hstray : ∀ t ∈ ts, t.lexeme ≠ .stray) :
    whole' = outer ∧ (m ≠ .code ∨ inner ≠ [] → '"' ∈ v) ∧ ∀ before', ∃ ts',
      List.Forall₂ (Moved (byteLength before) (byteLength before')) ts ts'
        ∧ Passes (e :: B') m inner before' v ts' .code [] := by
  induction h generalizing d inner with
  | nil =>
    subst hcode
    cases hcross
    rw [hd] at hnests
    obtain ⟨rfl, rfl⟩ := hnests.eq_of_zero
    exact ⟨rfl, fun h => absurd rfl (h.resolve_left fun h => h rfl), fun before' => ⟨[], .nil, .nil⟩⟩
  | @skip mode inside before w v m₁ inside₁ ts m' inside' hs hw h ih =>
    obtain ⟨rfl, rfl⟩ := eq_of_next_none hs
    obtain ⟨hend, hquote, hall⟩ := ih hcode hcross hnests hstray
    refine ⟨hend, fun h => List.mem_append_right w (hquote h), fun before' => ?_⟩
    obtain ⟨ts', hmoved, hpasses⟩ := hall (before' ++ w)
    have hs' := next_moved he hw hs nofun (fun h => hquote (.inl h)) hclose inner
    refine ⟨ts', hmoved.imp fun t u h => ?_, .skip hs' hw hpasses⟩
    rw [byteLength_append, byteLength_append] at h
    exact h.of_add
  | @token mode inside before w v x m₁ inside₁ ts m' inside' hs hw h ih =>
    obtain ⟨hx, hstray⟩ := List.forall_mem_cons.1 hstray
    obtain ⟨d₁, hd₁, hcross⟩ := Option.bind_eq_some_iff.1 hcross
    have hne : w ++ (v ++ e :: B) ≠ [] := by simp
    have hstep := step_next mode inside hne
    rw [hs] at hstep
    obtain ⟨inner₁, hadvance, hnests₁⟩ := hnests.of_step hstep hd₁
    obtain ⟨hend, hquote, hall⟩ := ih hcode hcross hnests₁ hstray
    refine ⟨hend, fun h => ?_, fun before' => ?_⟩
    · rcases hstep.quote_mem hadvance h with h | h
      · exact List.mem_append_right w (hquote h)
      · rw [List.take_left] at h
        exact List.mem_append_left v h
    · obtain ⟨ts', hmoved, hpasses⟩ := hall (before' ++ w)
      have hs' := next_moved he hw hs (fun hy => hx (Option.some.inj hy))
        (fun h => hquote (.inl h)) hclose inner
      rw [hadvance] at hs'
      refine ⟨⟨x, ⟨byteLength before', byteLength (before' ++ w)⟩⟩ :: ts',
        .cons ⟨rfl, ?_, ?_⟩ (hmoved.imp fun t u h => ?_), .token hs' hw hpasses⟩
      · exact Nat.add_comm _ _
      · simp only [byteLength_append]
        omega
      · rw [byteLength_append, byteLength_append] at h
        exact h.of_add

/-! ## Tokens with their braces closed -/

/-- The marks that are barriers. -/
def barrierMarks : List Punct := [.braceOpen, .braceClose, .semicolon]

theorem exists_barrier : ∀ p ∈ barrierMarks, ∃ e ∈ barriers, p.text.toList = [e] := by
  simp only [barrierMarks, List.forall_mem_cons]
  exact ⟨⟨_, by decide, rfl⟩, ⟨_, by decide, rfl⟩, ⟨_, by decide, rfl⟩,
    fun _ h => absurd h List.not_mem_nil⟩

theorem next_barrier {p : Punct} (hp : p ∈ barrierMarks) (i : List (Bool × Nat))
    (cs : List Char) :
    next .code i (p.text.toList ++ cs) = (some (.punct p), 1, afterMark p i) := by
  simp only [barrierMarks, List.mem_cons, List.not_mem_nil, or_false] at hp
  rcases hp with rfl | rfl | rfl
  · cases i <;> rfl
  · rcases i with - | ⟨⟨triple, depth⟩, outer⟩
    · rfl
    · cases depth <;> rfl
  · cases i <;> rfl

theorem afterMark_nil {p : Punct} (hp : p ∈ barrierMarks) : afterMark p [] = (.code, []) := by
  simp only [barrierMarks, List.mem_cons, List.not_mem_nil, or_false] at hp
  rcases hp with rfl | rfl | rfl <;> rfl

/-- A barrier is scanned in code only. -/
theorem Step.of_barrier {m m' : Mode} {i i' : List (Bool × Nat)} {cs : List Char} {p : Punct} {n : Nat}
    (hs : Step m i cs (some (.punct p), n, m', i')) (hp : p ∈ barrierMarks) :
    m = .code ∧ n = 1 ∧ p.text.toList <+: cs ∧ (m', i') = afterMark p i := by
  generalize hr : (some (Lexeme.punct p), n, m', i') = r at hs
  cases hs with
  | space | lineComment | blockComment => cases hr
  | plain hx =>
    cases hr
    cases hx
  | mark _ hprefix =>
    obtain ⟨hy, hr₁⟩ := Prod.mk.inj hr
    obtain ⟨rfl, hr₂⟩ := Prod.mk.inj hr₁
    cases hy
    exact ⟨rfl, (by decide : ∀ p ∈ barrierMarks, p.text.length = 1) p hp, hprefix, hr₂⟩
  | @close triple =>
    cases hr
    cases triple <;> exact absurd hp (by decide)
  | interpolate =>
    cases hr
    exact absurd hp (by decide)

/-- Comments are no brackets. -/
theorem crossAll?_filter (strict : Bool) (d : Depth) (ts : List Token) :
    crossAll? strict d (ts.filter fun t => !t.isComment) = crossAll? strict d ts := by
  induction ts generalizing d with
  | nil => rfl
  | cons t ts ih =>
    rw [List.filter_cons]
    split
    next =>
      rw [crossAll?, crossAll?]
      exact congrArg _ (funext fun e => ih e)
    next hc =>
      have hcross : t.lexeme.cross? strict d = some d := by
        have hc : t.isComment = true := by simpa using hc
        rcases Bool.or_eq_true_iff.1 hc with hc | hc <;> rw [beq_iff_eq.1 hc] <;> rfl
      rw [crossAll?, hcross, Option.bind_some, ih]

/-- **Characters up to a barrier, that included, are scanned to the same
tokens elsewhere.** -/
theorem Scans.exists_moved_barrier {outer : List (Bool × Nat)} {before cs : List Char}
    {ts us : List Token} {t : Token} (h : Scans .code outer before cs (ts ++ t :: us)) {p : Punct}
    (ht : t.lexeme = .punct p) (hp : p ∈ barrierMarks) {d : Depth}
    (hcross : crossAll? false .outer ts = some d) (hd : d.brace = 0)
    (hstray : ∀ t ∈ ts, t.lexeme ≠ .stray) :
    ∃ w B, cs = w ++ B ∧ p.text.toList <:+ w ∧ t.span.stop = byteLength (before ++ w)
      ∧ Scans (afterMark p outer).1 (afterMark p outer).2 (before ++ w) B us
      ∧ ∀ before' B', (∀ k, blockCommentLength k B = none → blockCommentLength k B' = none) →
        ∃ ts', List.Forall₂ (Moved (byteLength before) (byteLength before')) (ts ++ [t]) ts'
          ∧ Passes B' .code [] before' w ts' .code [] := by
  obtain ⟨e, he, hpe⟩ := exists_barrier p hp
  have hfin : t.lexeme ≠ .finish := by
    rw [ht]
    nofun
  obtain ⟨v, c, m', i', rfl, hpass, hscans, hstart⟩ := h.exists_passes hfin
  obtain ⟨n, m₁, i₁, hnext, hne, hstop, hrest⟩ := hscans.next_of_start hfin hstart
  have hstep := step_next m' i' hne
  rw [hnext, ht] at hstep
  obtain ⟨rfl, rfl, ⟨B, rfl⟩, hafter⟩ := hstep.of_barrier hp
  rw [hpe] at hpass hstop hrest ⊢
  have hdrop : ([e] ++ B).take 1 = [e] ∧ ([e] ++ B).drop 1 = B := ⟨rfl, rfl⟩
  rw [hdrop.1, List.append_assoc] at hstop
  rw [hdrop.1, hdrop.2, List.append_assoc] at hrest
  have hnests := Nests.start outer
  obtain ⟨rfl, -, -⟩ := hpass.moved he (fun _ h => h) rfl hcross hd hnests hstray
  rw [← hafter]
  refine ⟨v ++ [e], B, (List.append_assoc _ _ _).symm, List.suffix_append v [e], hstop, hrest,
    fun before' B' hclose => ?_⟩
  obtain ⟨-, -, hall⟩ := hpass.moved he hclose rfl hcross hd hnests hstray
  obtain ⟨ts', hmoved, hpass'⟩ := hall before'
  have hbarrier := next_barrier hp [] B'
  rw [hpe, afterMark_nil hp] at hbarrier
  have htoken : Passes B' .code [] (before' ++ v) [e]
      [⟨.punct p, ⟨byteLength (before' ++ v), byteLength (before' ++ v ++ [e])⟩⟩] .code [] :=
    .token (w := [e]) (v := []) hbarrier (List.cons_ne_nil _ _) .nil
  refine ⟨_, List.rel_append hmoved (.cons ⟨ht, ?_, ?_⟩ .nil), Passes.trans hpass' htoken⟩
  · rw [hstart]
    simp only [byteLength_append]
    omega
  · rw [hstop]
    simp only [byteLength_append]
    omega

/-- Whether a comment is closed after a barrier depends on what comes after
that. -/
theorem blockCommentLength_barrier {p : Punct} (hp : p ∈ barrierMarks) {w B B' : List Char}
    (hw : p.text.toList <:+ w) (hclose : ∀ k, blockCommentLength k B' = none) (k : Nat)
    (h : blockCommentLength k (w ++ B) = none) : blockCommentLength k (w ++ B') = none := by
  obtain ⟨e, he, hpe⟩ := exists_barrier p hp
  obtain ⟨v, rfl⟩ := hw
  have hslash : e ≠ '/' := by rintro rfl; exact absurd he (by decide)
  have hstar : e ≠ '*' := by rintro rfl; exact absurd he (by decide)
  have happend : ∀ B, v ++ p.text.toList ++ B = v ++ e :: B := fun B => by
    rw [hpe, List.append_assoc]
    rfl
  rw [happend, blockCommentLength_append hslash, Option.or_eq_none_iff] at h
  rw [happend, blockCommentLength_append hslash, h.1, Option.none_or,
    blockCommentLength.eq_2 _ e B' fun _ h _ => hstar h]
  exact hclose _

theorem exists_of_filter_eq {ts head rest : List Token} {t : Token} {keep : Token → Bool}
    (h : ts.filter keep = head ++ t :: rest) :
    ∃ us vs, ts = us ++ t :: vs ∧ us.filter keep = head ∧ vs.filter keep = rest := by
  obtain ⟨as, bs, rfl, has, hbs⟩ := List.filter_eq_append_iff.1 h
  obtain ⟨cs, ds, rfl, hcs, -, hds⟩ := List.filter_eq_cons_iff.1 hbs
  refine ⟨as ++ cs, ds, by rw [List.append_assoc], ?_, hds⟩
  rw [List.filter_append, has, List.filter_eq_nil_iff.2 hcs, List.append_nil]

/-- The same tokens at another place are the same tokens of the code. -/
theorem forall₂_filter {a b : Nat} {ts us : List Token} (h : List.Forall₂ (Moved a b) ts us) :
    List.Forall₂ (Moved a b) (ts.filter fun t => !t.isComment) (us.filter fun t => !t.isComment) := by
  refine List.rel_filter (fun t u h => ?_) h
  simp only [isComment, h.lexeme]

/-- **Tokens with their braces closed are scanned from the same characters
elsewhere**, comments among them too. -/
theorem Scans.exists_moved {outer : List (Bool × Nat)} {before cs : List Char}
    {ts own rest : List Token} (h : Scans .code outer before cs ts)
    (hcode : ts.filter (fun t => !t.isComment) = own ++ rest) (hclosed : Grammar.Closed own)
    (hstray : ∀ t ∈ ts, t.lexeme ≠ .stray) :
    ∃ w after full tail, cs = w ++ after ∧ ts = full ++ tail
      ∧ full.filter (fun t => !t.isComment) = own ∧ tail.filter (fun t => !t.isComment) = rest
      ∧ (∀ u ∈ own.getLast?, u.span.stop = byteLength (before ++ w))
      ∧ ∀ before' after', (∀ k, blockCommentLength k after' = none) →
        ∃ ts', List.Forall₂ (Moved (byteLength before) (byteLength before')) full ts'
          ∧ Passes after' .code [] before' w ts' .code [] := by
  cases hclosed with
  | @semicolon head t d hhead hd ht =>
    rw [List.append_assoc] at hcode
    obtain ⟨us, vs, rfl, rfl, hvs⟩ := exists_of_filter_eq hcode
    rw [crossAll?_filter] at hhead
    obtain ⟨w, B, rfl, -, hstop, -, hmoved⟩ := h.exists_moved_barrier ht (by decide) hhead hd
      fun u hu => hstray u (List.mem_append_left _ hu)
    refine ⟨w, B, us ++ [t], vs, rfl, by simp, ?_, hvs, ?_, fun before' after' hclose => ?_⟩
    · rw [List.filter_append, List.filter_cons_of_pos (by simp [isComment, ht])]
      rfl
    · rw [List.getLast?_append]
      rintro u ⟨⟩
      exact hstop
    · exact hmoved before' after' fun k _ => hclose k
  | @braces head t inner u d d' hhead hd ht hinner hd' hu =>
    rw [List.append_assoc, List.cons_append, List.append_assoc] at hcode
    obtain ⟨us, vs, rfl, rfl, hvs⟩ := exists_of_filter_eq hcode
    obtain ⟨us', vs', rfl, rfl, hvs'⟩ := exists_of_filter_eq hvs
    rw [crossAll?_filter] at hhead hinner
    obtain ⟨w, B, rfl, -, -, hscans, hmoved⟩ := h.exists_moved_barrier ht (by decide) hhead hd
      fun x hx => hstray x (List.mem_append_left _ hx)
    -- the brace that is open now was opened by what stands around
    have hmode : (afterMark .braceOpen outer).1 = .code := by cases outer <;> rfl
    rw [hmode] at hscans
    obtain ⟨w', B', rfl, hsuffix, hstop, -, hmoved'⟩ :=
      hscans.exists_moved_barrier hu (by decide) hinner hd' fun x hx =>
        hstray x (List.mem_append_right _ (List.mem_cons_of_mem _ (List.mem_append_left _ hx)))
    refine ⟨w ++ w', B', (us ++ [t]) ++ (us' ++ [u]), vs', (List.append_assoc _ _ _).symm, by simp,
      ?_, hvs', ?_, fun before' after' hclose => ?_⟩
    · rw [List.filter_append, List.filter_append, List.filter_append,
        List.filter_cons_of_pos (by simp [isComment, ht]),
        List.filter_cons_of_pos (by simp [isComment, hu])]
      simp
    · rw [← List.cons_append, ← List.append_assoc, List.getLast?_append, ← List.append_assoc]
      rintro x ⟨⟩
      exact hstop
    · obtain ⟨ts₁, hforall₁, hpass₁⟩ := hmoved before' (w' ++ after')
        (blockCommentLength_barrier (by decide) hsuffix hclose)
      obtain ⟨ts₂, hforall₂, hpass₂⟩ := hmoved' (before' ++ w) after' fun k _ => hclose k
      refine ⟨ts₁ ++ ts₂, List.rel_append hforall₁ (hforall₂.imp fun x y h => ?_),
        hpass₁.trans hpass₂⟩
      rw [byteLength_append, byteLength_append] at h
      exact h.of_add

end Token

end JavaMutants.Syntax
