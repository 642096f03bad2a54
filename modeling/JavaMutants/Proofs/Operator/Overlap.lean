import JavaMutants.Proofs.Fragment.Call
import JavaMutants.Proofs.Operator.Exchange
import JavaMutants.Proofs.Operator.Guard

/-!
# What the operators make of a text

What an operator exchanges is the mark of a comparison, a condition or a returned value,
or the body of the declaration, and its text is reworded accordingly
(`Fragment.Exchange.cases`). What is negated stands in a node that goes on after it with
other characters than marks. A body becomes one that is empty, or has a return or a call
in it that was there before, and so neither begins with the other: no body begins with
another one and goes on (`Fragment.Exchange.eq_of_emptied`).
-/

namespace JavaMutants

open Syntax Text Tree

/-! ## What bodies are exchanged for -/

/-- What comes in braces for a body that is made to return a value. -/
def returning (value : List Char) : List Char :=
  [' '] ++ (['r', 'e', 't', 'u', 'r', 'n'] ++ ([' '] ++ (value ++ ([';'] ++ ([' '] ++ [])))))

theorem toList_blockOf (value : String) : (blockOf ("return " ++ value ++ ";")).toList
    = '\x7b' :: (returning value.toList ++ ['\x7d']) := by
  simp [blockOf, returning]

namespace Syntax.Token

theorem fills_nil : Fills [] := fun _ _ _ => ⟨[], .nil, rfl, rfl⟩

/-- **A return of a value fills braces**, if the value is one token. -/
theorem fills_returning {value : List Char} (x : Lexeme) (hvalue : value ≠ [])
    (hx : x.nest? [] = some [] ∧ x.cross? false .outer = some .outer)
    (hblank : ∀ i cs, next .code i (' ' :: (value ++ cs)) = (none, 1, .code, i))
    (hnext : ∀ i cs, next .code i (value ++ ';' :: cs) = (some x, value.length, .code, i)) :
    Fills (returning value) := by
  intro i before after
  have n₁ : next .code i ([' '] ++ (['r', 'e', 't', 'u', 'r', 'n'] ++ ([' '] ++ (value
      ++ ([';'] ++ ([' '] ++ [])))) ++ '\x7d' :: after)) = (none, 1, .code, i) := rfl
  have n₂ : next .code i (['r', 'e', 't', 'u', 'r', 'n'] ++ (([' '] ++ (value
      ++ ([';'] ++ ([' '] ++ [])))) ++ '\x7d' :: after))
        = (some (.word (some .return_)), 6, .code, i) := rfl
  have n₃ : next .code i ([' '] ++ ((value ++ ([';'] ++ ([' '] ++ []))) ++ '\x7d' :: after))
      = (none, 1, .code, i) := by
    rw [List.append_assoc]
    exact hblank i _
  have n₄ : next .code i (value ++ (([';'] ++ ([' '] ++ [])) ++ '\x7d' :: after))
      = (some x, value.length, .code, i) := hnext i _
  have n₅ : next .code i ([';'] ++ (([' '] ++ []) ++ '\x7d' :: after))
      = (some (.punct .semicolon), 1, .code, i) := by
    cases i <;> rfl
  have n₆ : next .code i ([' '] ++ ([] ++ '\x7d' :: after)) = (none, 1, .code, i) := rfl
  refine ⟨_, .skip n₁ (List.cons_ne_nil _ _) (.token n₂ (List.cons_ne_nil _ _)
    (.skip n₃ (List.cons_ne_nil _ _) (.token n₄ hvalue (.token n₅ (List.cons_ne_nil _ _)
      (.skip n₆ (List.cons_ne_nil _ _) .nil))))), ?_, ?_⟩
  · show ((x.nest? []).bind fun s => ((Lexeme.punct .semicolon).nest? s).bind some) = some []
    rw [hx.1]
    rfl
  · show ((x.cross? false .outer).bind fun d =>
      ((Lexeme.punct .semicolon).cross? false d).bind some) = some .outer
    rw [hx.2]
    rfl

end Syntax.Token

/-- **Every return of a default value fills braces**, and there is neither a brace nor a
mark in it. -/
theorem fills_default {type : ReturnType} {value : String} (h : value ∈ type.defaults) :
    Token.Fills (returning value.toList) ∧ '\x7d' ∉ returning value.toList
      ∧ ∀ c ∈ returning value.toList, c ∉ '\x7b' :: exchangeMarks := by
  have hvalue : value ∈ ["0", "0.0f", "0.0", "false", "true", "null"] := by
    cases type <;> revert h <;> simp [ReturnType.defaults] <;> tauto
  simp only [List.mem_cons, List.not_mem_nil, or_false] at hvalue
  rcases hvalue with rfl | rfl | rfl | rfl | rfl | rfl
  · exact ⟨Token.fills_returning (.piece .decimalIntegerLiteral) (by decide) ⟨rfl, rfl⟩ (fun _ _ => rfl)
      fun _ _ => rfl, by decide, List.all_iff_forall_prop.1 (by decide)⟩
  · exact ⟨Token.fills_returning (.piece .decimalFloatingPointLiteral) (by decide) ⟨rfl, rfl⟩ (fun _ _ => rfl)
      fun _ _ => rfl, by decide, List.all_iff_forall_prop.1 (by decide)⟩
  · exact ⟨Token.fills_returning (.piece .decimalFloatingPointLiteral) (by decide) ⟨rfl, rfl⟩ (fun _ _ => rfl)
      fun _ _ => rfl, by decide, List.all_iff_forall_prop.1 (by decide)⟩
  · exact ⟨Token.fills_returning (.word (some .false_)) (by decide) ⟨rfl, rfl⟩ (fun _ _ => rfl)
      fun _ _ => rfl, by decide, List.all_iff_forall_prop.1 (by decide)⟩
  · exact ⟨Token.fills_returning (.word (some .true_)) (by decide) ⟨rfl, rfl⟩ (fun _ _ => rfl)
      fun _ _ => rfl, by decide, List.all_iff_forall_prop.1 (by decide)⟩
  · exact ⟨Token.fills_returning (.word (some .null_)) (by decide) ⟨rfl, rfl⟩ (fun _ _ => rfl)
      fun _ _ => rfl, by decide, List.all_iff_forall_prop.1 (by decide)⟩

/-! ## Texts and what comes in their place -/

theorem swaps_of_swap {swap : Punct → Option Punct}
    (hswap : swap = acrossBoundary? ∨ swap = otherEquality?) {p q : Punct} (h : swap p = some q) :
    Swaps p.text.toList q.text.toList := by
  rcases hswap with rfl | rfl
  · cases p with
    | lt => cases h; exact .widened (.inl rfl)
    | gt => cases h; exact .widened (.inr rfl)
    | le => cases h; exact .narrowed (.inl rfl)
    | ge => cases h; exact .narrowed (.inr rfl)
    | _ => cases h
  · cases p with
    | eq => cases h; exact .turned (.inl rfl) (.inr rfl) (by decide)
    | ne => cases h; exact .turned (.inr rfl) (.inl rfl) (by decide)
    | _ => cases h

theorem negates_of_negated (condition : Tree) {text : String}
    (h : ∃ c ∈ text.toList, c ∉ exchangeMarks) :
    Negates text.toList (negated condition text).toList := by
  unfold negated
  split
  · exact ⟨['(', '!'], .inl rfl, by simp, h⟩
  · exact ⟨['!', '('], .inr rfl, by simp, h⟩

namespace Fragment

/-- **A node of the declaration goes on** after one in it, with other characters than
marks. -/
def Sealed (fragment : Fragment) (node : Tree) : Prop :=
  ∃ a ∈ fragment.declaration.preorder, a.isComment = false ∧ node ∈ a.children
    ∧ HasOther fragment.text node.stop a.stop

/-- The other characters of a node are in its text. -/
theorem exists_mem_of_hasOther {fragment : Fragment} {node : Tree} {old : String}
    (hold : fragment.textOf? node = some old)
    (h : HasOther fragment.text node.start node.stop) : ∃ c ∈ old.toList, c ∉ exchangeMarks := by
  obtain ⟨a, b, htext, hstart, hstop⟩ := slice?_eq_some_iff.1 hold
  refine h.exists_mem (u := a.toList) (w := b.toList) ?_ (Nat.le_of_eq hstart) ?_
  · rw [htext, String.toList_append, String.toList_append, List.append_assoc]
  · rw [byteLength_append]
    unfold Text.size at hstart hstop
    omega

/-- What has other characters than marks in what was parsed has them in the text. -/
theorem IsOf.exists_mem {span : String} {fragment : Fragment} (hof : fragment.IsOf span)
    {u x w : String} {start stop : Nat}
    (hspan : span = u ++ x ++ w) (h : HasOther fragment.text start stop)
    (hstart : start = fragment.offset + Text.size u)
    (hstop : stop ≤ fragment.offset + Text.size (u ++ x)) : ∃ d ∈ x.toList, d ∉ exchangeMarks := by
  obtain ⟨a, b, htext, hsize⟩ := hof.text
  have hlists : fragment.text.toList
      = (a ++ u).toList ++ (x.toList ++ (w ++ b).toList) := by
    rw [htext, hspan]
    simp only [String.toList_append, List.append_assoc]
  have hu : byteLength (a ++ u).toList = fragment.offset + Text.size u := by
    rw [← hsize, ← size_append]
    rfl
  refine h.exists_mem hlists (by omega) ?_
  rw [byteLength_append, hu]
  rw [size_append] at hstop
  have hx : byteLength x.toList = Text.size x := rfl
  omega

namespace Exchange

variable {target : Target} {fragment : Fragment} {node : Tree} {old new : String}

section Body

variable (hsound : parseSound fragment.text = .ok fragment.tree)
  (hkind : ∃ k, fragment.declaration.kind? = some k ∧ isDeclaration k = true) {body : Tree}
  (hbody : fragment.declaration.child? .body = some body)
  (hold : fragment.textOf? body = some old)
include hsound hkind hbody hold

/-- The body of a declaration is something in braces. -/
theorem exists_braced_of_body : ∃ x : Braced fragment.text body,
    old.toList = '\x7b' :: (x.inner ++ ['\x7d']) := by
  obtain ⟨k, hk, hdeclaration⟩ := hkind
  have hl : fragment.declaration.label = .named k := beq_iff_eq.1 (Target.isA_iff_kind?.2 hk)
  obtain ⟨c, hc, hn⟩ := (isParse_of_parseSound hsound).exists_child (declaration_mem fragment) (by
    rw [hl]
    rintro ⟨⟩
    cases hdeclaration)
  obtain ⟨x⟩ := exists_braced hsound hc hn hl hdeclaration hbody
  exact ⟨x, x.text_of_slice? hold⟩

/-- **A body does not begin with one that has other things in its braces**, nor that
with it. -/
theorem eq_of_fills {mid : List Char} (hfills : Token.Fills mid) (hmid : '\x7d' ∉ mid)
    (hnew : new.toList = '\x7b' :: (mid ++ ['\x7d']))
    (hbegins : old.toList <+: new.toList ∨ new.toList <+: old.toList) : new = old := by
  obtain ⟨x, hx⟩ := exists_braced_of_body hsound hkind hbody hold
  rw [hx, hnew, List.prefix_cons_inj, List.prefix_cons_inj] at hbegins
  rw [← String.toList_inj, hnew, hx, x.inner_eq_of_begins hfills hmid hbegins]

/-- The same of one that keeps the call of another constructor. -/
theorem eq_of_call {first : Tree} (hfirst : first ∈ body.children)
    (hl : first.label = .named .explicitConstructorInvocation) {call : String}
    (hcall : fragment.textOf? first = some call)
    (hbegins : old.toList <+: (blockOf call).toList ∨ (blockOf call).toList <+: old.toList) :
    blockOf call = old := by
  obtain ⟨x, hx⟩ := exists_braced_of_body hsound hkind hbody hold
  have hparse := isParse_of_parseSound hsound
  have hnew : (blockOf call).toList = '\x7b' :: (' ' :: call.toList ++ [' ', '\x7d']) := by
    simp [blockOf]
  obtain ⟨c, hc, hn⟩ := exists_child_of_child (declaration_mem fragment)
    (List.mem_of_find?_eq_some hbody)
  rw [hx, hnew, List.prefix_cons_inj, List.prefix_cons_inj] at hbegins
  have hinner := x.inner_eq_of_call_begins hparse hc hn hfirst hl hcall hbegins
  rw [← String.toList_inj, hnew, hx, hinner]
  simp

/-- **A body is not emptied to a text that begins with it**, nor does it begin with
that. -/
theorem eq_of_emptied {bodies : List String}
    (hbodies : emptied? target fragment fragment.declaration body = some bodies)
    (hnew : new ∈ bodies) (hbegins : old.toList <+: new.toList ∨ new.toList <+: old.toList) :
    new = old := by
  rcases cases_of_emptied hbodies hnew with rfl | ⟨first, hfirst, hl, call, hcall, rfl⟩
  · exact eq_of_fills hsound hkind hbody hold Token.fills_nil List.not_mem_nil rfl hbegins
  · exact eq_of_call hsound hkind hbody hold hfirst hl hcall hbegins

end Body

/-- **What is exchanged is reworded**: a mark is swapped, something that is sealed is
negated, or the body is made another one. -/
theorem cases (h : fragment.Exchange target node new)
    (hsound : parseSound fragment.text = .ok fragment.tree)
    (hkind : ∃ k, fragment.declaration.kind? = some k ∧ isDeclaration k = true)
    (hold : fragment.textOf? node = some old) :
    Swaps old.toList new.toList
      ∨ (Negates old.toList new.toList ∧ Sealed fragment node)
      ∨ (Rebodies old.toList new.toList ∧ Nonempty (Braced fragment.text node)) := by
  have hparse := isParse_of_parseSound hsound
  cases h with
  | swapped hswap hnode hsite =>
    obtain ⟨hmem, p, q, hl, hq, rfl⟩ := exists_marks_of_operatorSite? hsite
    obtain ⟨c, hc, htc⟩ := exists_child_of_child
      (mem_preorder_trans hnode (declaration_mem fragment)) hmem
    obtain rfl := Option.some.inj (hold.symm.trans (hparse.slice?_of_mark hc htc hl))
    exact .inl (swaps_of_swap hswap hq)
  | @condition q _ _ hnode hcondition htext =>
    obtain rfl := Option.some.inj (hold.symm.trans htext)
    unfold condition? at hcondition
    split at hcondition
    next hconditional =>
      obtain ⟨k, hl, hk⟩ := exists_conditionalKind hconditional
      obtain ⟨c, hc, hqc⟩ := hparse.exists_child
        (mem_preorder_trans hnode (declaration_mem fragment)) (by
          rw [hl]
          rintro ⟨⟩
          cases hk)
      obtain ⟨hin, hafter⟩ := hasOther_condition hparse hc hqc hconditional hcondition
      exact .inr (.inl ⟨negates_of_negated _ (exists_mem_of_hasOther hold hin), q, hnode,
        isComment_of_isConditional hconditional, List.mem_of_find?_eq_some hcondition, hafter⟩)
    next => cases hcondition
  | returned hbody hvalue htext =>
    obtain rfl := Option.some.inj (hold.symm.trans htext)
    obtain ⟨q, hq, hl, hmem, hnamed⟩ := exists_of_mem_returnedValues hvalue
    have hqd := mem_preorder_of_child (List.mem_of_find?_eq_some hbody) hq
    obtain ⟨c, hc, hqc⟩ := hparse.exists_child
      (mem_preorder_trans hqd (declaration_mem fragment)) (by
        rw [hl]
        nofun)
    obtain ⟨hin, hafter⟩ := hasOther_returned hparse hc hqc hl hmem hnamed
    exact .inr (.inl ⟨⟨['!', '('], .inr rfl, by simp, exists_mem_of_hasOther hold hin⟩, q, hqd,
      by simp [isComment, isA, hl], hmem, hafter⟩)
  | emptied hbody hbodies hnew =>
    obtain ⟨x, hx⟩ := exists_braced_of_body hsound hkind hbody hold
    refine .inr (.inr ⟨⟨?_, fun hbegins => ?_⟩, ⟨x⟩⟩)
    · rcases cases_of_emptied hbodies hnew with rfl | ⟨call, hcall, hl, text, htext, rfl⟩
      · exact ⟨x.inner, [], hx, rfl, .inl fun c hc => absurd hc List.not_mem_nil⟩
      · obtain ⟨c, hc, hbc⟩ := exists_child_of_child (declaration_mem fragment)
          (List.mem_of_find?_eq_some hbody)
        refine ⟨x.inner, ' ' :: (text.toList ++ [' ']), hx, by simp [blockOf], .inr ⟨text.toList, ?_⟩⟩
        obtain ⟨-, ch, cs, -, hcs, -, -, hspace, hslash, -⟩ :=
          x.exists_text_of_call hparse hc hbc hcall hl htext
        obtain ⟨v, w, hinner, hhead⟩ := x.exists_inner_of_call hparse hc hbc hcall hl htext
        exact ⟨⟨v, w, hinner, hhead⟩, rfl, ⟨ch, cs, hcs, hspace, hslash⟩,
          x.getLast?_of_call hparse hc hbc hcall hl htext⟩
    · rw [eq_of_emptied hsound hkind hbody hold hbodies hnew hbegins]
  | default hbody hvalue =>
    obtain ⟨x, hx⟩ := exists_braced_of_body hsound hkind hbody hold
    obtain ⟨hfills, hbrace, hplain⟩ := fills_default hvalue
    refine .inr (.inr ⟨⟨?_, fun hbegins => ?_⟩, ⟨x⟩⟩)
    · exact ⟨x.inner, _, hx, toList_blockOf _, .inl hplain⟩
    · rw [eq_of_fills hsound hkind hbody hold hfills hbrace (toList_blockOf _) hbegins]

end Exchange

end Fragment

end JavaMutants
