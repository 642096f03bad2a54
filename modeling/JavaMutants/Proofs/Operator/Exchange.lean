import JavaMutants.Proofs.Operator.Edit

/-!
# Every version is one exchange

What the built-in operators have in common, once they have given a version: it
is the text with one node of its declaration exchanged, and which texts can
come in the place of which nodes is told here (`Fragment.Exchange`). An operator
of a comparison is exchanged for another one, a condition or a returned value
for its negation, and a body for one with at most one statement
(`Operator.exists_exchange_of_mem_variants`). What is around the node stays
(`Fragment.Editable.exists_parts`).
-/

namespace JavaMutants

open Syntax Text Tree

namespace Fragment

/-! ## The parts of a text around a node -/

section Parts

variable {span : String} {fragment : Fragment} {node : Tree}

/-- **A node that can be exchanged has a text between two others**, and is
exchanged there. -/
theorem Editable.exists_parts (h : Editable fragment node) (hof : fragment.IsOf span) :
    ∃ before text after : String, span = before ++ text ++ after
      ∧ fragment.textOf? node = some text
      ∧ fragment.localRange? node = some (Text.size before, Text.size before + Text.size text)
      ∧ ∀ new, (Edit.ofNode? fragment node new).bind (·.applyTo? span)
        = some (before ++ new ++ after) := by
  obtain ⟨text, htext⟩ := h.exists_textOf?
  obtain ⟨a, b, hfragment, hoffset⟩ := hof.text
  have hle : fragment.offset ≤ node.stop := Nat.le_trans h.start h.le
  have hstart := hof.isCut h.cuts.1 h.start (Nat.le_trans h.le h.stop)
  have hstop := hof.isCut h.cuts.2 hle h.stop
  obtain ⟨inner, hinner⟩ := Text.exists_slice? (Nat.sub_le_sub_right h.le _) hstart hstop
  obtain ⟨before, after, rfl, hbefore, hsize⟩ := slice?_eq_some_iff.1 hinner
  -- in the text that was parsed it is the same text
  have hwhole : fragment.textOf? node = some inner := by
    refine slice?_eq_some_iff.2 ⟨a ++ before, after ++ b, ?_, ?_, ?_⟩
    · rw [hfragment]
      simp only [String.append_assoc]
    · rw [size_append, hoffset, hbefore, Nat.add_sub_cancel' h.start]
    · have hoff := h.start
      omega
  obtain rfl := Option.some.inj (htext.symm.trans hwhole)
  have hrange : fragment.localRange? node = some (Text.size before, Text.size before + Text.size text) := by
    rw [localRange?, if_pos (by simp [h.start, hle]), hbefore, hsize]
  refine ⟨before, text, after, rfl, htext, hrange, fun new => ?_⟩
  rw [Edit.ofNode?, hrange]
  exact splice?_append before text after new

end Parts

/-! ## What is exchanged for what -/

/-- **What a built-in operator exchanges** in the declaration of a fragment: a node,
and the text that comes in its place. -/
inductive Exchange (target : Target) (fragment : Fragment) : Tree → String → Prop
  /-- The operator of a comparison for another one. -/
  | swapped {swap : Punct → Option Punct} {node token : Tree} {new : String}
      (hswap : swap = acrossBoundary? ∨ swap = otherEquality?)
      (hnode : node ∈ fragment.declaration.preorder)
      (hsite : operatorSite? swap node = some (token, new)) : Exchange target fragment token new
  /-- A condition for its negation. -/
  | condition {node condition : Tree} {text : String}
      (hnode : node ∈ fragment.declaration.preorder) (hcondition : condition? node = some condition)
      (htext : fragment.textOf? condition = some text) :
      Exchange target fragment condition (negated condition text)
  /-- A returned value for its negation. -/
  | returned {body value : Tree} {text : String}
      (hbody : fragment.declaration.child? .body = some body) (hvalue : value ∈ returnedValues body)
      (htext : fragment.textOf? value = some text) :
      Exchange target fragment value ("!(" ++ text ++ ")")
  /-- The body for one without statements, but for a call of another constructor. -/
  | emptied {body : Tree} {bodies : List String} {new : String}
      (hbody : fragment.declaration.child? .body = some body)
      (hbodies : emptied? target fragment fragment.declaration body = some bodies)
      (hnew : new ∈ bodies) : Exchange target fragment body new
  /-- The body for a return of a default value. -/
  | default {body : Tree} {value : String}
      (hbody : fragment.declaration.child? .body = some body)
      (hvalue : value ∈ (ReturnType.ofDeclaration fragment.declaration).defaults) :
      Exchange target fragment body (blockOf ("return " ++ value ++ ";"))

/-- **An emptied body has no statements**, but for a call of another constructor. -/
theorem cases_of_emptied {target : Target} {fragment : Fragment} {declaration body : Tree}
    {bodies : List String} (h : emptied? target fragment declaration body = some bodies) {new : String}
    (hnew : new ∈ bodies) : new = emptyBlock ∨ ∃ call ∈ body.children,
      call.label = .named .explicitConstructorInvocation
        ∧ ∃ text, fragment.textOf? call = some text ∧ new = blockOf text := by
  unfold emptied? at h
  split at h
  next =>
    split at h
    next call hcall =>
      split at h
      next hl =>
        obtain ⟨text, htext, rfl⟩ := Option.map_eq_some_iff.1 h
        exact .inr ⟨call, (List.mem_filter.1 (List.mem_of_mem_head? hcall)).1, beq_iff_eq.1 hl, text,
          htext, List.mem_singleton.1 hnew⟩
      next =>
        cases h
        exact .inl (List.mem_singleton.1 hnew)
    next =>
      cases h
      exact .inl (List.mem_singleton.1 hnew)
  next =>
    cases h
    split at hnew
    next => exact .inl (List.mem_singleton.1 hnew)
    next => exact absurd hnew List.not_mem_nil
  next =>
    cases h
    exact absurd hnew List.not_mem_nil

namespace Exchange

variable {target : Target} {span : String} {fragment : Fragment} {node : Tree} {new : String}

/-- **What is exchanged can be**. -/
theorem editable (h : Exchange target fragment node new) (hof : fragment.IsOf span) :
    fragment.Editable node := by
  cases h with
  | swapped hswap hnode hsite =>
    refine hof.editable_operator ?_ hnode hsite
    rcases hswap with rfl | rfl <;> exact ⟨rfl, rfl⟩
  | condition hnode hcondition _ => exact hof.editable_condition hnode hcondition
  | returned hbody hvalue _ => exact hof.editable_body hbody (mem_of_mem_returnedValues hvalue)
  | emptied hbody _ _ => exact hof.editable_body hbody (mem_preorder_self _)
  | default hbody _ => exact hof.editable_body hbody (mem_preorder_self _)

/-- **What is exchanged is a node of the declaration.** -/
theorem mem_preorder (h : Exchange target fragment node new) :
    node ∈ fragment.declaration.preorder := by
  have hchild : ∀ {f : Field} {parent child : Tree}, parent.child? f = some child →
      child ∈ parent.children := List.mem_of_find?_eq_some
  cases h with
  | swapped _ hnode hsite =>
    obtain ⟨hmem, -⟩ := exists_marks_of_operatorSite? hsite
    exact mem_preorder_trans (mem_preorder_of_child hmem (mem_preorder_self _)) hnode
  | condition hnode hcondition _ =>
    unfold condition? at hcondition
    split at hcondition
    next =>
      exact mem_preorder_trans
        (mem_preorder_of_child (hchild hcondition) (mem_preorder_self _)) hnode
    next => cases hcondition
  | returned hbody hvalue _ =>
    exact mem_preorder_of_child (hchild hbody) (mem_of_mem_returnedValues hvalue)
  | emptied hbody _ _ => exact mem_preorder_of_child (hchild hbody) (mem_preorder_self _)
  | default hbody _ => exact mem_preorder_of_child (hchild hbody) (mem_preorder_self _)

end Exchange

end Fragment

/-! ## What the operators give -/

section Generators

variable {target : Target} {span : String} {versions : List String} {v : String}

theorem exists_of_mem_withDeclaration {generate : Fragment → Tree → Option (List String)}
    (h : withDeclaration target span generate = some versions) (hv : v ∈ versions) :
    ∃ fragment, Fragment.parse? span (target.kind != .typeDeclaration) = some fragment
      ∧ generate fragment fragment.declaration = some versions := by
  unfold withDeclaration at h
  split at h
  next fragment hfragment => exact ⟨fragment, hfragment, h⟩
  next =>
    cases h
    exact absurd hv List.not_mem_nil

theorem exists_of_mem_exchangeEach {fragment : Fragment} {sites : List (Tree × String)}
    (h : exchangeEach fragment span sites = some versions) (hv : v ∈ versions) :
    ∃ site ∈ sites, (Edit.ofNode? fragment site.1 site.2).bind (·.applyTo? span) = some v :=
  exists_mem_left ((mapM_eq_some_iff _ _ _).1 h) hv

/-- Sites whose new texts are made of their old ones. -/
theorem exists_of_mem_textSites {fragment : Fragment} {nodes : List Tree}
    {change : Tree → String → String} {sites : List (Tree × String)}
    (h : nodes.mapM (fun n => (fragment.textOf? n).map fun text => (n, change n text))
      = some sites) {site : Tree × String} (hsite : site ∈ sites) :
    ∃ n ∈ nodes, ∃ text, fragment.textOf? n = some text ∧ (n, change n text) = site := by
  obtain ⟨n, hn, hsome⟩ := exists_mem_left ((mapM_eq_some_iff _ _ _).1 h) hsite
  obtain ⟨text, htext, rfl⟩ := Option.map_eq_some_iff.1 hsome
  exact ⟨n, hn, text, htext, rfl⟩

/-- **A version has one node exchanged.** -/
def IsExchanged (target : Target) (span v : String) : Prop :=
  ∃ fragment node new, Fragment.parse? span (target.kind != .typeDeclaration) = some fragment
    ∧ fragment.Exchange target node new
    ∧ (Edit.ofNode? fragment node new).bind (·.applyTo? span) = some v

theorem isExchanged_of_emptyBody (h : emptyBody target span = some versions)
    (hv : v ∈ versions) : IsExchanged target span v := by
  obtain ⟨fragment, hfragment, h⟩ := exists_of_mem_withDeclaration h hv
  split at h
  next =>
    cases h
    exact absurd hv List.not_mem_nil
  next body hbody =>
    obtain ⟨bodies, hbodies, h⟩ := Option.bind_eq_some_iff.1 h
    obtain ⟨site, hsite, hedit⟩ := exists_of_mem_exchangeEach h hv
    obtain ⟨b, hb, rfl⟩ := List.mem_map.1 hsite
    exact ⟨fragment, body, b, hfragment, .emptied hbody hbodies hb, hedit⟩

theorem isExchanged_of_defaultReturn (h : defaultReturn target span = some versions)
    (hv : v ∈ versions) : IsExchanged target span v := by
  obtain ⟨fragment, hfragment, h⟩ := exists_of_mem_withDeclaration h hv
  split at h
  next =>
    cases h
    exact absurd hv List.not_mem_nil
  next body hbody =>
    obtain ⟨site, hsite, hedit⟩ := exists_of_mem_exchangeEach h hv
    obtain ⟨value, hvalue, rfl⟩ := List.mem_map.1 hsite
    exact ⟨fragment, body, _, hfragment, .default hbody hvalue, hedit⟩

theorem isExchanged_of_negateReturn (h : negateReturn target span = some versions)
    (hv : v ∈ versions) : IsExchanged target span v := by
  obtain ⟨fragment, hfragment, h⟩ := exists_of_mem_withDeclaration h hv
  split at h
  · cases h
    exact absurd hv List.not_mem_nil
  split at h
  next =>
    cases h
    exact absurd hv List.not_mem_nil
  next body hbody =>
    obtain ⟨sites, hsites, h⟩ := Option.bind_eq_some_iff.1 h
    obtain ⟨site, hsite, hedit⟩ := exists_of_mem_exchangeEach h hv
    obtain ⟨value, hvalue, text, htext, rfl⟩ := exists_of_mem_textSites hsites hsite
    exact ⟨fragment, value, _, hfragment, .returned hbody hvalue htext, hedit⟩

theorem isExchanged_of_swapOperators {swap : Punct → Option Punct}
    (hswap : swap = acrossBoundary? ∨ swap = otherEquality?)
    (h : swapOperators swap target span = some versions) (hv : v ∈ versions) :
    IsExchanged target span v := by
  obtain ⟨fragment, hfragment, h⟩ := exists_of_mem_withDeclaration h hv
  obtain ⟨⟨token, new⟩, hsite, hedit⟩ := exists_of_mem_exchangeEach h hv
  obtain ⟨node, hnode, hsome⟩ := List.mem_filterMap.1 hsite
  exact ⟨fragment, token, new, hfragment, .swapped hswap hnode hsome, hedit⟩

theorem isExchanged_of_negateCondition (h : negateCondition target span = some versions)
    (hv : v ∈ versions) : IsExchanged target span v := by
  obtain ⟨fragment, hfragment, h⟩ := exists_of_mem_withDeclaration h hv
  obtain ⟨sites, hsites, h⟩ := Option.bind_eq_some_iff.1 h
  obtain ⟨site, hsite, hedit⟩ := exists_of_mem_exchangeEach h hv
  obtain ⟨condition, hcondition, text, htext, rfl⟩ := exists_of_mem_textSites hsites hsite
  obtain ⟨node, hnode, hsome⟩ := List.mem_filterMap.1 hcondition
  exact ⟨fragment, condition, _, hfragment, .condition hnode hsome htext, hedit⟩

end Generators

/-- **Every version that a built-in operator gives has one node exchanged.** -/
theorem Registry.isExchanged_of_mem_builtin {o : Operator} (ho : o ∈ builtin.operators)
    {target : Target} {span : String} {versions : List String}
    (h : o.generate target span = some versions) {v : String} (hv : v ∈ versions) :
    IsExchanged target span v := by
  simp only [builtin, List.mem_cons, List.not_mem_nil, or_false] at ho
  rcases ho with rfl | rfl | rfl | rfl | rfl | rfl
  · exact isExchanged_of_emptyBody h hv
  · exact isExchanged_of_defaultReturn h hv
  · exact isExchanged_of_negateReturn h hv
  · exact isExchanged_of_swapOperators (.inl rfl) h hv
  · exact isExchanged_of_negateCondition h hv
  · exact isExchanged_of_swapOperators (.inr rfl) h hv

/-- No built-in operator takes a target that is to be left alone. -/
theorem Registry.not_deprecated_of_applies {o : Operator} (ho : o ∈ builtin.operators)
    {target : Target} (h : o.applies target = true) : target.deprecated = false := by
  simp only [builtin, List.mem_cons, List.not_mem_nil, or_false] at ho
  rcases ho with rfl | rfl | rfl | rfl | rfl | rfl <;>
    simp [current, currentMember, currentMethod] at h <;> simp [h]

end JavaMutants
