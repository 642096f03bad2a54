import JavaMutants.Proofs.Fragment.Condition
import JavaMutants.Proofs.Operator.Rewording
import JavaMutants.Proofs.Syntax.Comment
import JavaMutants.Proofs.Syntax.Solid

/-!
# What is negated, and what comes after it

The operators of this program put in and take out a few marks, `exchangeMarks`.
No condition is made of those alone, and in every statement or expression with a
condition something else than those comes after it (`hasOther_condition`). Both are
read off the rules: whatever is known as a condition contains a leaf with another
character, and so does what comes after it (`guards_rules`).

So it is with what a return statement returns (`hasOther_returned`), after which there
is a semicolon. What counts as returned can also be a comment, which begins with a slash.
-/

namespace JavaMutants

open Syntax Text Tree Grammar

theorem isMarkStart_of_mem_exchangeMarks : ∀ c ∈ exchangeMarks, Token.isMarkStart c = true :=
  List.all_iff_forall_prop.1 (by decide)

/-! ## The rules -/

/-- **The parts with a leaf that is not made of marks alone.** Empty brackets have
none. -/
def isSolid (p : Syntax.Part) : Bool :=
  isInner p && !List.contains [.annotations, .formalParameters, .typeArguments, .arguments,
    .node .argumentList, .node .typeArguments, .node .annotationArgumentList,
    .node .formalParameters, .node .recordPatternBody] p

/-- The parts that give one node. -/
def isOne (p : Syntax.Part) : Bool :=
  !List.contains [.creation, .statement, .topLevel, .annotations, .declaratorId, .declarators] p

/-- What is known of the parts of the grammar. -/
def solidFacts : Facts Syntax.Part := ⟨Label.isSolid exchangeMarks, isSolid, isOne⟩

theorem solidFacts_sound : solidFacts.Sound rules := by
  refine ⟨fun p hp => ?_, fun p hp => ?_⟩
  · have h := forall_part_of_all
      (fun p => !isSolid p || (rules p).contains (Label.isSolid exchangeMarks) isSolid)
      (by decide +kernel)
      (fun l n => by rw [rules_binary_high]; rfl) p
    rwa [show isSolid p = true from hp] at h
  · have h := forall_part_of_all (fun p => !isOne p || (rules p).isSingle isOne)
      (by decide)
      (fun l n => by rw [rules_binary_high]; rfl) p
    rwa [show isOne p = true from hp] at h

/-- **In every rule a condition is full and guarded.** -/
theorem guards_rules (p : Syntax.Part) (hp : isInner p = true) :
    (rules p).guards isConditionalKind .condition solidFacts isInner = true := by
  have h := forall_part_of_all
    (fun p => !isInner p || (rules p).guards isConditionalKind .condition solidFacts isInner)
    (by decide)
    (fun l n => by rw [rules_binary_high]; rfl) p
  simpa [hp] using h

/-! ## Conditions of a sound text -/

section Conditions

variable {text : String} {tree c q n v : Tree}

/-- Characters beside the marks stand between two offsets of a text. -/
def HasOther (text : String) (start stop : Nat) : Prop :=
  ∃ a b c, text.toList = a ++ (b ++ c) ∧ start ≤ byteLength a ∧ byteLength (a ++ b) ≤ stop
    ∧ ∃ d ∈ b, d ∉ exchangeMarks

/-- **They are in what stands there.** -/
theorem HasOther.exists_mem {start stop : Nat} (h : HasOther text start stop) {u x w : List Char}
    (htext : text.toList = u ++ (x ++ w)) (hstart : byteLength u ≤ start)
    (hstop : stop ≤ byteLength (u ++ x)) : ∃ d ∈ x, d ∉ exchangeMarks := by
  obtain ⟨a, b, c, habc, ha, hb, d, hd, hmark⟩ := h
  have hinfix := Text.infix_of_byteLength (habc.symm.trans htext) (Nat.le_trans hstart ha)
    (Nat.le_trans hb hstop)
  exact ⟨d, hinfix.subset hd, hmark⟩

variable (h : IsParse text tree)
include h

/-- A leaf of the code that is one of the labels in question is no fault. -/
theorem hasOther_of_contains {ts : List Tree} (hts : Contains solidFacts.labels ts)
    (hcode : ∀ t ∈ ts, ∃ d ∈ bareAll tree.children, t ∈ d.preorder) {start stop : Nat}
    (hbounds : ∀ t ∈ ts, start ≤ t.start ∧ t.stop ≤ stop) : HasOther text start stop := by
  obtain ⟨x, hx, hlabel⟩ := hts
  obtain ⟨t, ht, hxt⟩ := mem_leavesAll_iff.1 hx
  obtain ⟨d, hd, htd⟩ := hcode t ht
  have hall := mem_leavesAll_of_mem_preorder hd htd hxt
  have hsolid : x.1.isSolid exchangeMarks = true := hlabel.resolve_right fun hf => by
    rw [h.whole x hall] at hf
    cases hf
  obtain ⟨a, b, c, habc, hspan, hother⟩ :=
    h.exists_char_of_solid isMarkStart_of_mem_exchangeMarks hall hsolid
  obtain ⟨hlo, hhi⟩ := (h.nested_code hd htd).bounds_leaf hxt
  obtain ⟨hlo', hhi'⟩ := hbounds t ht
  rw [hspan] at hlo hhi
  exact ⟨a, b, c, habc, Nat.le_trans hlo' hlo, Nat.le_trans hhi hhi', hother⟩

/-- **A condition and what comes after it** each have characters beside the
marks. -/
theorem hasOther_condition (hc : c ∈ tree.children) (hq : q ∈ c.preorder)
    (hcond : isConditional q = true) (hn : q.child? .condition = some n) :
    HasOther text n.start n.stop ∧ HasOther text n.stop q.stop := by
  obtain ⟨k, hl, hk⟩ := exists_conditionalKind hcond
  obtain ⟨hbare, -⟩ := exists_after_condition h hc hq hcond hn
  obtain ⟨d, hd, hqd⟩ := h.bare_mem hc hq (isComment_of_isConditional hcond)
  have hfield : n.bare.field = some .condition := by
    rw [field_bare]
    simpa using List.find?_some hn
  have hguarded : Guarded .condition solidFacts.labels q.bare.children :=
    h.derives.guarded (knows_rules (.inl rfl)) solidFacts_sound guards_rules rfl nofun
      (fun _ hn => absurd hn List.not_mem_nil) d hd q.bare hqd k (by rw [label_bare, hl]) hk
  have hcode : ∀ m ∈ q.bare.children, ∃ d ∈ bareAll tree.children, m ∈ d.preorder :=
    fun m hm => ⟨d, hd, mem_preorder_trans (mem_preorder_of_child hm (mem_preorder_self m)) hqd⟩
  have hstart : n.bare.start = n.start := congrArg Span.start (span_bare n)
  have hstop : n.bare.stop = n.stop := congrArg Span.stop (span_bare n)
  have hqstop : q.bare.stop = q.stop := congrArg Span.stop (span_bare q)
  constructor
  · refine hasOther_of_contains h (hguarded.full _ hbare hfield) (fun m hm => ?_) fun m hm => ?_
    · exact hcode m (List.mem_singleton.1 hm ▸ hbare)
    · rw [List.mem_singleton.1 hm, hstart, hstop]
      exact ⟨Nat.le_refl _, Nat.le_refl _⟩
  · obtain ⟨as, bs, hcs, hmem, hcontains⟩ := hguarded.sealed _ hbare hfield
    have hnested := h.nested_code hd hqd
    refine hasOther_of_contains h hcontains (fun m hm => ?_) fun m hm => ?_
    · exact hcode m (hcs ▸ List.mem_append_right as hm)
    · have hord := hnested.ordered
      rw [hcs, spans, List.map_append] at hord
      have hle := hord.stop_le_start (List.mem_map_of_mem hmem) (List.mem_map_of_mem hm)
      have hbound := (hnested.bounds_child (hcs ▸ List.mem_append_right as hm)).2
      rw [span_bare] at hle
      exact ⟨hle, hqstop ▸ hbound⟩

end Conditions

/-! ## Returned values -/

/-- **A return statement ends in a semicolon**, and what has a name in it is full. -/
def Returns (k : Kind) (cs : List Tree) : Prop :=
  k = .returnStatement → (∀ n ∈ cs, n.label.isNamed = true → Contains solidFacts.labels [n])
    ∧ ∃ s, cs.getLast? = some (tokenLeaf (.punct .semicolon) s)

theorem returns_of_body {ts rest : List Token} {nodes : List Tree}
    (h : Derives rules (body .returnStatement) none ts nodes rest) :
    Returns .returnStatement nodes := by
  rintro -
  obtain ⟨_, _, _, rfl, hword, hothers⟩ := h.of_both
  obtain ⟨s, -, rfl⟩ := hword.of_word
  obtain ⟨values, _, _, rfl, hvalue, hlast⟩ := hothers.of_both
  obtain ⟨t, -, rfl⟩ := hlast.of_mark
  have hvalues : ∀ n ∈ values, Contains solidFacts.labels [n] := by
    rcases hvalue.of_either with hvalue | hvalue
    · obtain ⟨n, rfl, hn⟩ := hvalue.exists_full solidFacts_sound (by decide)
      exact fun m hm => List.mem_singleton.1 hm ▸ hn
    · obtain ⟨rfl, -⟩ := hvalue.of_nothing
      exact fun n hn => absurd hn List.not_mem_nil
  refine ⟨fun n hn hnamed => ?_, t, by rw [List.getLast?_append, List.getLast?_concat]; rfl⟩
  rcases List.mem_append.1 hn with hn | hn
  · rw [List.mem_singleton.1 hn, isNamed_tokenLeaf rfl] at hnamed
    cases hnamed
  · rcases List.mem_append.1 hn with hn | hn
    · exact hvalues n hn
    · rw [List.mem_singleton.1 hn, isNamed_tokenLeaf rfl] at hnamed
      cases hnamed

theorem respects_returns_of_avoids {rule : Rules}
    (h : rule.avoids (fun k => k == .returnStatement) isInner = true) :
    rule.Respects rules isInner Returns := by
  refine Rule.respects_of_avoids (fun k cs hk hk' => ?_) h
  rw [hk'] at hk
  cases hk

/-- **Every rule makes return statements so.** -/
theorem respects_returns (p : Syntax.Part) (hp : isInner p = true) :
    (rules p).Respects rules isInner Returns := by
  have hother := forall_part_of_all (fun p => !isInner p || p == .node .returnStatement
      || (rules p).avoids (fun k => k == .returnStatement) isInner)
    (by decide) (fun l n => by rw [rules_binary_high]; rfl) p
  by_cases hreturn : p = .node .returnStatement
  · subst hreturn
    exact ⟨fun _ _ _ h => returns_of_body h, respects_returns_of_avoids rfl⟩
  · exact respects_returns_of_avoids (by simpa [hp, hreturn] using hother)

section Returned

variable {text : String} {tree c q v : Tree}

/-- **A returned value and what comes after it** each have characters beside the
marks. -/
theorem hasOther_returned (h : IsParse text tree) (hc : c ∈ tree.children)
    (hq : q ∈ c.preorder) (hl : q.label = .named .returnStatement) (hv : v ∈ q.children)
    (hnamed : v.label.isNamed = true) :
    HasOther text v.start v.stop ∧ HasOther text v.stop q.stop := by
  have hcomment : q.isComment = false := by simp [isComment, isA, hl]
  have hvc : v ∈ c.preorder := mem_preorder_trans (mem_preorder_of_child hv (mem_preorder_self v)) hq
  obtain ⟨hfull, s, hlast⟩ :=
    h.respects respects_returns (respects_returns_of_avoids rfl) hc hq hcomment hl rfl
  obtain ⟨d, hd, hqd⟩ := h.bare_mem hc hq hcomment
  rw [← children_bare] at hfull hlast
  have hcode : ∀ m ∈ q.bare.children, ∃ d ∈ bareAll tree.children, m ∈ d.preorder :=
    fun m hm => ⟨d, hd, mem_preorder_trans (mem_preorder_of_child hm (mem_preorder_self m)) hqd⟩
  have hstart : v.bare.start = v.start := congrArg Span.start (span_bare v)
  have hstop : v.bare.stop = v.stop := congrArg Span.stop (span_bare v)
  constructor
  · cases hvcomment : v.isComment with
    | true =>
      obtain ⟨a, b, e, htext, hspan⟩ := h.exists_slash_of_comment hc hvc hvcomment
      refine ⟨a, '/' :: b, e, htext, ?_, ?_, '/', List.mem_cons_self, by decide⟩
      · exact Nat.le_of_eq (congrArg Span.start hspan)
      · exact Nat.le_of_eq (congrArg Span.stop hspan).symm
    | false =>
      have hmem : v.bare ∈ q.bare.children := by
        rw [children_bare]
        exact mem_bareAll_iff.2 ⟨v, hv, hvcomment, rfl⟩
      refine hasOther_of_contains h (hfull _ hmem (by rwa [label_bare])) (fun m hm => ?_)
        fun m hm => ?_
      · exact hcode m (List.mem_singleton.1 hm ▸ hmem)
      · rw [List.mem_singleton.1 hm, hstart, hstop]
        exact ⟨Nat.le_refl _, Nat.le_refl _⟩
  · -- the semicolon ends where the statement does, so it comes after the value
    have hlastmem := List.mem_of_getLast? hlast
    have hlaststop := (h.nested_code hd hqd).stop_of_getLast? hlast
    obtain ⟨e, he, -, hbare⟩ := mem_bareAll_iff.1 (children_bare q ▸ hlastmem)
    have hespan : (tokenLeaf (.punct .semicolon) s).span = e.span := by rw [hbare, span_bare]
    have hqspan : q.bare.stop = q.stop := congrArg Span.stop (span_bare q)
    have hne : v ≠ e := by
      rintro rfl
      rw [← label_bare v, ← hbare, isNamed_tokenLeaf rfl] at hnamed
      cases hnamed
    have hestart := congrArg Span.start hespan
    have hestop := congrArg Span.stop hespan
    have hnested := (h.laid.nested c hc).of_mem_preorder hq
    have hvlt := (h.cuts hc hvc).1
    have hvstop := (hnested.bounds_child hv).2
    have hle : v.stop ≤ e.start := by
      rcases hnested.ordered.eq_or_apart hv he with heq | hle | hle
      · exact absurd heq hne
      · exact hle
      · unfold Tree.stop Tree.start at *
        omega
    have hcontains : Contains solidFacts.labels [tokenLeaf (.punct .semicolon) s] :=
      contains_tokenLeaf (by decide)
    refine hasOther_of_contains h hcontains (fun m hm => ?_) fun m hm => ?_
    · exact hcode _ (List.mem_singleton.1 hm ▸ hlastmem)
    · rw [List.mem_singleton.1 hm, hlaststop, hqspan]
      exact ⟨Nat.le_trans hle (Nat.le_of_eq hestart.symm), Nat.le_refl _⟩

end Returned

end JavaMutants
