import JavaMutants.Proofs.Syntax.Analysis

/-!
# What a rule can end with

Two questions about the last node that a rule gives. Which label its last
leaf has (`Rule.trails`, `Derives.trails`), and whether it is known by a
field (`Rule.closes`, `Derives.closes`); the second needs to know which
fields a rule gives at all (`Rule.knows`, `Derives.knows`).
-/

namespace JavaMutants.Syntax

open Syntax.Tree

variable {Part : Type} {grammar : Part → Rule Part}

/-! ## Fields -/

/-- **Whether a rule can give a node known by a field** that is not
carried over, given the same of the parts. -/
def Rule.knows (f : Field) (parts : Part → Bool) : Rule Part → Bool
  | .part p => parts p
  | .both a b | .either a b | .onto a b => a.knows f parts || b.knows f parts
  | .many a | .steps a => a.knows f parts
  | .field g a => g == f || a.knows f parts
  | _ => false

/-- **Nodes are known only by fields that the rule gives**, or were
carried over. -/
theorem Derives.knows {f : Field} {parts : Part → Bool}
    (hparts : ∀ p, (grammar p).knows f parts = true → parts p = true) {rule : Rule Part}
    {left : Option (List Tree)} {ts rest : List Token} {nodes : List Tree}
    (h : Derives grammar rule left ts nodes rest) (hk : rule.knows f parts = false)
    (hleft : ∀ n ∈ left.getD [], n.field ≠ some f) : ∀ n ∈ nodes, n.field ≠ some f := by
  induction h with
  | nothing | finish | manyNil | barring => exact fun _ hn => absurd hn List.not_mem_nil
  | token => exact fun _ hn => List.mem_singleton.1 hn ▸ nofun
  | angle => exact fun _ hn => List.mem_singleton.1 hn ▸ nofun
  | tree => exact fun _ hn => List.mem_singleton.1 hn ▸ nofun
  | wrap => exact fun _ hn => List.mem_singleton.1 hn ▸ nofun
  | part _ ih => exact ih (Bool.eq_false_iff.2 fun h => absurd (hparts _ h) (by simpa [Rule.knows] using hk)) hleft
  | both _ _ iha ihb =>
    obtain ⟨hka, hkb⟩ := Bool.or_eq_false_iff.1 hk
    exact fun n hn => (List.mem_append.1 hn).elim (iha hka hleft n) (ihb hkb hleft n)
  | first _ ih => exact ih (Bool.or_eq_false_iff.1 hk).1 hleft
  | second _ ih => exact ih (Bool.or_eq_false_iff.1 hk).2 hleft
  | manyCons _ _ iha ihs =>
    exact fun n hn => (List.mem_append.1 hn).elim (iha hk hleft n) (ihs hk hleft n)
  | @field g a _ nodes _ _ ih =>
    obtain ⟨hg, hka⟩ := Bool.or_eq_false_iff.1 hk
    intro n hn
    obtain ⟨m, hm, rfl⟩ := List.mem_map.1 hn
    have hm' := ih hka hleft m hm
    rw [field_withField]
    cases hmf : m.field with
    | none => simpa using hg
    | some e => simpa [hmf] using hm'
  | onto _ _ iha ihb =>
    obtain ⟨hka, hkb⟩ := Bool.or_eq_false_iff.1 hk
    exact ihb hkb (iha hka hleft)
  | stepsNil | keep => exact hleft
  | stepsCons _ _ iha ihs => exact ihs hk (iha hk hleft)

/-- **Whether a rule certainly gives something after all that is known by
a field.** -/
def Rule.closes (f : Field) (parts : Part → Bool) (least : Part → Nat) : Rule Part → Bool
  | .both _ b => decide (0 < b.least least) && !b.knows f parts || b.closes f parts least
  | _ => false

/-- **Where the rule says so, the last node is not known by the field.** -/
theorem Derives.closes {f : Field} {parts : Part → Bool} {least : Part → Nat}
    (hparts : ∀ p, (grammar p).knows f parts = true → parts p = true)
    (hleast : ∀ p, least p ≤ (grammar p).least least) {rule : Rule Part} {ts rest : List Token}
    {nodes : List Tree} (h : Derives grammar rule none ts nodes rest)
    (hc : rule.closes f parts least = true) :
    ∃ last ∈ nodes.getLast?, last.field ≠ some f := by
  induction rule generalizing ts nodes rest with
  | both a b _ ihb =>
    obtain ⟨nodes₁, mid, nodes₂, rfl, -, hb⟩ := h.of_both
    obtain ⟨last, hlast, hf⟩ : ∃ last ∈ nodes₂.getLast?, last.field ≠ some f := by
      rcases Bool.or_eq_true_iff.1 hc with hc | hc
      · obtain ⟨hpos, hk⟩ := Bool.and_eq_true_iff.1 hc
        have hlen := Nat.lt_of_lt_of_le (of_decide_eq_true hpos) (hb.least_le hleast nofun)
        have hne := List.ne_nil_of_length_pos hlen
        refine ⟨nodes₂.getLast hne, List.getLast?_eq_some_getLast hne, ?_⟩
        exact hb.knows hparts (by simpa using hk) nofun _ (List.getLast_mem hne)
      · exact ihb hb hc
    exact ⟨last, by rw [List.getLast?_append, hlast]; rfl, hf⟩
  | _ => simp [Rule.closes] at hc

/-! ## The last leaf -/

/-- **Trees end in some labels**: the last leaf has one of them, if there
is a leaf, or it is a fault. -/
def EndsIn (last : Label → Bool) (ts : List Tree) : Prop :=
  ∀ x ∈ (leavesAll ts).getLast?, last x.1 = true ∨ x.1.isFault = true

theorem endsIn_nil (last : Label → Bool) : EndsIn last [] := fun _ h => by simp at h

theorem EndsIn.append {last : Label → Bool} {ts us : List Tree} (hts : EndsIn last ts)
    (hus : EndsIn last us) : EndsIn last (ts ++ us) := by
  intro x hx
  rw [leavesAll_append, List.getLast?_append] at hx
  cases h : (leavesAll us).getLast? with
  | none =>
    rw [h, Option.none_or] at hx
    exact hts x hx
  | some y =>
    rw [h, Option.some_or] at hx
    exact hus x (h.trans hx)

/-- What comes last decides. -/
theorem EndsIn.append_of_ne_nil {last : Label → Bool} {ts us : List Tree} (hne : us ≠ [])
    (hus : EndsIn last us) : EndsIn last (ts ++ us) := by
  intro x hx
  have hleaves : leavesAll us ≠ [] := fun h => hne (leavesAll_eq_nil_iff.1 h)
  rw [leavesAll_append, List.getLast?_append_of_ne_nil _ hleaves] at hx
  exact hus x hx

theorem endsIn_map_withField {last : Label → Bool} {ts : List Tree} {f : Option Field}
    (h : EndsIn last ts) : EndsIn last (ts.map (withField f)) := by
  unfold EndsIn
  rw [leavesAll_map_withField]
  exact h

theorem endsIn_tokenLeaf {last : Label → Bool} {label : Label} {s : Span}
    (h : last label = true) : EndsIn last [tokenLeaf label s] := by
  intro x hx
  have hleaves : leavesAll [tokenLeaf label s]
      = [((tokenLeaf label s).label, s)] := rfl
  rw [hleaves] at hx
  obtain rfl : x = _ := (Option.some.inj hx).symm
  show last (tokenLeaf label s).label = true ∨ (tokenLeaf label s).label.isFault = true
  unfold tokenLeaf
  split
  next => exact .inl h
  next => exact .inr rfl

theorem endsIn_above {last : Label → Bool} {l : Label} {cs : List Tree} (hne : cs ≠ [])
    (h : EndsIn last cs) : EndsIn last [above l cs] := by
  unfold EndsIn
  rw [leavesAll_cons, leavesAll_nil, List.append_nil,
    leaves_of_children_ne_nil (show (above l cs).children ≠ [] from hne)]
  exact h

/-- **Whether what a rule gives always ends in some labels**, given the
same of the parts. -/
def Rule.trails (last : Label → Bool) (parts : Part → Bool) (least : Part → Nat) :
    Rule Part → Bool
  | .mark _ label | .word _ label => last label
  | .name kind _ | .piece kind => last (.named kind)
  | .angle => last (.punct .gt)
  | .part p => parts p
  | .both a b =>
    b.trails last parts least && (decide (0 < b.least least) || a.trails last parts least)
  | .either a b | .onto a b => a.trails last parts least && b.trails last parts least
  | .many a | .field _ a | .steps a => a.trails last parts least
  | .tree _ a | .wrap _ _ _ a => decide (0 < a.least least) && a.trails last parts least
  | .nothing | .finish | .barring _ | .keep => true

theorem Rule.trails_of_token? {last : Label → Bool} {parts : Part → Bool} {least : Part → Nat}
    {rule : Rule Part} (hr : rule.trails last parts least = true) {x : Lexeme} {label : Label}
    (h : rule.token? x = some label) : last label = true := by
  rcases Rule.token?_eq_some h with ⟨p, rfl, -⟩ | ⟨k, rfl, -⟩ | ⟨kind, taken, w, rfl, -, rfl, -⟩ |
    ⟨kind, rfl, -, rfl⟩ <;> exact hr

/-- **Where the rule says so, what it gives ends in the labels.** -/
theorem Derives.trails {last : Label → Bool} {parts : Part → Bool} {least : Part → Nat}
    (hparts : ∀ p, parts p = true → (grammar p).trails last parts least = true)
    (hleast : ∀ p, least p ≤ (grammar p).least least) {rule : Rule Part}
    {left : Option (List Tree)} {ts rest : List Token} {nodes : List Tree}
    (h : Derives grammar rule left ts nodes rest)
    (hr : rule.trails last parts least = true) (hleft : EndsIn last (left.getD [])) :
    EndsIn last nodes := by
  induction h with
  | nothing | finish | manyNil | barring => exact endsIn_nil last
  | token h => exact endsIn_tokenLeaf (Rule.trails_of_token? hr h)
  | angle => exact endsIn_tokenLeaf hr
  | part _ ih => exact ih (hparts _ hr) hleft
  | both _ hb iha ihb =>
    obtain ⟨hrb, hra⟩ := Bool.and_eq_true_iff.1 hr
    rcases Bool.or_eq_true_iff.1 hra with hpos | hra
    · have hlen := Nat.lt_of_lt_of_le (of_decide_eq_true hpos) (hb.least_le hleast nofun)
      exact .append_of_ne_nil (List.ne_nil_of_length_pos hlen) (ihb hrb hleft)
    · exact (iha hra hleft).append (ihb hrb hleft)
  | first _ ih => exact ih (Bool.and_eq_true_iff.1 hr).1 hleft
  | second _ ih => exact ih (Bool.and_eq_true_iff.1 hr).2 hleft
  | manyCons _ _ iha ihs => exact (iha hr hleft).append (ihs hr hleft)
  | field _ ih => exact endsIn_map_withField (ih hr hleft)
  | tree h ih =>
    obtain ⟨hpos, hra⟩ := Bool.and_eq_true_iff.1 hr
    have hlen := Nat.lt_of_lt_of_le (of_decide_eq_true hpos) (h.least_le hleast nofun)
    exact endsIn_above (List.ne_nil_of_length_pos hlen) (ih hra hleft)
  | onto _ _ iha ihb =>
    obtain ⟨hra, hrb⟩ := Bool.and_eq_true_iff.1 hr
    exact ihb hrb (iha hra hleft)
  | stepsNil | keep => exact hleft
  | stepsCons _ _ iha ihs => exact ihs hr (iha hr hleft)
  | wrap _ h ih =>
    obtain ⟨hpos, hra⟩ := Bool.and_eq_true_iff.1 hr
    have hlen := Nat.lt_of_lt_of_le (of_decide_eq_true hpos) (h.least_le hleast nofun)
    have hne := List.ne_nil_of_length_pos hlen
    exact endsIn_above (List.append_ne_nil_of_right_ne_nil _ hne)
      (.append_of_ne_nil hne (ih hra (endsIn_nil last)))

end JavaMutants.Syntax
