import JavaMutants.Registry
import Mathlib.Data.List.Nodup

/-!
# Registries that can be built

A registry is an ordered list of operators, and nothing in it keeps two
operators from having the same tag. What does is the way registries are
built: from the empty one or the built-in one, by `register` and `select`
(`Registry.Reachable`). Of such a registry no two operators have the same
tag (`Registry.Reachable.nodup_tags`), whatever the tags are and whatever
the operators do.

What the two operations do is told by the tags alone. Registering asks for a
tag that is new; selecting asks for tags that are there, and neither their
order nor how often one is named counts (`select_eq_ok_iff`). `Laws` puts
this together for the registry at any time of a session (`laws_after`).
-/

namespace JavaMutants.Registry

/-- **The registries that can be built** from the empty one and the
built-in one. -/
inductive Reachable : Registry → Prop where
  /-- Start with no operators. -/
  | empty : Reachable empty
  /-- Start with those that come with the program. -/
  | builtin : Reachable builtin
  /-- Add an operator, whatever its tag and whatever it does. -/
  | register {r r' : Registry} {o : Operator} : Reachable r → r.register o = .ok r' → Reachable r'
  /-- Keep those that are named. -/
  | select {r r' : Registry} {named : List String} :
      Reachable r → r.select named = .ok r' → Reachable r'

/-! ## One step -/

theorem get?_eq_none_iff {r : Registry} {tag : String} : r.get? tag = none ↔ tag ∉ r.tags := by
  simp [get?, tags]

/-- An operator that is registered comes last, and its tag is a new one. -/
theorem register_eq_ok_iff {r r' : Registry} {o : Operator} :
    r.register o = .ok r' ↔ o.tag ∉ r.tags ∧ r' = ⟨r.operators ++ [o]⟩ := by
  rw [← get?_eq_none_iff, register]
  cases h : r.get? o.tag with
  | none => simp [eq_comm]
  | some found => simp

/-- **A selection is some of the operators, in the same order.** -/
theorem sublist_of_select {r r' : Registry} {named : List String}
    (h : r.select named = .ok r') : r'.operators.Sublist r.operators := by
  unfold select at h
  split at h
  · cases h
    exact .refl _
  · split at h
    · cases h
    · cases h
      exact List.filter_sublist

/-! ## A whole run -/

/-- **No tag stands twice** in a registry that can be built. -/
theorem Reachable.nodup_tags {r : Registry} (h : Reachable r) : r.tags.Nodup := by
  induction h with
  | empty => exact List.nodup_nil
  | builtin => decide
  | @register r r' o _ hr ih =>
    obtain ⟨hnew, rfl⟩ := register_eq_ok_iff.1 hr
    have htags : tags ⟨r.operators ++ [o]⟩ = r.tags ++ [o.tag] := List.map_append
    rw [htags]
    exact ih.append (List.nodup_singleton o.tag) (List.disjoint_singleton.2 hnew)
  | select _ hr ih => exact ih.sublist ((sublist_of_select hr).map _)

/-! ## What the operations do -/

/-- **An operator is refused for its tag alone.** -/
theorem register_eq_error_iff {r : Registry} {o : Operator} {e : Error} :
    r.register o = .error e
      ↔ o.tag ∈ r.tags ∧ e = .config ("Operator '" ++ o.tag ++ "' is already registered") := by
  have hnew : (r.get? o.tag).isSome = true ↔ o.tag ∈ r.tags := by
    rw [← not_iff_not, ← get?_eq_none_iff, Bool.not_eq_true, Option.isSome_eq_false_iff,
      Option.isNone_iff_eq_none]
  unfold register
  split
  next h => simp [hnew.1 h, eq_comm]
  next h => simp [mt hnew.2 h]

/-- Selecting by name looks for the first name that is not there. -/
theorem select_of_ne_nil {r : Registry} {named : List String} (hne : named ≠ []) :
    r.select named = match named.find? fun t => decide (t ∉ r.tags) with
      | some tag => .error (unknownOperator tag r.tags)
      | none => .ok ⟨r.operators.filter fun o => decide (o.tag ∈ named)⟩ := by
  have hunknown : (fun t => (r.get? t).isNone) = fun t => decide (t ∉ r.tags) := by
    funext t
    rw [Bool.eq_iff_iff, Option.isNone_iff_eq_none, get?_eq_none_iff, decide_eq_true_iff]
  have hempty : named.isEmpty = false := List.isEmpty_eq_false_iff.2 hne
  rw [select, hempty, hunknown, if_neg Bool.false_ne_true]
  cases named.find? fun t => decide (t ∉ r.tags) with
  | none => simp only [List.contains_eq_mem]
  | some tag => rfl

/-- **A selection succeeds if all names are there**, and keeps the operators
that are named. -/
theorem select_eq_ok_iff {r r' : Registry} {named : List String} (hne : named ≠ []) :
    r.select named = .ok r'
      ↔ (∀ t ∈ named, t ∈ r.tags)
        ∧ r' = ⟨r.operators.filter fun o => decide (o.tag ∈ named)⟩ := by
  have hall : (named.find? fun t => decide (t ∉ r.tags)) = none ↔ ∀ t ∈ named, t ∈ r.tags := by
    simp
  rw [select_of_ne_nil hne, ← hall]
  cases named.find? fun t => decide (t ∉ r.tags) with
  | none => simp [eq_comm]
  | some tag => simp

/-- **A selection is refused for the first name that is not there.** -/
theorem select_eq_error_iff {r : Registry} {named : List String} {e : Error} :
    r.select named = .error e
      ↔ ∃ known tag others, named = known ++ tag :: others ∧ (∀ t ∈ known, t ∈ r.tags)
        ∧ tag ∉ r.tags ∧ e = unknownOperator tag r.tags := by
  rcases eq_or_ne named [] with rfl | hne
  · simp [select]
  have hfirst (tag : String) : (named.find? fun t => decide (t ∉ r.tags)) = some tag
      ↔ ∃ known others, named = known ++ tag :: others ∧ (∀ t ∈ known, t ∈ r.tags)
        ∧ tag ∉ r.tags := by
    rw [List.find?_eq_some_iff_append]
    simp only [decide_eq_true_iff, Bool.not_eq_true', decide_eq_false_iff_not, not_not]
    exact ⟨fun ⟨ht, known, others, h, hknown⟩ => ⟨known, others, h, hknown, ht⟩,
      fun ⟨known, others, h, hknown, ht⟩ => ⟨ht, known, others, h, hknown⟩⟩
  rw [select_of_ne_nil hne]
  cases h : named.find? fun t => decide (t ∉ r.tags) with
  | none =>
    refine iff_of_false nofun ?_
    rintro ⟨known, tag, others, hnamed, hknown, htag, -⟩
    rw [(hfirst tag).2 ⟨known, others, hnamed, hknown, htag⟩] at h
    cases h
  | some tag =>
    obtain ⟨known, others, hnamed, hknown, htag⟩ := (hfirst tag).1 h
    constructor
    · rintro ⟨⟩
      exact ⟨known, tag, others, hnamed, hknown, htag, rfl⟩
    · rintro ⟨known', tag', others', hnamed', hknown', htag', rfl⟩
      rw [(hfirst tag').2 ⟨known', others', hnamed', hknown', htag'⟩] at h
      cases h
      rfl

/-- The tags of a selection are those that are named. -/
theorem mem_tags_of_select {r r' : Registry} {named : List String} (hne : named ≠ [])
    (h : r.select named = .ok r') (t : String) : t ∈ r'.tags ↔ t ∈ named := by
  obtain ⟨hknown, rfl⟩ := (select_eq_ok_iff hne).1 h
  have hmem : t ∈ tags ⟨r.operators.filter fun o => decide (o.tag ∈ named)⟩
      ↔ t ∈ r.tags ∧ t ∈ named := by
    simp only [tags, List.mem_map, List.mem_filter, decide_eq_true_iff]
    exact ⟨fun ⟨o, ⟨ho, hn⟩, ht⟩ => ⟨⟨o, ho, ht⟩, ht ▸ hn⟩,
      fun ⟨⟨o, ho, ht⟩, hn⟩ => ⟨o, ⟨ho, ht ▸ hn⟩, ht⟩⟩
  exact hmem.trans ⟨And.right, fun hn => ⟨hknown t hn, hn⟩⟩

/-- **Selecting from a selection** succeeds for names that were kept, and is
then selecting from the whole. -/
theorem select_select {r r' : Registry} {as bs : List String} (ha : as ≠ []) (hb : bs ≠ [])
    (h : r.select as = .ok r') :
    ((∃ r'', r'.select bs = .ok r'') ↔ ∀ t ∈ bs, t ∈ as)
      ∧ ((∀ t ∈ bs, t ∈ as) → r'.select bs = r.select bs) := by
  have hkept := mem_tags_of_select ha h
  obtain ⟨hknown, hr'⟩ := (select_eq_ok_iff ha).1 h
  refine ⟨?_, fun hsub => ?_⟩
  · simp only [select_eq_ok_iff hb, hkept]
    exact ⟨fun ⟨_, hsub, _⟩ => hsub, fun hsub => ⟨_, hsub, rfl⟩⟩
  · have hwhole := (select_eq_ok_iff hb).2 ⟨fun t ht => hknown t (hsub t ht), rfl⟩
    have hpart := (select_eq_ok_iff hb).2 ⟨fun t ht => (hkept t).2 (hsub t ht), rfl⟩
    rw [hwhole, hpart, hr', List.filter_filter]
    congr 2
    refine List.filter_congr fun o _ => ?_
    have himp := hsub o.tag
    by_cases hn : o.tag ∈ bs
    · simp [hn, himp hn]
    · simp [hn]

/-! ## Sessions -/

/-- What can be asked of a registry. -/
inductive Change where
  /-- To add an operator. -/
  | register (o : Operator)
  /-- To keep only the operators that are named. -/
  | select (named : List String)

/-- **One change**, or why it is refused. -/
def change (r : Registry) : Change → Except Error Registry
  | .register o => r.register o
  | .select named => r.select named

/-- **The registry after a session.** A change that is refused leaves it as
it is. -/
def after (r : Registry) (changes : List Change) : Registry :=
  changes.foldl (fun r c => (r.change c).toOption.getD r) r

/-- What can be built can be built on. -/
theorem Reachable.after {r : Registry} (h : Reachable r) (changes : List Change) :
    Reachable (r.after changes) := by
  induction changes generalizing r with
  | nil => exact h
  | cons c changes ih =>
    refine ih (r := (r.change c).toOption.getD r) ?_
    cases hc : r.change c with
    | error e => exact h
    | ok r' =>
      cases c with
      | register o => exact h.register hc
      | select named => exact h.select hc

/-- **What can be relied on** in a registry and its operations. -/
structure Laws (r : Registry) : Prop where
  /-- No tag stands twice. -/
  nodup : r.tags.Nodup
  /-- Registering fails for a tag that is there, with a message that names it. -/
  register_error : ∀ o, (∃ e, r.register o = .error e) ↔ o.tag ∈ r.tags
  /-- What is refused changes nothing, and is told by its tag. -/
  register_refused : ∀ o, o.tag ∈ r.tags → r.after [.register o] = r
    ∧ r.register o = .error (.config ("Operator '" ++ o.tag ++ "' is already registered"))
  /-- Any other operator comes last. -/
  register_ok : ∀ o, o.tag ∉ r.tags → r.register o = .ok ⟨r.operators ++ [o]⟩
  /-- Selecting by name fails if a name is not there. -/
  select_error : ∀ named ≠ [], (∃ e, r.select named = .error e) ↔ ∃ t ∈ named, t ∉ r.tags
  /-- The first such name is told. -/
  select_first : ∀ known tag others, (∀ t ∈ known, t ∈ r.tags) → tag ∉ r.tags →
    r.select (known ++ tag :: others) = .error (unknownOperator tag r.tags)
  /-- Otherwise it keeps the operators that are named, in their order. -/
  select_ok : ∀ named ≠ [], (∀ t ∈ named, t ∈ r.tags) →
    r.select named = .ok ⟨r.operators.filter fun o => decide (o.tag ∈ named)⟩
  /-- Neither the order of the names nor how often they are named counts. -/
  select_congr : ∀ as bs : List String, (∀ t, t ∈ as ↔ t ∈ bs) → ∀ r',
    r.select as = .ok r' ↔ r.select bs = .ok r'
  /-- Naming none keeps all. -/
  select_nil : r.select [] = .ok r
  /-- A selection can be selected from by the names that were kept. -/
  select_again : ∀ as ≠ [], ∀ bs ≠ [], ∀ r', r.select as = .ok r' →
    ((∃ r'', r'.select bs = .ok r'') ↔ ∀ t ∈ bs, t ∈ as)
  /-- That is as good as selecting from the whole. -/
  select_through : ∀ as ≠ [], ∀ bs ≠ [], ∀ r' r'', r.select as = .ok r' →
    r'.select bs = .ok r'' → r.select bs = .ok r''

/-- The names that count are the same ones. -/
theorem select_congr {r r' : Registry} {as bs : List String} (h : ∀ t, t ∈ as ↔ t ∈ bs) :
    r.select as = .ok r' ↔ r.select bs = .ok r' := by
  have hnil : as = [] ↔ bs = [] := by
    simp only [List.eq_nil_iff_forall_not_mem, h]
  rcases eq_or_ne as [] with rfl | ha
  · rw [hnil.1 rfl]
  · rw [select_eq_ok_iff ha, select_eq_ok_iff fun hb => ha (hnil.2 hb)]
    simp only [h]

/-- **The laws need no more than that no tag stands twice.** -/
theorem laws_of_nodup {r : Registry} (h : r.tags.Nodup) : Laws r where
  nodup := h
  register_error o := by simp [register_eq_error_iff]
  register_refused o ho := by
    have herror := register_eq_error_iff.2 ⟨ho, rfl⟩
    refine ⟨?_, herror⟩
    show (r.register o).toOption.getD r = r
    rw [herror]
    rfl
  register_ok o ho := register_eq_ok_iff.2 ⟨ho, rfl⟩
  select_error named hne := by
    constructor
    · rintro ⟨e, he⟩
      obtain ⟨known, tag, others, rfl, -, htag, -⟩ := select_eq_error_iff.1 he
      exact ⟨tag, List.mem_append_right known List.mem_cons_self, htag⟩
    · rintro ⟨t, ht, hnot⟩
      cases hs : r.select named with
      | error e => exact ⟨e, rfl⟩
      | ok r' => exact absurd (((select_eq_ok_iff hne).1 hs).1 t ht) hnot
  select_first known tag others hknown htag :=
    select_eq_error_iff.2 ⟨known, tag, others, rfl, hknown, htag, rfl⟩
  select_ok named hne hknown := (select_eq_ok_iff hne).2 ⟨hknown, rfl⟩
  select_congr as bs hsame r' := select_congr hsame
  select_nil := rfl
  select_again as ha bs hb r' hr' := (select_select ha hb hr').1
  select_through as ha bs hb r' r'' hr' hr'' := by
    obtain ⟨hiff, hsame⟩ := select_select ha hb hr'
    rw [← hsame (hiff.1 ⟨r'', hr''⟩), hr'']

/-- **The laws hold at any time of a session**, whatever is asked for and
whatever is refused. -/
theorem laws_after (changes : List Change) :
    Laws (empty.after changes) ∧ Laws (builtin.after changes) :=
  ⟨laws_of_nodup (Reachable.empty.after changes).nodup_tags,
    laws_of_nodup (Reachable.builtin.after changes).nodup_tags⟩

/-- Selecting, failing to select and failing to register. -/
example : (builtin.after [.select ["flip_equality", "empty_body", "empty_body"],
    .select ["negate_return"], .select ["empty_body"],
    .register ⟨"empty_body", "", fun _ => true, fun _ _ => some []⟩]).tags
    = ["empty_body"] := by
  decide

end JavaMutants.Registry
