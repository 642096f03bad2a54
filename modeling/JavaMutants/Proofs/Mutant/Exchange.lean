import JavaMutants.Proofs.Mutant.Splice
import JavaMutants.Proofs.Operator.Exchange
import JavaMutants.Proofs.Registry

/-!
# What a mutant has exchanged

A mutant of a built-in operator is its file with one node of one target exchanged
(`Exchanged`): around the node there is what is left of the target, and around that
what is left of the file. All mutants that a selection of the built-in operators gives
are of this form (`FileMutants.exists_exchanged`), and their targets are none that are
to be left alone.
-/

namespace JavaMutants

/-- **A mutant with a node of a target exchanged**: the parts of its text and of the
text of the file, which differ in the middle one. -/
structure Exchanged (file : SourceFile) (t : Target) (m : Mutant) where
  /-- The text before the target. -/
  ahead : String
  /-- The text of the target before the node. -/
  before : String
  /-- The text of the node. -/
  old : String
  /-- What has come in its place. -/
  new : String
  /-- The text of the target after the node. -/
  after : String
  /-- The text after the target. -/
  behind : String
  /-- The target parsed on its own. -/
  fragment : Fragment
  /-- The node. -/
  node : Syntax.Tree
  /-- The parts are those of the file. -/
  file_text : file.text = ahead ++ (before ++ old ++ after) ++ behind
  /-- All but one are those of the mutant. -/
  mutant_text : m.text = ahead ++ (before ++ new ++ after) ++ behind
  /-- The target begins after the text before it. -/
  start : Text.size ahead = t.start
  /-- The target ends where the text after it begins. -/
  stop : t.start + Text.size (before ++ old ++ after) = t.stop
  /-- The target is parsed on its own. -/
  parse : Fragment.parse? (before ++ old ++ after) (t.kind != .typeDeclaration) = some fragment
  /-- An operator exchanges the node. -/
  exchange : fragment.Exchange t node new
  /-- The text of the node is exchanged. -/
  textOf : fragment.textOf? node = some old
  /-- The node lies where its text does. -/
  range : fragment.localRange? node = some (Text.size before, Text.size before + Text.size old)
  /-- What comes in the place of the node is another text. -/
  changed : new ≠ old
  /-- The mutant knows what has changed. -/
  place : m.start = t.start ∧ m.stop = t.stop
    ∧ m.replacementSize = Text.size (before ++ new ++ after)

namespace Exchanged

variable {file : SourceFile} {t : Target} {m : Mutant} (x : Exchanged file t m)

/-- Where in the file the node begins. -/
def nodeStart : Nat := t.start + Text.size x.before

/-- Where in the file the node ends. -/
def nodeStop : Nat := t.start + Text.size x.before + Text.size x.old

/-- **The node lies in the target.** -/
theorem bounds : t.start ≤ x.nodeStart ∧ x.nodeStart ≤ x.nodeStop ∧ x.nodeStop ≤ t.stop := by
  have hstop := x.stop
  simp only [Text.size_append] at hstop
  unfold nodeStart nodeStop
  omega

/-- The file around the node. -/
theorem file_eq : file.text = (x.ahead ++ x.before) ++ (x.old ++ (x.after ++ x.behind)) := by
  rw [x.file_text]
  simp only [String.append_assoc]

/-- The mutant around the node. -/
theorem mutant_eq : m.text = (x.ahead ++ x.before) ++ (x.new ++ (x.after ++ x.behind)) := by
  rw [x.mutant_text]
  simp only [String.append_assoc]

/-- The node begins after what is before it in the file. -/
theorem size_front : Text.size (x.ahead ++ x.before) = x.nodeStart := by
  rw [Text.size_append, x.start, nodeStart]

end Exchanged

variable {named : List String} {r : Registry} {file : SourceFile}

/-- **The mutants of a target have one of its nodes exchanged.** -/
theorem Yields.exists_exchanged (hr : Registry.builtin.select named = .ok r) {t : Target}
    {group : List Mutant} (h : Yields r file t group) {m : Mutant} (hm : m ∈ group) :
    t.deprecated = false ∧ Nonempty (Exchanged file t m) := by
  obtain ⟨cs, noOps, hcs, hall⟩ := h
  obtain ⟨c, hc, hmc⟩ := exists_mem_left hall hm
  obtain ⟨span, vs, hspan, hvs, hsub, hne, -⟩ := Candidate.exists_variants_of_ofTarget hcs
  obtain ⟨v, hv, rfl⟩ := List.mem_map.1 (hsub.subset hc)
  obtain ⟨groups, hgroups, rfl⟩ := Option.map_eq_some_iff.1 hvs
  obtain ⟨vs', hvs', hv⟩ := List.mem_flatten.1 hv
  obtain ⟨o, ho, hovs⟩ := exists_mem_left ((mapM_eq_some_iff _ _ _).1 hgroups) hvs'
  have ho := (Registry.sublist_of_select hr).subset ho
  -- the version is one of those that the operator generates
  unfold Operator.variants at hovs
  split at hovs
  next happlies =>
    obtain ⟨texts, htexts, rfl⟩ := Option.map_eq_some_iff.1 hovs
    obtain ⟨⟨text, index⟩, htext, rfl⟩ := List.mem_map.1 hv
    obtain ⟨fragment, node, new, hparse, hexchange, hedit⟩ :=
      Registry.isExchanged_of_mem_builtin ho htexts (List.fst_mem_of_mem_zipIdx htext)
    have hof := Fragment.isOf_of_parse? hparse
    obtain ⟨before, old, after, rfl, htextOf, hrange, hall⟩ :=
      (hexchange.editable hof).exists_parts hof
    obtain rfl := Option.some.inj (hedit.symm.trans (hall new))
    obtain ⟨ahead, behind, hfile, hstart, hstop⟩ := Text.slice?_eq_some_iff.1 hspan
    refine ⟨Registry.not_deprecated_of_applies ho happlies, ⟨{
      ahead, before, old, new, after, behind, fragment, node
      file_text := hfile
      mutant_text := Mutant.text_of_assemble? hfile hstart hstop hmc
      start := hstart
      stop := hstop
      parse := hparse
      exchange := hexchange
      textOf := htextOf
      range := hrange
      changed := ?_
      place := ?_ }⟩⟩
    · rintro rfl
      exact hne _ hc rfl
    · obtain ⟨text, -, rfl⟩ := Option.map_eq_some_iff.1 hmc
      exact ⟨rfl, rfl, rfl⟩
  next =>
    cases hovs
    exact absurd hv List.not_mem_nil

/-- **Every mutant of a file has one node of a target exchanged** that is not to be left
alone. -/
theorem FileMutants.exists_exchanged (hr : Registry.builtin.select named = .ok r)
    {targets : List Target} {ms : List Mutant} {noOps : List Error}
    (h : ofTargets r file targets = some ⟨.ok ms, noOps⟩) {m : Mutant} (hm : m ∈ ms) :
    ∃ t ∈ targets, t.deprecated = false ∧ Nonempty (Exchanged file t m) := by
  obtain ⟨groups, hgroups, rfl, -⟩ := exists_ofTargetsFrom_ok_iff.1 ⟨noOps, h⟩
  obtain ⟨group, hgroup, hm⟩ := List.mem_flatten.1 hm
  obtain ⟨t, ht, hyields⟩ := exists_mem_left hgroups hgroup
  exact ⟨t, ht, hyields.exists_exchanged hr hm⟩

end JavaMutants
