import JavaMutants.Proofs.Mutant.Assembly
import JavaMutants.Proofs.Target.Locate
import JavaMutants.Proofs.Text.Cut

/-!
# A mutant is a splice that can be undone

Every offset of a mutant counts bytes while its text is made of
characters, so undoing a splice hangs on both texts being cut at the same
places. They are: a mutant differs from its file in the middle one of
three parts (`IsSplice`), and the two parts around it are the same
characters in both.

What the sieve has seen to, survives the splice: a mutant is never the
file itself, and no two mutants of one target are the same text. That a
mutant is well-formed, nobody sees to, and not all of them are
(`FileMutants.malformed_mutant`).
-/

namespace JavaMutants

/-- **A mutant puts a candidate in the place of a target**: the text of the
file before the target, then the candidate, then the text after the
target. The candidate can be read off the mutant again, and putting back
what stood there gives the file. -/
structure IsSplice (file : SourceFile) (t : Target) (c : Candidate) (m : Mutant) : Prop where
  /-- The three parts, in the file and in the mutant, and the way back. -/
  parts : ∃ before span after : String,
    file.text = before ++ span ++ after
      ∧ Text.size before = t.start ∧ Text.size before + Text.size span = t.stop
      ∧ file.slice? t.start t.stop = some span
      ∧ m.text = before ++ c.replacement ++ after
      ∧ m.revert? span = some file.text
  /-- The candidate, read off the mutant. -/
  replacement : m.replacement? = some c.replacement
  /-- The mutant is not the file. -/
  changed : m.text ≠ file.text
  /-- The mutant knows where it comes from. -/
  origin : m.origin = file.path ∧ m.kind = t.kind ∧ m.ordinal = t.ordinal
    ∧ m.operator = c.tag ∧ m.start = t.start ∧ m.stop = t.stop

namespace Mutant

variable {file : SourceFile} {t : Target} {c : Candidate} {m : Mutant}

/-- Two texts that agree before and after their middle parts differ if
the middle parts do. -/
theorem splice_ne {a b s s' : String} (h : s ≠ s') : a ++ s ++ b ≠ a ++ s' ++ b := by
  intro heq
  rw [← String.toList_inj] at heq
  simp only [String.toList_append, List.append_assoc, List.append_cancel_left_eq,
    List.append_cancel_right_eq, String.toList_inj] at heq
  exact h heq

/-- The text of a mutant of a file that has been cut. -/
theorem text_of_assemble? {a span b tag replacement : String}
    (hfile : file.text = a ++ span ++ b) (hstart : Text.size a = t.start)
    (hstop : t.start + Text.size span = t.stop)
    (h : assemble? file t tag replacement = some m) : m.text = a ++ replacement ++ b := by
  obtain ⟨text, htext, rfl⟩ := Option.map_eq_some_iff.1 h
  rw [hfile, ← hstop, ← hstart, Text.splice?_append] at htext
  exact (Option.some.inj htext).symm

/-- **Assembling is a splice** for a candidate that is not the text
already there. -/
theorem isSplice_of_assemble? {span : String} (hspan : file.slice? t.start t.stop = some span)
    (hne : c.replacement ≠ span) (h : assemble? file t c.tag c.replacement = some m) :
    IsSplice file t c m := by
  obtain ⟨a, b, hfile, hstart, hstop⟩ := Text.slice?_eq_some_iff.1 hspan
  have htext : m.text = a ++ c.replacement ++ b := text_of_assemble? hfile hstart hstop h
  obtain ⟨text, -, rfl⟩ := Option.map_eq_some_iff.1 h
  refine ⟨⟨a, span, b, hfile, hstart, hstart ▸ hstop, hspan, htext, ?_⟩, ?_, ?_,
    rfl, rfl, rfl, rfl, rfl, rfl⟩
  · rw [revert?, htext, hfile, ← hstart]
    exact Text.splice?_append a c.replacement b span
  · rw [replacement?, htext, ← hstart]
    exact Text.slice?_append a c.replacement b
  · rw [htext, hfile]
    exact splice_ne hne

end Mutant

/-- The mutants of a target are splices of its candidates, no two of them
the same. -/
theorem Yields.splices {r : Registry} {file : SourceFile} {t : Target} {group : List Mutant}
    (h : Yields r file t group) :
    ∃ cs noOps, Candidate.ofTarget r file t = some (cs, noOps)
      ∧ List.Forall₂ (IsSplice file t) cs group ∧ (group.map (·.text)).Nodup := by
  obtain ⟨cs, noOps, hcs, hall⟩ := h
  obtain ⟨span, vs, hspan, -, -, hne, hnodup⟩ := Candidate.exists_variants_of_ofTarget hcs
  refine ⟨cs, noOps, hcs, ?_, ?_⟩
  · have hboth := (List.forall₂_and_left cs group).2 ⟨hne, hall⟩
    exact hboth.imp fun c m hm => Mutant.isSplice_of_assemble? hspan hm.1 hm.2
  · -- a text determines its middle part, and the middle parts are distinct
    obtain ⟨a, b, hfile, hstart, hstop⟩ := Text.slice?_eq_some_iff.1 hspan
    have htexts : group.map (·.text) = (cs.map (·.replacement)).map (a ++ · ++ b) := by
      rw [List.map_map]
      exact (map_eq_map_of_forall₂ (hall.imp fun c m hm =>
        (Mutant.text_of_assemble? hfile hstart hstop hm).symm)).symm
    rw [htexts]
    exact hnodup.map fun s s' heq => by_contra fun hss => Mutant.splice_ne hss heq

/-- **The mutants of a file are splices that can be undone.** Wherever the
work on a file ends well, its mutants are, target after target, one for
each candidate: the file with the candidate in the place of the target.
The candidate can be read off, putting back the target's text gives the
file, no mutant is the file, and no two mutants made from one place of
the list of targets are the same text. A run that ends at all has cut the
file at each of its targets, so nothing is asked of them. -/
theorem FileMutants.splices_of_ofTargets {r : Registry} {file : SourceFile}
    {targets : List Target} {ms : List Mutant} {noOps : List Error}
    (h : ofTargets r file targets = some ⟨.ok ms, noOps⟩) :
    ∃ groups : List (List Mutant), ms = groups.flatten
      ∧ List.Forall₂ (fun t group => ∃ cs dropped,
          Candidate.ofTarget r file t = some (cs, dropped)
            ∧ List.Forall₂ (IsSplice file t) cs group ∧ (group.map (·.text)).Nodup)
        targets groups := by
  obtain ⟨groups, hgroups, hms, -⟩ := exists_ofTargetsFrom_ok_iff.1 ⟨noOps, h⟩
  exact ⟨groups, hms, hgroups.imp fun _ _ => Yields.splices⟩

/-- A text with letters of two bytes around a target, and an operator with
a blank version, the text itself and a version twice: one mutant comes of
it, and it can be undone. -/
theorem FileMutants.splices_of_ofTargets_umlaut :
    let file : SourceFile := ⟨⟨"Ü.java"⟩, "ä<x>ö", .leaf (.named .program) ⟨0, 7⟩⟩
    let target : Target := ⟨.method, "x", 2, 5, 0, true, false⟩
    let double : Operator :=
      ⟨"double", "", fun _ => true, fun _ s => some [" ", s ++ "ß", s, s ++ "ß"]⟩
    ∃ ms noOps, ofTargets ⟨[double]⟩ file [target] = some ⟨.ok ms, noOps⟩
      ∧ ∃ groups : List (List Mutant), ms = groups.flatten
        ∧ List.Forall₂ (fun t group => ∃ cs dropped,
            Candidate.ofTarget ⟨[double]⟩ file t = some (cs, dropped)
              ∧ List.Forall₂ (IsSplice file t) cs group ∧ (group.map (·.text)).Nodup)
          [target] groups := by
  intro file target double
  have h : ofTargets ⟨[double]⟩ file [target] = some ⟨.ok [
      ⟨⟨"Ü.java"⟩, "Ü_method0_double_1", "ä<x>ßö", .method, 0, "double_1", 2, 5, 5⟩],
      [.noOp "double_2" "method 'x' #0 in Ü.java"]⟩ := by decide +kernel
  exact ⟨_, _, h, splices_of_ofTargets h⟩

/-- **A mutant need not be well-formed.** Where a comment stands between
`return` and the value, it is the comment that is negated, and the value
is left over. -/
theorem FileMutants.malformed_mutant :
    ∃ file ms noOps,
      SourceFile.parse ⟨"C.java"⟩
          "class C \x7b @Mutate boolean f() \x7b return /* c */ a; \x7d \x7d" = .ok file
        ∧ ofTargets Registry.builtin file (Target.locate {} file) = some ⟨.ok ms, noOps⟩
        ∧ ∃ m ∈ ms, m.text = "class C \x7b @Mutate boolean f() \x7b return !(/* c */) a; \x7d \x7d"
          ∧ ∀ path mutant, SourceFile.parse path m.text ≠ .ok mutant := by
  let text := "class C \x7b @Mutate boolean f() \x7b return /* c */ a; \x7d \x7d"
  let file : SourceFile := ⟨⟨"C.java"⟩, text, Syntax.parse text⟩
  obtain ⟨hfile, hlocate⟩ : SourceFile.parse ⟨"C.java"⟩ text = .ok file
      ∧ Target.locate {} file = [⟨.method, "f", 10, 51, 0, true, false⟩] :=
    Target.parse_and_locate_eq _ (by decide +kernel)
  have hms : ofTargets Registry.builtin file (Target.locate {} file) = some ⟨.ok [
      ⟨⟨"C.java"⟩, "C_method0_default_return_0",
        "class C \x7b @Mutate boolean f() \x7b return false; \x7d \x7d", .method, 0,
        "default_return_0", 10, 51, 37⟩,
      ⟨⟨"C.java"⟩, "C_method0_default_return_1",
        "class C \x7b @Mutate boolean f() \x7b return true; \x7d \x7d", .method, 0,
        "default_return_1", 10, 51, 36⟩,
      ⟨⟨"C.java"⟩, "C_method0_negate_return_0",
        "class C \x7b @Mutate boolean f() \x7b return !(/* c */) a; \x7d \x7d", .method, 0,
        "negate_return_0", 10, 51, 44⟩], []⟩ := by
    rw [hlocate]
    decide +kernel
  refine ⟨file, _, _, hfile, hms, _, .tail _ (.tail _ (.head _)), rfl, fun path mutant h => ?_⟩
  have hunread : (Syntax.readProgram (Syntax.Token.code
      "class C \x7b @Mutate boolean f() \x7b return !(/* c */) a; \x7d \x7d".toList)).result = none := by
    decide +kernel
  unfold SourceFile.parse at h
  split at h
  next tree htree =>
    obtain ⟨root, rest, hread, -⟩ := Syntax.exists_read_of_parseSound htree
    exact absurd (hunread.symm.trans hread) nofun
  next => cases h

end JavaMutants
