import JavaMutants.Proofs.Mutant.Assembly
import JavaMutants.Proofs.Target.Locate

/-!
# Targets in targets

The places of two targets never overlap in part: one lies inside the other, or they are
apart (`Target.inside_or_apart`). The targets are declarations of one tree, and of two
nodes of a tree one is below the other or they stand side by side.

In the list of targets what comes later lies after or inside what comes before, and each
target cuts its file (`Target.locate_laminar`). So any of them can be taken out of the
file and be replaced.
-/

namespace JavaMutants

open Syntax Tree

/-- **Of two nodes below the root of a sound text** one is below the other, or they are
apart. -/
theorem Syntax.IsParse.below_or_apart {text : String} {tree c d a b : Tree} (h : IsParse text tree)
    (hc : c ∈ tree.children) (hd : d ∈ tree.children) (ha : a ∈ c.preorder) (hb : b ∈ d.preorder) :
    a ∈ b.preorder ∨ b ∈ a.preorder ∨ a.stop ≤ b.start ∨ b.stop ≤ a.start :=
  below_or_apart_of_children h.laid.ordered h.laid.nested
    (fun c hc _ ha _ hb => (h.laid.nested c hc).below_or_apart ha hb) hc hd ha hb

namespace Target

/-- **A target lies inside another one**, and does not take all of it. -/
def Inside (t u : Target) : Prop :=
  u.start ≤ t.start ∧ t.stop ≤ u.stop ∧ (u.start < t.start ∨ t.stop < u.stop)

/-- **Two targets are apart**: one has ended where the other begins. -/
def Apart (t u : Target) : Prop := t.stop ≤ u.start ∨ u.stop ≤ t.start

instance : DecidableRel Inside := fun t u =>
  inferInstanceAs (Decidable (u.start ≤ t.start ∧ t.stop ≤ u.stop
    ∧ (u.start < t.start ∨ t.stop < u.stop)))

instance : DecidableRel Apart := fun t u =>
  inferInstanceAs (Decidable (t.stop ≤ u.start ∨ u.stop ≤ t.start))

variable {path : Path} {text : String} {file : SourceFile} {markers : Markers} {t u : Target}

/-- A target is not empty. -/
theorem start_lt_stop_of_mem_locate (hfile : SourceFile.parse path text = .ok file)
    (ht : t ∈ locate markers file) : t.start < t.stop := by
  have h := isParse_of_parse hfile
  obtain ⟨node, mods, hmatch, -, hstart, hstop⟩ := exists_isMatch_of_mem_locate hfile ht
  obtain ⟨c, hc, hn⟩ := hmatch.exists_child h
  rw [hstart, hstop]
  exact ((h.laid.nested c hc).of_mem_preorder hn).lt

/-- The targets are found in the order of their places. -/
theorem pairwise_locate (hfile : SourceFile.parse path text = .ok file) :
    (locate markers file).Pairwise Precedes := by
  rw [locate_eq hfile]
  exact pairwise_number (pairwise_unnumbered (isParse_of_parse hfile))

/-- Different targets have different places. -/
theorem precedes_or_precedes (hfile : SourceFile.parse path text = .ok file)
    (ht : t ∈ locate markers file) (hu : u ∈ locate markers file) (hne : t ≠ u) :
    Precedes t u ∨ Precedes u t := by
  have hpairwise : (locate markers file).Pairwise fun a b => Precedes a b ∨ Precedes b a :=
    (pairwise_locate hfile).imp .inl
  have : Std.Symm fun a b : Target => Precedes a b ∨ Precedes b a := ⟨fun _ _ => Or.symm⟩
  exact hpairwise.forall ht hu hne

/-- **Of two targets of a file one lies inside the other, or they are apart.** -/
theorem inside_or_apart (hfile : SourceFile.parse path text = .ok file)
    (ht : t ∈ locate markers file) (hu : u ∈ locate markers file) (hne : t ≠ u) :
    t.Inside u ∨ u.Inside t ∨ t.Apart u := by
  have h := isParse_of_parse hfile
  have hplaces := precedes_or_precedes hfile ht hu hne
  obtain ⟨node, mods, hmatch, -, hstart, hstop⟩ := exists_isMatch_of_mem_locate hfile ht
  obtain ⟨node', mods', hmatch', -, hstart', hstop'⟩ := exists_isMatch_of_mem_locate hfile hu
  obtain ⟨c, hc, hn⟩ := hmatch.exists_child h
  obtain ⟨d, hd, hn'⟩ := hmatch'.exists_child h
  have hbelow : ∀ {a b : Tree}, (∃ c ∈ file.tree.children, b ∈ c.preorder) → a ∈ b.preorder →
      b.start ≤ a.start ∧ a.stop ≤ b.stop := by
    rintro a b ⟨c, hc, hb⟩ ha
    exact ((h.laid.nested c hc).of_mem_preorder hb).bounds ha
  unfold Precedes at hplaces
  unfold Inside Apart
  rcases h.below_or_apart hc hd hn hn' with hin | hin | hleft | hright
  · have := hbelow ⟨d, hd, hn'⟩ hin
    omega
  · have := hbelow ⟨c, hc, hn⟩ hin
    omega
  · omega
  · omega

/-- **What is found later** comes after what is found before or lies inside it. -/
theorem after_or_inside (hfile : SourceFile.parse path text = .ok file)
    (ht : t ∈ locate markers file) (hu : u ∈ locate markers file) (h : Precedes t u) :
    t.stop ≤ u.start ∨ u.Inside t := by
  have hnonempty := start_lt_stop_of_mem_locate hfile hu
  have hne : t ≠ u := by
    rintro rfl
    unfold Precedes at h
    omega
  rcases inside_or_apart hfile ht hu hne with hin | hin | hapart
  · unfold Inside at hin
    unfold Precedes at h
    omega
  · exact .inr hin
  · unfold Apart at hapart
    unfold Precedes at h
    omega

/-- **The targets of a file are nested or apart, and cut it.** Each of them begins before
it ends, and both are places between two characters of the file or at its ends. Of two of
them the later one begins where the earlier one has ended or after that, or it lies inside
the earlier one and does not take all of it; so no two have the same range. The text of
each of them can be taken out of the file, and any text can be put in its place. -/
theorem locate_laminar (hfile : SourceFile.parse path text = .ok file) (markers : Markers) :
    (∀ t ∈ locate markers file, t.start < t.stop ∧ t.stop ≤ Text.size file.text
        ∧ Text.IsCut file.text.toList t.start ∧ Text.IsCut file.text.toList t.stop)
      ∧ (locate markers file).Pairwise (fun t u => t.stop ≤ u.start ∨ u.Inside t)
      ∧ ((locate markers file).map fun t => (t.start, t.stop)).Nodup
      ∧ ∀ t ∈ locate markers file, (∃ span, file.slice? t.start t.stop = some span)
        ∧ ∀ tag replacement, ∃ m, Mutant.assemble? file t tag replacement = some m := by
  have hsorted : (locate markers file).Pairwise Precedes := pairwise_locate hfile
  refine ⟨fun t ht => ?_, hsorted.imp_of_mem (after_or_inside hfile), nodup_ranges hsorted,
    fun t ht => ?_⟩
  · obtain ⟨span, hspan⟩ := exists_slice?_of_mem_locate hfile ht
    obtain ⟨hstart, hstop⟩ := Text.isCut_of_slice? hspan
    exact ⟨start_lt_stop_of_mem_locate hfile ht, hstop.le, hstart, hstop⟩
  · obtain ⟨span, hspan⟩ := exists_slice?_of_mem_locate hfile ht
    exact ⟨⟨span, hspan⟩, Mutant.exists_assemble? hspan⟩

/-- A method in a class and one beside it, behind a letter of two bytes. -/
theorem locate_laminar_nested :
    let text := "/*ä*/ @M class A \x7b @M void f() \x7b\x7d @M A() \x7b\x7d \x7d"
    ∃ file, SourceFile.parse ⟨"A.java"⟩ text = .ok file
      ∧ (locate ⟨"M", "D"⟩ file).map (fun t => (t.start, t.stop)) = [(7, 46), (20, 34), (35, 44)]
      ∧ (locate ⟨"M", "D"⟩ file).Pairwise (fun t u => t.stop ≤ u.start ∨ u.Inside t)
      ∧ ∀ t ∈ locate ⟨"M", "D"⟩ file, t.start < t.stop ∧ t.stop ≤ Text.size file.text
        ∧ Text.IsCut file.text.toList t.start ∧ Text.IsCut file.text.toList t.stop := by
  intro text
  let file : SourceFile := ⟨⟨"A.java"⟩, text, Syntax.parse text⟩
  obtain ⟨hfile, hlocate⟩ : SourceFile.parse ⟨"A.java"⟩ text = .ok file
      ∧ locate ⟨"M", "D"⟩ file = [⟨.typeDeclaration, "A", 7, 46, 0, true, false⟩,
        ⟨.method, "f", 20, 34, 0, true, false⟩, ⟨.constructor, "A", 35, 44, 0, true, false⟩] :=
    parse_and_locate_eq _ (by decide +kernel)
  obtain ⟨hcuts, hpairwise, -⟩ := locate_laminar hfile ⟨"M", "D"⟩
  exact ⟨file, hfile, by rw [hlocate]; rfl, hpairwise, hcuts⟩

end Target

end JavaMutants
