import JavaMutants.Proofs.Mutant.Reading

/-!
# What a mutant leaves alone

No target that is to be left alone is mutated itself, and what is apart from the
exchanged node reads the same in the mutant (`Exchanged.slice?_of_apart`), so also a
target in the mutated one that the node is not in. Marks are not handed down, though:
a declaration that is to be left alone can be changed as a part of one around it that
is mutated (`FileMutants.deprecated_changed`), and an operator changes a mutated target
wherever in it there is something to change.
-/

namespace JavaMutants

open Target (locate)

/-- **Where an offset of the file has gone to** in a mutant, if it is not in the changed
part. -/
def Mutant.moved (m : Mutant) (offset : Nat) : Nat :=
  if m.stop ≤ offset then offset - m.stop + (m.start + m.replacementSize) else offset

namespace Exchanged

variable {path : Path} {text : String} {file : SourceFile} {markers : Markers} {t d : Target}
  {m : Mutant}

/-- **Where an offset of the file has gone to** in the mutant, if it is not in the node. -/
def moved (x : Exchanged file t m) (offset : Nat) : Nat :=
  if x.nodeStop ≤ offset then offset - x.nodeStop + (x.nodeStart + Text.size x.new) else offset

/-- **Outside of the target the mutant knows it**: what it has recorded is enough to find an
offset again. -/
theorem moved_eq (x : Exchanged file t m) (hlt : x.nodeStart < x.nodeStop) {offset : Nat}
    (h : offset ≤ t.start ∨ t.stop ≤ offset) : m.moved offset = x.moved offset := by
  obtain ⟨hmstart, hmstop, hmsize⟩ := x.place
  have hstop := x.stop
  have hbounds := x.bounds
  simp only [Text.size_append] at hstop hmsize
  unfold Mutant.moved moved
  rcases h with hbefore | hafter
  · rw [if_neg (by omega), if_neg (by omega)]
  · rw [if_pos (by omega), if_pos (by omega)]
    unfold nodeStart nodeStop
    omega

/-- **What is apart from the node reads the same**, where it has gone to. -/
theorem slice?_of_apart (x : Exchanged file t m) (hlt : x.nodeStart < x.nodeStop) {start stop : Nat}
    (hle : start ≤ stop) (h : x.nodeStop ≤ start ∨ stop ≤ x.nodeStart) {s : String}
    (hs : file.slice? start stop = some s) :
    Text.slice? m.text (x.moved start) (x.moved stop) = some s := by
  have hsize : ∀ text, Text.size (x.ahead ++ x.before ++ text) = x.nodeStart + Text.size text :=
    fun text => by rw [Text.size_append, x.size_front]
  have hold : Text.size (x.ahead ++ x.before ++ x.old) = x.nodeStop := hsize x.old
  rw [SourceFile.slice?, x.file_eq, ← String.append_assoc] at hs
  rw [x.mutant_eq, ← String.append_assoc]
  unfold moved
  rcases h with hafter | hbefore
  · rw [if_pos hafter, if_pos (Nat.le_trans hafter hle), ← hold, ← hsize]
    exact Text.slice?_after hs (hold ▸ hafter) _
  · rw [if_neg (by omega), if_neg (by omega)]
    exact Text.slice?_before hs (x.size_front ▸ hbefore) _

/-- **A target that is apart from the node is found again** in the mutant. -/
theorem exists_slice?_moved (x : Exchanged file t m) (hfile : SourceFile.parse path text = .ok file)
    (ht : t ∈ locate markers file) (hd : d ∈ locate markers file)
    (h : x.nodeStop ≤ d.start ∨ d.stop ≤ x.nodeStart) :
    ∃ s, file.slice? d.start d.stop = some s
      ∧ Text.slice? m.text (x.moved d.start) (x.moved d.stop) = some s := by
  obtain ⟨y⟩ := x.exists_reading hfile ht
  obtain ⟨s, hs⟩ := Target.exists_slice?_of_mem_locate hfile hd
  have hlt := Target.start_lt_stop_of_mem_locate hfile hd
  exact ⟨s, hs, x.slice?_of_apart y.nodeStart_lt (Nat.le_of_lt hlt) h hs⟩

end Exchanged

namespace FileMutants

variable {path : Path} {text : String} {file : SourceFile} {named : List String} {r : Registry}

/-- **Deprecated declarations are left alone**, unless they are nested with what is
mutated. For every source file, all markers and every selection of the built-in
operators, each mutant has one node exchanged in a target that is not to be left alone.
A target that is to be left alone lies inside that one, or that one inside it; or else
the exchanged node does not touch it, and it reads in the mutant what it reads in the
file. Nested or not, whenever the exchanged node does not touch it, it is found in the
mutant with its whole text, moved by as much as the node has grown. -/
theorem deprecated_left_alone (hfile : SourceFile.parse path text = .ok file) (markers : Markers)
    (hr : Registry.builtin.select named = .ok r) {ms : List Mutant} {noOps : List Error}
    (h : ofTargets r file (locate markers file) = some ⟨.ok ms, noOps⟩) :
    ∀ m ∈ ms, ∃ t ∈ locate markers file, t.deprecated = false ∧ ∃ x : Exchanged file t m,
      ∀ d ∈ locate markers file, d.deprecated = true →
        (d.Inside t ∨ t.Inside d ∨ (x.nodeStop ≤ d.start ∨ d.stop ≤ x.nodeStart)
          ∧ ∃ s, file.slice? d.start d.stop = some s
            ∧ Text.slice? m.text (m.moved d.start) (m.moved d.stop) = some s)
        ∧ (x.nodeStop ≤ d.start ∨ d.stop ≤ x.nodeStart →
          ∃ s, file.slice? d.start d.stop = some s
            ∧ Text.slice? m.text (x.moved d.start) (x.moved d.stop) = some s) := by
  intro m hm
  obtain ⟨t, ht, hcurrent, ⟨x⟩⟩ := exists_exchanged hr h hm
  refine ⟨t, ht, hcurrent, x, fun d hd hdeprecated =>
    ⟨?_, x.exists_slice?_moved hfile ht hd⟩⟩
  have hne : t ≠ d := by
    rintro rfl
    rw [hcurrent] at hdeprecated
    cases hdeprecated
  rcases Target.inside_or_apart hfile ht hd hne with hin | hin | hapart
  · exact .inr (.inl hin)
  · exact .inl hin
  · -- outside of the target the two ways to move an offset agree
    obtain ⟨y⟩ := x.exists_reading hfile ht
    obtain ⟨hstart, -, hstop⟩ := x.bounds
    have hlt := Target.start_lt_stop_of_mem_locate hfile hd
    unfold Target.Apart at hapart
    have hmisses : x.nodeStop ≤ d.start ∨ d.stop ≤ x.nodeStart := by omega
    refine .inr (.inr ⟨hmisses, ?_⟩)
    rw [x.moved_eq y.nodeStart_lt (by omega), x.moved_eq y.nodeStart_lt (by omega)]
    exact x.exists_slice?_moved hfile ht hd hmisses

/-- One method to be mutated and one to be left alone, side by side. -/
theorem deprecated_left_alone_beside :
    let text := "class C \x7b @M void f() \x7b a == b; \x7d @M @D void g(); \x7d"
    ∃ file r ms noOps, SourceFile.parse ⟨"C.java"⟩ text = .ok file
      ∧ Registry.builtin.select ["flip_equality"] = .ok r
      ∧ ofTargets r file (locate ⟨"M", "D"⟩ file) = some ⟨.ok ms, noOps⟩
      ∧ ms.map (·.name) = ["C_method0_flip_equality_0"]
      ∧ ∀ m ∈ ms, ∃ t ∈ locate ⟨"M", "D"⟩ file, t.deprecated = false ∧ ∃ x : Exchanged file t m,
        ∀ d ∈ locate ⟨"M", "D"⟩ file, d.deprecated = true →
          (d.Inside t ∨ t.Inside d ∨ (x.nodeStop ≤ d.start ∨ d.stop ≤ x.nodeStart)
            ∧ ∃ s, file.slice? d.start d.stop = some s
              ∧ Text.slice? m.text (m.moved d.start) (m.moved d.stop) = some s)
          ∧ (x.nodeStop ≤ d.start ∨ d.stop ≤ x.nodeStart →
            ∃ s, file.slice? d.start d.stop = some s
              ∧ Text.slice? m.text (x.moved d.start) (x.moved d.stop) = some s) := by
  intro text
  let file : SourceFile := ⟨⟨"C.java"⟩, text, Syntax.parse text⟩
  obtain ⟨hfile, hlocate⟩ : SourceFile.parse ⟨"C.java"⟩ text = .ok file
      ∧ locate ⟨"M", "D"⟩ file = [⟨.method, "f", 10, 33, 0, true, false⟩,
        ⟨.method, "g", 34, 49, 1, true, true⟩] :=
    Target.parse_and_locate_eq _ (by decide +kernel)
  have hr : Registry.builtin.select ["flip_equality"]
      = .ok ⟨Registry.builtin.operators.filter fun o => ["flip_equality"].contains o.tag⟩ := rfl
  have hms : ofTargets ⟨Registry.builtin.operators.filter fun o =>
        ["flip_equality"].contains o.tag⟩ file (locate ⟨"M", "D"⟩ file) = some ⟨.ok [
      ⟨⟨"C.java"⟩, "C_method0_flip_equality_0",
        "class C \x7b @M void f() \x7b a != b; \x7d @M @D void g(); \x7d",
        .method, 0, "flip_equality_0", 10, 33, 23⟩], []⟩ := by
    rw [hlocate]
    decide +kernel
  exact ⟨file, _, _, _, hfile, hr, hms, rfl, deprecated_left_alone hfile _ hr hms⟩

/-- A class with a method that is to be left alone. -/
def deprecatedText : String :=
  "@Mutate class C \x7b @Mutate @Deprecated boolean f(int a) \x7b return a < 1; \x7d \x7d"

/-- **A declaration that is to be left alone can be changed** as a part of the class
that it is in. -/
theorem deprecated_changed :
    ∃ file ms noOps, SourceFile.parse ⟨"C.java"⟩ deprecatedText = .ok file
      ∧ ofTargets Registry.builtin file (locate {} file) = some ⟨.ok ms, noOps⟩
      ∧ ∃ m ∈ ms, ∃ d ∈ locate {} file, d.deprecated = true
        ∧ ∃ s, file.slice? d.start d.stop = some s ∧ ∀ a b, m.text ≠ a ++ s ++ b := by
  let file : SourceFile := ⟨⟨"C.java"⟩, deprecatedText, Syntax.parse deprecatedText⟩
  obtain ⟨hfile, hlocate⟩ : SourceFile.parse ⟨"C.java"⟩ deprecatedText = .ok file
      ∧ locate {} file = [⟨.typeDeclaration, "C", 0, 74, 0, true, false⟩,
        ⟨.method, "f", 18, 72, 0, true, true⟩] :=
    Target.parse_and_locate_eq _ (by decide +kernel)
  have hms : ofTargets Registry.builtin file (locate {} file) = some ⟨.ok [
      ⟨⟨"C.java"⟩, "C_type0_relational_boundary_0",
        "@Mutate class C \x7b @Mutate @Deprecated boolean f(int a) \x7b return a <= 1; \x7d \x7d",
        .typeDeclaration, 0, "relational_boundary_0", 0, 74, 75⟩], []⟩ := by
    rw [hlocate]
    decide +kernel
  have hd : (⟨.method, "f", 18, 72, 0, true, true⟩ : Target) ∈ locate {} file :=
    hlocate ▸ .tail _ (.head _)
  have hs : file.slice? 18 72
      = some "@Mutate @Deprecated boolean f(int a) \x7b return a < 1; \x7d" := by decide
  have hnot : ¬ "@Mutate @Deprecated boolean f(int a) \x7b return a < 1; \x7d".toList <:+:
      ("@Mutate class C \x7b @Mutate @Deprecated boolean f(int a) "
        ++ "\x7b return a <= 1; \x7d \x7d").toList := by
    decide +kernel
  refine ⟨file, _, _, hfile, hms, _, .head _, _, hd, rfl, _, hs, fun a b heq => ?_⟩
  have hinfix := congrArg String.toList heq
  rw [String.toList_append, String.toList_append] at hinfix
  exact hnot ⟨_, _, hinfix.symm⟩

end FileMutants

end JavaMutants
