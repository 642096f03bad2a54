import JavaMutants.Proofs.Mutant.Distinct
import JavaMutants.Proofs.Mutant.Reading

/-!
# Mutants with the same text

The versions of one target are sifted, so no two mutants of one target have the same
text. Nobody sees to it that no two mutants of a file do, and an operator changes a
target wherever in it there is something to change: in a target inside another one the
same mark can be exchanged twice (`FileMutants.same_text`).

This is the only way to have one text twice (`FileMutants.texts_differ_unless_nested`).
Two nodes that are exchanged in a file are apart, or one of them lies in the other. What
they have between them, or around the inner one, would be made of the few marks that
operators and negations bring along, and so the nodes are at one place
(`Exchanged.same_of_text_eq`).
-/

namespace JavaMutants

open Syntax Text Tree
open Target (locate)

namespace Exchanged

variable {path : Path} {text : String} {file : SourceFile} {markers : Markers} {t u : Target}
  {m n : Mutant}

/-- **What is exchanged is reworded**, by one of the three sorts of exchange. -/
theorem Reading.cases {e : Exchanged file t m} (x : e.Reading) :
    Swaps e.old.toList e.new.toList
      ∨ (Negates e.old.toList e.new.toList ∧ e.fragment.Sealed e.node)
      ∨ (Rebodies e.old.toList e.new.toList ∧ Nonempty (Braced e.fragment.text e.node)) :=
  e.exchange.cases x.read.parse ⟨x.kind, by rw [Tree.kind?, x.read.label], x.declares⟩ e.textOf

theorem Reading.rewording {e : Exchanged file t m} (x : e.Reading) :
    Rewording e.old.toList e.new.toList :=
  x.cases.imp id (Or.imp And.left And.left)

/-- What comes in the place of the node is other characters. -/
theorem toList_changed (e : Exchanged file t m) : e.new.toList ≠ e.old.toList :=
  fun h => e.changed (String.toList_inj.1 h)

/-! ## Two exchanges in one file -/

section Pair

variable (e : Exchanged file t m) (f : Exchanged file u n)

/-- **Two nodes that are apart** are not exchanged to the same effect. -/
theorem text_ne_of_apart (he : Rewording e.old.toList e.new.toList)
    (hf : Rewording f.old.toList f.new.toList) (h : e.nodeStop ≤ f.nodeStart) : m.text ≠ n.text := by
  have hparts : (e.ahead ++ e.before ++ e.old) ++ (e.after ++ e.behind)
      = (f.ahead ++ f.before) ++ (f.old ++ (f.after ++ f.behind)) := by
    rw [← f.file_eq, e.file_eq]
    simp only [String.append_assoc]
  obtain ⟨gap, hfront, hbehind⟩ := exists_of_append_eq hparts (by
    rw [size_append, size_front, size_front]
    unfold nodeStop nodeStart at *
    omega)
  intro heq
  rw [e.mutant_eq, f.mutant_eq, hfront, hbehind] at heq
  have htexts := congrArg String.toList heq
  simp only [String.toList_append, List.append_assoc] at htexts
  have htexts := List.append_cancel_left (List.append_cancel_left htexts)
  exact he.ne_of_apart e.toList_changed hf gap.toList (f.after.toList ++ f.behind.toList) htexts

/-- **A node in the other one** has something around it there. -/
theorem exists_inside (hstart : e.nodeStart ≤ f.nodeStart) (hstop : f.nodeStop ≤ e.nodeStop) :
    ∃ p q, e.old = p ++ (f.old ++ q) ∧ f.ahead ++ f.before = e.ahead ++ e.before ++ p
      ∧ f.after ++ f.behind = q ++ (e.after ++ e.behind) := by
  obtain ⟨p, hfront, hrest⟩ := exists_of_append_eq (e.file_eq.symm.trans f.file_eq) (by
    rw [size_front, size_front]
    exact hstart)
  have hsize := congrArg size hfront
  rw [size_front, size_append, size_front] at hsize
  have hrest : p ++ f.old ++ (f.after ++ f.behind) = e.old ++ (e.after ++ e.behind) := by
    rw [hrest, String.append_assoc]
  obtain ⟨q, hold, hbehind⟩ := exists_of_append_eq hrest (by
    rw [size_append]
    unfold nodeStop nodeStart at *
    omega)
  exact ⟨p, q, by rw [hold, String.append_assoc], hfront, hbehind⟩

variable {e f}

/-- Then the new text of the outer node has the new text of the inner one in it, if the
mutants have one text. -/
theorem new_eq_of_text_eq {p q : String} (hfront : f.ahead ++ f.before = e.ahead ++ e.before ++ p)
    (hbehind : f.after ++ f.behind = q ++ (e.after ++ e.behind)) (h : m.text = n.text) :
    e.new = p ++ (f.new ++ q) := by
  rw [e.mutant_eq, f.mutant_eq, hfront, hbehind] at h
  have htexts := congrArg String.toList h
  simp only [String.toList_append, List.append_assoc] at htexts
  have htexts := List.append_cancel_left (List.append_cancel_left htexts)
  simp only [← List.append_assoc] at htexts
  have htexts := List.append_cancel_right (List.append_cancel_right htexts)
  rw [← String.toList_inj, htexts]
  simp only [String.toList_append, List.append_assoc]

/-- **After a negated node and inside what is exchanged around it** there are characters
beside the marks. -/
theorem exists_mem_of_sealed (hfile : SourceFile.parse path text = .ok file) (x : e.Reading)
    (y : f.Reading) (hsealed : f.fragment.Sealed f.node) (hstart : e.nodeStart ≤ f.nodeStart)
    (hstop : f.nodeStop ≤ e.nodeStop)
    (hne : e.nodeStart < f.nodeStart ∨ f.nodeStop < e.nodeStop) {q : String}
    (hbehind : f.after ++ f.behind = q ++ (e.after ++ e.behind))
    (hq : f.nodeStop + size q = e.nodeStop) : ∃ d ∈ q.toList, d ∉ exchangeMarks := by
  obtain ⟨c, hc, z, hz, -, hzstart, hzstop⟩ := x.exists_place hfile
  rw [← hzstart] at hstart hne
  rw [← hzstop] at hstop hne hq
  obtain ⟨stop, hother, hle, hle'⟩ := y.exists_other hfile hsealed hc hz hstart hstop hne
  have hof := Fragment.isOf_of_parse? f.parse
  have hfstop := f.stop
  have hnodestop : f.node.stop = f.fragment.offset + size (f.before ++ f.old) := by
    have hplace := (Reading.place_node f).2
    unfold nodeStop at hplace
    rw [size_append]
    omega
  rw [size_append] at hfstop
  rcases Nat.le_total (size q) (size f.after) with hshort | hlong
  · -- the outer node ends in the target of the inner one
    obtain ⟨w, hafter, -⟩ := exists_of_append_eq hbehind.symm hshort
    refine hof.exists_mem (u := f.before ++ f.old) (w := w) ?_ hother hnodestop ?_
    · rw [hafter]
      simp only [String.append_assoc]
    · unfold nodeStop at hq
      rw [size_append, size_append]
      omega
  · -- it goes on after that
    obtain ⟨w, rfl, -⟩ := exists_of_append_eq hbehind hlong
    obtain ⟨d, hd, hmark⟩ := hof.exists_mem (u := f.before ++ f.old) (x := f.after) (w := "")
      (by simp) hother hnodestop (by
        rw [size_append]
        omega)
    exact ⟨d, by simp [hd], hmark⟩

/-- **A node in another one** is not exchanged to the same effect. -/
theorem text_ne_of_inside (hfile : SourceFile.parse path text = .ok file) (x : e.Reading)
    (y : f.Reading) (hstart : e.nodeStart ≤ f.nodeStart) (hstop : f.nodeStop ≤ e.nodeStop)
    (hne : e.nodeStart < f.nodeStart ∨ f.nodeStop < e.nodeStop) : m.text ≠ n.text := by
  obtain ⟨p, q, hold, hfront, hbehind⟩ := exists_inside e f hstart hstop
  have hp : e.nodeStart + size p = f.nodeStart := by
    rw [← size_front e, ← size_front f, hfront, size_append (e.ahead ++ e.before)]
  have hq : f.nodeStop + size q = e.nodeStop := by
    have hsize := congrArg size hold
    simp only [size_append] at hsize
    unfold nodeStop nodeStart at *
    omega
  have hlist : e.old.toList = p.toList ++ (f.old.toList ++ q.toList) := by
    rw [hold]
    simp only [String.toList_append]
  intro heq
  have hnew : e.new.toList = p.toList ++ (f.new.toList ++ q.toList) := by
    rw [new_eq_of_text_eq hfront hbehind heq]
    simp only [String.toList_append]
  rcases x.cases with he | ⟨he, -⟩ | ⟨he, ⟨b⟩⟩
  · refine he.ne_of_within y.rewording hlist ?_ hnew
    rw [← size_pos_iff, ← size_pos_iff]
    omega
  · refine he.ne_of_within ?_ hlist hnew
    exact y.cases.imp id (Or.imp (fun hf => ⟨hf.1,
      exists_mem_of_sealed hfile x y hf.2 hstart hstop hne hbehind hq⟩) And.left)
  · refine he.ne_of_within ?_ f.toList_changed hlist hnew
    refine y.cases.imp id (Or.imp And.left fun hf => ⟨hf.1, ?_⟩)
    obtain ⟨a⟩ := hf.2
    -- a body in a body is inside its braces
    obtain ⟨c, hc, z, hz, hcomment, hzstart, hzstop⟩ := y.exists_place hfile
    have hlt := a.lt
    obtain ⟨hplacestart, hplacestop⟩ := Reading.place_node f
    obtain ⟨hlo, hhi⟩ := x.inside_of_braced hfile b hc hz (hcomment.trans (y.isComment_of_braced a))
      (by omega) (by omega) (by omega) (by omega)
    rw [← size_pos_iff, ← size_pos_iff]
    omega

/-- **Two exchanges with the same effect are one exchange, made twice**: at the same place
the same text comes in. -/
theorem same_of_text_eq (e : Exchanged file t m) (f : Exchanged file u n)
    (hfile : SourceFile.parse path text = .ok file) (ht : t ∈ locate markers file)
    (hu : u ∈ locate markers file) (h : m.text = n.text) :
    e.nodeStart = f.nodeStart ∧ e.nodeStop = f.nodeStop ∧ e.new = f.new := by
  obtain ⟨x⟩ := e.exists_reading hfile ht
  obtain ⟨y⟩ := f.exists_reading hfile hu
  have hplaces : e.nodeStart = f.nodeStart ∧ e.nodeStop = f.nodeStop := by
    by_contra hne
    have hparse := Target.isParse_of_parse hfile
    obtain ⟨c, hc, z, hz, -, hzstart, hzstop⟩ := x.exists_place hfile
    obtain ⟨d, hd, w, hw, -, hwstart, hwstop⟩ := y.exists_place hfile
    rcases hparse.below_or_apart hc hd hz hw with hin | hin | hapart | hapart
    · have hbounds := ((hparse.laid.nested d hd).of_mem_preorder hw).bounds hin
      exact text_ne_of_inside hfile y x (by omega) (by omega) (by omega) h.symm
    · have hbounds := ((hparse.laid.nested c hc).of_mem_preorder hz).bounds hin
      exact text_ne_of_inside hfile x y (by omega) (by omega) (by omega) h
    · exact text_ne_of_apart e f x.rewording y.rewording (by omega) h
    · exact text_ne_of_apart f e y.rewording x.rewording (by omega) h.symm
  obtain ⟨hstart, hstop⟩ := hplaces
  refine ⟨hstart, hstop, ?_⟩
  obtain ⟨p, q, hold, hfront, hbehind⟩ := exists_inside e f (Nat.le_of_eq hstart)
    (Nat.le_of_eq hstop.symm)
  have hnew := new_eq_of_text_eq hfront hbehind h
  have hsize := congrArg size hold
  simp only [size_append] at hsize
  unfold nodeStop nodeStart at *
  -- nothing is left on either side
  have hp : p.toList = [] := not_not.1 (mt size_pos_iff.2 (by omega))
  have hq : q.toList = [] := not_not.1 (mt size_pos_iff.2 (by omega))
  rw [← String.toList_inj, hnew]
  simp [hp, hq]

end Pair

end Exchanged

namespace FileMutants

variable {path : Path} {text : String} {file : SourceFile} {named : List String} {r : Registry}

/-- **No two mutants of a file have the same text**, unless one exchange is made twice, in
nested targets. For every source file, all markers and every selection of the built-in
operators the work on the file gives mutants. Two of them have the same text only if the
target of the second lies inside that of the first, and in both the same place of the
file is exchanged for the same text. -/
theorem texts_differ_unless_nested (hfile : SourceFile.parse path text = .ok file)
    (markers : Markers) (hr : Registry.builtin.select named = .ok r) :
    ∃ ms noOps, ofTargets r file (locate markers file) = some ⟨.ok ms, noOps⟩
      ∧ ms.Pairwise fun m n => m.text = n.text →
        ∃ t ∈ locate markers file, ∃ u ∈ locate markers file, u.Inside t
          ∧ ∃ (x : Exchanged file t m) (y : Exchanged file u n),
            x.nodeStart = y.nodeStart ∧ x.nodeStop = y.nodeStop ∧ x.new = y.new := by
  obtain ⟨ms, noOps, hms⟩ := exists_ofTargets_of_select hr hfile markers
  refine ⟨ms, noOps, hms, ?_⟩
  obtain ⟨groups, hgroups, rfl, -⟩ := exists_ofTargetsFrom_ok_iff.1 ⟨noOps, hms⟩
  refine List.pairwise_flatten.2 ⟨fun group hgroup => ?_, ?_⟩
  · -- the versions of one target have been sifted
    obtain ⟨t, -, hyields⟩ := exists_mem_left hgroups hgroup
    obtain ⟨-, -, -, -, hnodup⟩ := hyields.splices
    exact (List.pairwise_map.1 hnodup).imp fun hne heq => absurd heq hne
  · refine (pairwise_of_forall₂ hgroups (Target.pairwise_locate hfile)).imp ?_
    rintro group group' ⟨t, ht, u, hu, htu, hyields, hyields'⟩ m hm n hn heq
    obtain ⟨-, ⟨x⟩⟩ := hyields.exists_exchanged hr hm
    obtain ⟨-, ⟨y⟩⟩ := hyields'.exists_exchanged hr hn
    obtain ⟨hstart, hstop, hnew⟩ := x.same_of_text_eq y hfile ht hu heq
    refine ⟨t, ht, u, hu, ?_, x, y, hstart, hstop, hnew⟩
    obtain ⟨z⟩ := x.exists_reading hfile ht
    rcases Target.after_or_inside hfile ht hu htu with hafter | hin
    · -- the one place would lie in two targets that are apart
      have hlt := z.nodeStart_lt
      have hx := x.bounds
      have hy := y.bounds
      omega
    · exact hin

/-- Two methods with one body, side by side in a class that is mutated itself. -/
theorem texts_differ_unless_nested_beside :
    let text := "@M class C \x7b @M void f() \x7b a < b; \x7d @M void g() \x7b a < b; \x7d \x7d"
    ∃ file r ms noOps, SourceFile.parse ⟨"C.java"⟩ text = .ok file
      ∧ Registry.builtin.select ["relational_boundary"] = .ok r
      ∧ ofTargets r file (locate ⟨"M", "D"⟩ file) = some ⟨.ok ms, noOps⟩
      ∧ ms.map (·.name) = ["C_type0_relational_boundary_0", "C_type0_relational_boundary_1",
        "C_method0_relational_boundary_0", "C_method1_relational_boundary_0"]
      ∧ ms.Pairwise fun m n => m.text = n.text →
        ∃ t ∈ locate ⟨"M", "D"⟩ file, ∃ u ∈ locate ⟨"M", "D"⟩ file, u.Inside t
          ∧ ∃ (x : Exchanged file t m) (y : Exchanged file u n),
            x.nodeStart = y.nodeStart ∧ x.nodeStop = y.nodeStop ∧ x.new = y.new := by
  intro text
  let file : SourceFile := ⟨⟨"C.java"⟩, text, Syntax.parse text⟩
  obtain ⟨hfile, hlocate⟩ : SourceFile.parse ⟨"C.java"⟩ text = .ok file
      ∧ locate ⟨"M", "D"⟩ file = [⟨.typeDeclaration, "C", 0, 60, 0, true, false⟩,
        ⟨.method, "f", 13, 35, 0, true, false⟩, ⟨.method, "g", 36, 58, 1, true, false⟩] :=
    Target.parse_and_locate_eq _ (by decide +kernel)
  have hr : Registry.builtin.select ["relational_boundary"]
      = .ok ⟨Registry.builtin.operators.filter fun o => ["relational_boundary"].contains o.tag⟩ :=
    rfl
  obtain ⟨ms, noOps, hms, hall⟩ := texts_differ_unless_nested hfile ⟨"M", "D"⟩ hr
  have hnames : (ofTargets ⟨Registry.builtin.operators.filter fun o =>
        ["relational_boundary"].contains o.tag⟩ file (locate ⟨"M", "D"⟩ file)).bind
          (fun out => out.result.toOption.map names)
      = some ["C_type0_relational_boundary_0", "C_type0_relational_boundary_1",
        "C_method0_relational_boundary_0", "C_method1_relational_boundary_0"] := by
    rw [hlocate]
    decide +kernel
  rw [hms] at hnames
  exact ⟨file, _, ms, noOps, hfile, hr, hms, Option.some.inj hnames, hall⟩

/-- A method that is mutated, in a class that is mutated itself. -/
def doublyMarkedText : String :=
  "@Mutate class C \x7b @Mutate boolean f() \x7b return a == b; \x7d \x7d"

/-- **Two mutants can have the same text**: the one comparison is flipped in the class and
in the method. -/
theorem same_text :
    ∃ file ms noOps, SourceFile.parse ⟨"C.java"⟩ doublyMarkedText = .ok file
      ∧ ofTargets Registry.builtin file (locate {} file) = some ⟨.ok ms, noOps⟩
      ∧ ∃ m ∈ ms, ∃ n ∈ ms, m.name ≠ n.name ∧ m.text = n.text := by
  let file : SourceFile := ⟨⟨"C.java"⟩, doublyMarkedText, Syntax.parse doublyMarkedText⟩
  obtain ⟨hfile, hlocate⟩ : SourceFile.parse ⟨"C.java"⟩ doublyMarkedText = .ok file
      ∧ locate {} file = [⟨.typeDeclaration, "C", 0, 58, 0, true, false⟩,
        ⟨.method, "f", 18, 56, 0, true, false⟩] :=
    Target.parse_and_locate_eq _ (by decide +kernel)
  have hms : ofTargets Registry.builtin file (locate {} file) = some ⟨.ok [
      ⟨⟨"C.java"⟩, "C_type0_flip_equality_0",
        "@Mutate class C \x7b @Mutate boolean f() \x7b return a != b; \x7d \x7d",
        .typeDeclaration, 0, "flip_equality_0", 0, 58, 58⟩,
      ⟨⟨"C.java"⟩, "C_method0_default_return_0",
        "@Mutate class C \x7b @Mutate boolean f() \x7b return false; \x7d \x7d",
        .method, 0, "default_return_0", 18, 56, 37⟩,
      ⟨⟨"C.java"⟩, "C_method0_default_return_1",
        "@Mutate class C \x7b @Mutate boolean f() \x7b return true; \x7d \x7d",
        .method, 0, "default_return_1", 18, 56, 36⟩,
      ⟨⟨"C.java"⟩, "C_method0_negate_return_0",
        "@Mutate class C \x7b @Mutate boolean f() \x7b return !(a == b); \x7d \x7d",
        .method, 0, "negate_return_0", 18, 56, 41⟩,
      ⟨⟨"C.java"⟩, "C_method0_flip_equality_0",
        "@Mutate class C \x7b @Mutate boolean f() \x7b return a != b; \x7d \x7d",
        .method, 0, "flip_equality_0", 18, 56, 38⟩], []⟩ := by
    rw [hlocate]
    decide +kernel
  exact ⟨file, _, _, hfile, hms, _, .head _, _, .tail _ (.tail _ (.tail _ (.tail _ (.head _)))),
    by decide, rfl⟩

end FileMutants

end JavaMutants
