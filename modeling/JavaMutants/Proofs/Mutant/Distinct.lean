import JavaMutants.Proofs.Mutant.Assembly
import JavaMutants.Proofs.Mutant.Name
import JavaMutants.Proofs.Operator.Edit
import JavaMutants.Proofs.Registry
import JavaMutants.Proofs.Target.Locate

/-!
# No two mutants of a file have the same name

The work on a file ends with an error if a name comes up twice. It never
does (`FileMutants.distinct_names`), for four reasons that lie in four
places: the search gives no two targets the same kind and number, no tag
stands twice in a registry that can be built, the versions of an operator
are counted, and a name can be taken apart again into these four.

The argument goes target by target. The names of a target's mutants all
carry its kind and number (`Yields.exists_tag`), and those of one target
differ in their tags (`Yields.nodup_names`). So what is taken when a
target's turn comes carries the kind and number of another.
-/

namespace JavaMutants

open Target (place locate)

/-! ## One target -/

/-- **No two candidates of a target have the same tag**, if no tag stands
twice in the registry. -/
theorem Candidate.nodup_tags_ofTarget {r : Registry} (htags : r.tags.Nodup) {file : SourceFile}
    {t : Target} {cs : List Candidate} {noOps : List Error}
    (h : ofTarget r file t = some (cs, noOps)) : (cs.map (·.tag)).Nodup := by
  obtain ⟨span, vs, -, hvs, hsub, -⟩ := exists_variants_of_ofTarget h
  have hkeys := Registry.nodup_keys_variants htags hvs
  refine List.Nodup.sublist (hsub.map (·.tag)) ?_
  rw [List.map_map]
  -- the tag of a version tells its operator and its place
  refine (List.nodup_map_iff_inj_on (List.Nodup.of_map _ hkeys)).2 fun v hv w hw hvw => ?_
  obtain ⟨hop, hindex⟩ := tag_inj hvw
  exact List.inj_on_of_nodup_map hkeys hv hw (Prod.ext hop hindex)

namespace Yields

variable {r : Registry} {file : SourceFile} {t : Target} {group : List Mutant}

/-- The names of a target's mutants, one for each of its candidates. -/
theorem names_eq {cs : List Candidate}
    (h : List.Forall₂ (fun c m => Mutant.assemble? file t c.tag c.replacement = some m) cs group) :
    names group = cs.map fun c => Mutant.nameOf file.simpleName t.kind t.ordinal c.tag := by
  refine (map_eq_map_of_forall₂ (h.imp fun c m hm => ?_)).symm
  obtain ⟨text, -, rfl⟩ := Option.map_eq_some_iff.1 hm
  rfl

/-- The names of a target's mutants carry its kind and number. -/
theorem exists_tag (h : Yields r file t group) {n : String} (hn : n ∈ names group) :
    ∃ tag, n = Mutant.nameOf file.simpleName t.kind t.ordinal tag := by
  obtain ⟨cs, noOps, -, hall⟩ := h
  rw [names_eq hall] at hn
  obtain ⟨c, -, rfl⟩ := List.mem_map.1 hn
  exact ⟨c.tag, rfl⟩

/-- **No two mutants of a target have the same name.** -/
theorem nodup_names (htags : r.tags.Nodup) (h : Yields r file t group) :
    (names group).Nodup := by
  obtain ⟨cs, noOps, hcs, hall⟩ := h
  have hnodup := Candidate.nodup_tags_ofTarget htags hcs
  rw [names_eq hall]
  refine (List.nodup_map_iff_inj_on (List.Nodup.of_map _ hnodup)).2 fun c hc d hd hcd => ?_
  exact List.inj_on_of_nodup_map hnodup hc hd (Mutant.nameOf_inj hcd).2.2

/-- A target that has candidates yields a mutant for each of them. -/
theorem exists_of_ofTarget {cs : List Candidate} {noOps : List Error}
    (h : Candidate.ofTarget r file t = some (cs, noOps)) : ∃ group, Yields r file t group := by
  obtain ⟨span, vs, hspan, -⟩ := Candidate.exists_variants_of_ofTarget h
  obtain ⟨group, hgroup⟩ := exists_mapM_eq_some fun (c : Candidate) (_ : c ∈ cs) =>
    Mutant.exists_assemble? hspan c.tag c.replacement
  exact ⟨group, cs, noOps, h, (mapM_eq_some_iff _ _ _).1 hgroup⟩

end Yields

/-! ## All targets -/

namespace FileMutants

variable {r : Registry} {file : SourceFile}

/-- **Names that are left for targets**: none that is taken carries the
kind and number of one of them. -/
def Spares (file : SourceFile) (taken : List String) (targets : List Target) : Prop :=
  ∀ n ∈ taken, ∀ t ∈ targets, ∀ tag, n ≠ Mutant.nameOf file.simpleName t.kind t.ordinal tag

/-- The mutants of the first target find their names free. -/
theorem Spares.free (htags : r.tags.Nodup) {taken : List String} {t : Target}
    {targets : List Target} (h : Spares file taken (t :: targets)) {group : List Mutant}
    (hgroup : Yields r file t group) : Free taken group := by
  refine ⟨hgroup.nodup_names htags, fun n hn htaken => ?_⟩
  obtain ⟨tag, rfl⟩ := hgroup.exists_tag hn
  exact h _ htaken t List.mem_cons_self tag rfl

/-- They leave names for the other targets. -/
theorem Spares.step {taken : List String} {t : Target} {targets : List Target}
    (h : Spares file taken (t :: targets)) (hplaces : ((t :: targets).map place).Nodup)
    {group : List Mutant} (hgroup : Yields r file t group) :
    Spares file ((names group).reverse ++ taken) targets := by
  intro n hn u hu tag heq
  rcases List.mem_append.1 hn with hn | hn
  · obtain ⟨tag', rfl⟩ := hgroup.exists_tag (List.mem_reverse.1 hn)
    obtain ⟨hkind, hordinal, -⟩ := Mutant.nameOf_inj heq
    rw [List.map_cons] at hplaces
    exact (List.nodup_cons.1 hplaces).1
      (List.mem_map.2 ⟨u, hu, Prod.ext hkind.symm hordinal.symm⟩)
  · exact h n hn u (List.mem_cons_of_mem t hu) tag heq

/-- **A run over targets that can be told apart ends well**, unless there
is a target without candidates in it, not even none. -/
theorem ofTargetsFrom_ok_or_none (htags : r.tags.Nodup) {taken : List String}
    {targets : List Target} (hplaces : (targets.map place).Nodup)
    (hspares : Spares file taken targets) :
    (∃ ms noOps, ofTargetsFrom r file taken targets = some ⟨.ok ms, noOps⟩)
      ∨ ofTargetsFrom r file taken targets = none
        ∧ ∃ t ∈ targets, Candidate.ofTarget r file t = none := by
  induction targets generalizing taken with
  | nil => exact .inl ⟨[], [], rfl⟩
  | cons t targets ih =>
    rw [ofTargetsFrom]
    cases hcs : Candidate.ofTarget r file t with
    | none => exact .inr ⟨rfl, t, List.mem_cons_self, hcs⟩
    | some found =>
      obtain ⟨group, hgroup⟩ := Yields.exists_of_ofTarget hcs
      have hnext := ih (List.nodup_cons.1 hplaces).2 (hspares.step hplaces hgroup)
      have hfree := hspares.free htags hgroup
      obtain ⟨cs, dropped, hcs', hall⟩ := hgroup
      obtain rfl := Option.some.inj (hcs.symm.trans hcs')
      simp only [Option.bind_eq_bind, Option.bind_some,
        assembleAll_eq_ok_iff.2 ⟨hall, hfree, rfl⟩]
      obtain ⟨ms, noOps, hms⟩ | ⟨hnone, u, hu, hun⟩ := hnext
      · rw [hms]
        exact .inl ⟨group ++ ms, dropped ++ noOps, rfl⟩
      · rw [hnone]
        exact .inr ⟨rfl, u, List.mem_cons_of_mem t hu, hun⟩

/-- **The work on the targets of a file ends well** under some of the
built-in operators. -/
theorem exists_ofTargets_of_select {named : List String} {r : Registry}
    (hr : Registry.builtin.select named = .ok r) {path : Path} {text : String}
    {file : SourceFile} (hfile : SourceFile.parse path text = .ok file) (markers : Markers) :
    ∃ ms noOps, ofTargets r file (locate markers file) = some ⟨.ok ms, noOps⟩ := by
  have htags := (Registry.Reachable.select .builtin hr).nodup_tags
  obtain hok | ⟨-, t, ht, hnone⟩ := ofTargetsFrom_ok_or_none htags
    (Target.nodup_places_locate hfile) fun n hn => absurd hn List.not_mem_nil
  · exact hok
  · obtain ⟨span, hspan⟩ := Target.exists_slice?_of_mem_locate hfile ht
    obtain ⟨cs, dropped, hcs⟩ := Candidate.exists_ofTarget hspan fun o ho =>
      Registry.isTotal_of_mem_builtin ((Registry.sublist_of_select hr).subset ho) t span
    exact absurd (hnone.symm.trans hcs) nofun

/-- **No two mutants of a file have the same name.** For every source
file, all markers and every registry that can be built, the work on the
targets of the file never ends in a clash of names, and the mutants it
gives have pairwise different names. It does give them if every operator
that was added by hand gives its versions for every text; the built-in
ones always do. And in general, a name tells the kind and the number of
its target, the tag of the operator and the place of the version, whatever
characters the tag is made of. -/
theorem distinct_names {path : Path} {text : String}
    (hfile : SourceFile.parse path text = .ok file) (markers : Markers) (hr : r.Reachable) :
    (∀ out, ofTargets r file (locate markers file) = some out →
        ∃ ms, out.result = .ok ms ∧ (names ms).Nodup)
      ∧ ((∀ o ∈ r.operators, o ∈ Registry.builtin.operators ∨ o.IsTotal) →
        ∃ ms noOps, ofTargets r file (locate markers file) = some ⟨.ok ms, noOps⟩
          ∧ (names ms).Nodup)
      ∧ ∀ (simple op op' : String) (k k' : TargetKind) (n n' i i' : Nat),
        Mutant.nameOf simple k n (op ++ "_" ++ toString i)
            = Mutant.nameOf simple k' n' (op' ++ "_" ++ toString i') →
          k = k' ∧ n = n' ∧ op = op' ∧ i = i' := by
  have hspares : Spares file [] (locate markers file) := fun n hn => absurd hn List.not_mem_nil
  have hrun := ofTargetsFrom_ok_or_none hr.nodup_tags (Target.nodup_places_locate hfile) hspares
  have hnodup : ∀ {ms noOps}, ofTargets r file (locate markers file) = some ⟨.ok ms, noOps⟩ →
      (names ms).Nodup := fun h => by
    obtain ⟨groups, -, -, hfree⟩ := exists_ofTargetsFrom_ok_iff.1 ⟨_, h⟩
    exact hfree.1
  refine ⟨fun out hout => ?_, fun htotal => ?_, fun simple op op' k k' n n' i i' h => ?_⟩
  · obtain ⟨ms, noOps, hms⟩ | ⟨hnone, -⟩ := hrun
    · obtain rfl := Option.some.inj (hms.symm.trans hout)
      exact ⟨ms, rfl, hnodup hms⟩
    · exact absurd (hnone.symm.trans hout) nofun
  · obtain ⟨ms, noOps, hms⟩ | ⟨-, t, ht, hnone⟩ := hrun
    · exact ⟨ms, noOps, hms, hnodup hms⟩
    · -- the target cuts the file, and no operator gives up on its text
      obtain ⟨span, hspan⟩ := Target.exists_slice?_of_mem_locate hfile ht
      obtain ⟨cs, dropped, hcs⟩ := Candidate.exists_ofTarget hspan fun o ho =>
        (htotal o ho).elim (fun hb => Registry.isTotal_of_mem_builtin hb t span)
          fun h => h t span
      exact absurd (hnone.symm.trans hcs) nofun
  · obtain ⟨hk, hn, htag⟩ := Mutant.nameOf_inj h
    exact ⟨hk, hn, tag_inj htag⟩

/-- An operator that puts its tag after a text or before it. -/
def tagging (tag : String) : Operator :=
  ⟨tag, "", fun _ => true, fun _ s => some [s ++ tag, tag ++ s]⟩

/-- Tags that differ only in digits and underscores, next to the ordinals
and places of two methods. -/
theorem distinct_names_underscores :
    ∃ file, SourceFile.parse ⟨"A.java"⟩ "class A \x7b @M void f(); @M void g(); \x7d" = .ok file
      ∧ (ofTargets ⟨[tagging "0", tagging "0_0"]⟩ file (locate ⟨"M", "M"⟩ file)).bind
          (fun out => out.result.toOption.map names)
        = some ["A_method0_0_0", "A_method0_0_1", "A_method0_0_0_0", "A_method0_0_0_1",
          "A_method1_0_0", "A_method1_0_1", "A_method1_0_0_0", "A_method1_0_0_1"]
      ∧ ∃ ms noOps, ofTargets ⟨[tagging "0", tagging "0_0"]⟩ file (locate ⟨"M", "M"⟩ file)
          = some ⟨.ok ms, noOps⟩ ∧ (names ms).Nodup := by
  let text := "class A \x7b @M void f(); @M void g(); \x7d"
  let file : SourceFile := ⟨⟨"A.java"⟩, text, Syntax.parse text⟩
  obtain ⟨hfile, hlocate⟩ : SourceFile.parse ⟨"A.java"⟩ text = .ok file
      ∧ locate ⟨"M", "M"⟩ file = [⟨.method, "f", 10, 22, 0, true, false⟩,
        ⟨.method, "g", 23, 35, 1, true, false⟩] :=
    Target.parse_and_locate_eq _ (by decide +kernel)
  have hfirst : Registry.Reachable ⟨[tagging "0"]⟩ :=
    .register .empty (Registry.register_eq_ok_iff.2 ⟨by decide, rfl⟩)
  have hr : Registry.Reachable ⟨[tagging "0", tagging "0_0"]⟩ :=
    .register hfirst (Registry.register_eq_ok_iff.2 ⟨by decide, rfl⟩)
  refine ⟨_, hfile, ?_, (distinct_names hfile ⟨"M", "M"⟩ hr).2.1 fun o ho => .inr ?_⟩
  · rw [hlocate]
    decide
  · intro target span
    simp only [List.mem_cons, List.not_mem_nil, or_false] at ho
    rcases ho with rfl | rfl
    · exact ⟨_, rfl⟩
    · exact ⟨_, rfl⟩

end FileMutants

end JavaMutants
