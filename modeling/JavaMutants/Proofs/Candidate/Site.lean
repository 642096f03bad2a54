import JavaMutants.Proofs.Candidate
import JavaMutants.Proofs.Candidate.Sieve
import JavaMutants.Proofs.Operator.Site
import JavaMutants.Proofs.Registry

/-!
# No version of a spot is lost

What is sifted out of the versions of a declaration is blank, is the text itself or has
been kept before. None of this befalls the versions of comparisons and conditions
(`Candidate.sift_eq_of_nodup`): they differ from each other, within one operator
(`Fragment.IsOf.nodup_moved`, `Fragment.IsOf.nodup_negated`) and in length across
operators, and from the text. So all of them become candidates, whichever of the three
operators are selected (`site_versions_exact`).
-/

namespace JavaMutants

open Syntax Text Tree

/-- **Versions that differ from each other and from the text are all kept**, if there is
something in them. -/
theorem Candidate.sift_eq_of_nodup {span place : String} {vs : List Variant} {kept : List String}
    (hblank : ∀ v ∈ vs, isBlankText v.text = false) (hspan : ∀ v ∈ vs, v.text ≠ span)
    (hkept : ∀ v ∈ vs, v.text ∉ kept) (hnodup : (vs.map (·.text)).Nodup) :
    sift span place kept vs = (vs.map ofVariant, []) := by
  induction vs generalizing kept with
  | nil => rfl
  | cons v vs ih =>
    obtain ⟨hb, hblank⟩ := List.forall_mem_cons.1 hblank
    obtain ⟨hs, hspan⟩ := List.forall_mem_cons.1 hspan
    obtain ⟨hk, hkept⟩ := List.forall_mem_cons.1 hkept
    rw [List.map_cons, List.nodup_cons] at hnodup
    have hlater : ∀ u ∈ vs, u.text ∉ v.text :: kept := by
      intro u hu hmem
      rcases List.mem_cons.1 hmem with heq | hmem
      · exact hnodup.1 (heq ▸ List.mem_map_of_mem hu)
      · exact hkept u hu hmem
    rw [sift, Variant.judge_eq_kept_iff.2 ⟨hb, hs, hk⟩, ih hblank hspan hlater hnodup.2]
    rfl

/-! ## How long the versions are -/

namespace Fragment

variable {span : String} {fragment : Fragment} {node : Tree} {version : String}

/-- A version with something in the place of a node is not blank. -/
theorem Exchanged.isBlankText_eq_false {old new : String}
    (h : fragment.Exchanged span node old new version) {c : Char} (hc : c ∈ new.toList)
    (hblank : isBlank c = false) : isBlankText version = false := by
  obtain ⟨before, after, -, rfl, -⟩ := h.exists_offsets
  refine List.all_eq_false.2 ⟨c, ?_, by simp [hblank]⟩
  simp only [String.toList_append]
  exact List.mem_append_left _ (List.mem_append_right _ hc)

/-- A comparison that is moved across its boundary gets longer or shorter by one. -/
theorem Moved.boundary (h : fragment.Moved span boundaryMoves node version) :
    (version.toList.length = span.toList.length + 1
      ∨ version.toList.length + 1 = span.toList.length) ∧ isBlankText version = false := by
  obtain ⟨token, old, new, -, hmove, hexchanged⟩ := h
  have hlength := hexchanged.length_eq
  have hchars : (new.toList.any fun c => !isBlank c) = true := by
    simp only [boundaryMoves, List.mem_cons, Prod.mk.injEq, List.not_mem_nil, or_false] at hmove
    rcases hmove with ⟨-, rfl⟩ | ⟨-, rfl⟩ | ⟨-, rfl⟩ | ⟨-, rfl⟩ <;> decide
  obtain ⟨d, hd, hblank⟩ := List.any_eq_true.1 hchars
  refine ⟨?_, hexchanged.isBlankText_eq_false hd (Bool.not_inj hblank)⟩
  obtain ⟨c, -, ⟨hold, hnew⟩ | ⟨hold, hnew⟩⟩ := exists_of_mem_boundaryMoves hmove <;>
    rw [hold, hnew] at hlength <;>
    simp only [List.length_cons, List.length_nil] at hlength <;>
    omega

/-- A test of equality that is turned round stays as long, and changes. -/
theorem Moved.equality (h : fragment.Moved span equalityMoves node version) :
    version.toList.length = span.toList.length ∧ version ≠ span
      ∧ isBlankText version = false := by
  obtain ⟨token, old, new, -, hmove, hexchanged⟩ := h
  obtain ⟨hne, hold, hnew⟩ := length_of_mem_equalityMoves hmove
  have hlength := hexchanged.length_eq
  have hmem : '=' ∈ new.toList := by
    simp only [equalityMoves, List.mem_cons, Prod.mk.injEq, List.not_mem_nil, or_false] at hmove
    rcases hmove with ⟨-, rfl⟩ | ⟨-, rfl⟩ <;> decide
  exact ⟨by omega, hexchanged.ne_span hne, hexchanged.isBlankText_eq_false hmem (by decide)⟩

/-- A condition that is negated gets longer by three. -/
theorem Negated.length_eq (h : fragment.Negated span node version) :
    version.toList.length = span.toList.length + 3 ∧ isBlankText version = false := by
  obtain ⟨condition, old, -, hexchanged⟩ := h
  have hexchanged : fragment.Exchanged span condition old (negated condition old) version :=
    hexchanged
  obtain ⟨a, -, hnew⟩ := exists_of_negated condition old
  have hlength := hexchanged.length_eq
  rw [length_negated] at hlength
  have hmem : ')' ∈ (negated condition old).toList := by simp [hnew]
  exact ⟨by omega, hexchanged.isBlankText_eq_false hmem (by decide)⟩

end Fragment

/-! ## All three operators -/

/-- The tags of the operators of comparisons and conditions. -/
def siteTags : List String := ["relational_boundary", "negate_condition", "flip_equality"]

/-- Versions of the operators of comparisons and conditions as far as these are named,
in the order of the registry. -/
def ofSites (tags boundaries negations equalities : List String) : List String :=
  (if "relational_boundary" ∈ tags then boundaries else [])
    ++ ((if "negate_condition" ∈ tags then negations else [])
      ++ (if "flip_equality" ∈ tags then equalities else []))

theorem ofSites_sublist (tags boundaries negations equalities : List String) :
    (ofSites tags boundaries negations equalities).Sublist
      (boundaries ++ (negations ++ equalities)) := by
  have hif : ∀ (p : Prop) [Decidable p] (l : List String),
      (if p then l else []).Sublist l := by
    intro p _ l
    split
    · exact List.Sublist.refl l
    · exact List.nil_sublist l
  exact (hif _ _).append ((hif _ _).append (hif _ _))

/-- **The versions of a selection of the three operators.** -/
theorem Registry.texts_of_select {target : Target} {span : String} {tags : List String}
    {r : Registry} (hne : tags ≠ []) (htags : tags ⊆ siteTags) (hselect : builtin.select tags = .ok r)
    (hcurrent : target.deprecated = false) {boundaries negations equalities : List String}
    (hboundaries : relationalBoundary target span = some boundaries)
    (hnegations : negateCondition target span = some negations)
    (hequalities : flipEquality target span = some equalities) :
    ∃ variants, r.variants target span = some variants
      ∧ variants.map (·.text) = ofSites tags boundaries negations equalities := by
  obtain ⟨-, rfl⟩ := (select_eq_ok_iff hne).1 hselect
  have hnot : ∀ tag, tag ∉ siteTags → tag ∉ tags := fun tag h hmem => h (htags hmem)
  have h₁ := hnot "empty_body" (by decide)
  have h₂ := hnot "default_return" (by decide)
  have h₃ := hnot "negate_return" (by decide)
  let generated : Operator → List String := fun o =>
    if o.tag = "relational_boundary" then boundaries
    else if o.tag = "negate_condition" then negations else equalities
  have hgenerated : ∀ o ∈ builtin.operators.filter (fun o => decide (o.tag ∈ tags)),
      o.applies target = true → o.generate target span = some (generated o) := by
    intro o ho _
    obtain ⟨ho, htag⟩ := List.mem_filter.1 ho
    have htag := of_decide_eq_true htag
    simp only [builtin, List.mem_cons, List.not_mem_nil, or_false] at ho
    rcases ho with rfl | rfl | rfl | rfl | rfl | rfl
    · exact absurd htag h₁
    · exact absurd htag h₂
    · exact absurd htag h₃
    · exact hboundaries
    · exact hnegations
    · exact hequalities
  refine ⟨_, variants_eq hgenerated, ?_⟩
  have htexts : ∀ (o : Operator) (ts : List String),
      (ts.zipIdx.map fun x => (⟨o.tag, x.2, x.1⟩ : Variant)).map (·.text) = ts := by
    intro o ts
    rw [List.map_map]
    exact List.zipIdx_map_fst 0 ts
  rw [List.map_flatMap]
  simp only [htexts, ofSites]
  by_cases ha : "relational_boundary" ∈ tags <;> by_cases hb : "negate_condition" ∈ tags <;>
    by_cases hc : "flip_equality" ∈ tags <;>
    simp [builtin, current, hcurrent, h₁, h₂, h₃, ha, hb, hc, generated]

/-- **Every comparison and every condition is hit exactly once, and no version of them is
lost.** Take a text that can be parsed on its own, and its declaration. Moving
comparisons across their boundary gives one version for each comparison under the
declaration with such an operator, in document order, with just that operator moved; so
does turning tests of equality round, and negating conditions gives one for each
statement or expression with a condition, with just that condition negated. All of these
versions differ from each other and from the text, and so, whichever of the three operators
are selected, each of their versions becomes a candidate and nothing is put on record. -/
theorem site_versions_exact {target : Target} {span : String} {fragment : Fragment}
    (hparse : Fragment.parse? span (target.kind != .typeDeclaration) = some fragment) :
    ∃ boundaries negations equalities,
      relationalBoundary target span = some boundaries
      ∧ negateCondition target span = some negations
      ∧ flipEquality target span = some equalities
      ∧ List.Forall₂
        (fragment.Moved span [("<", "<="), ("<=", "<"), (">", ">="), (">=", ">")])
        (fragment.declaration.preorder.filter (isComparison [.lt, .le, .gt, .ge])) boundaries
      ∧ List.Forall₂ (fragment.Negated span)
        (fragment.declaration.preorder.filter isConditioned) negations
      ∧ List.Forall₂ (fragment.Moved span [("==", "!="), ("!=", "==")])
        (fragment.declaration.preorder.filter (isComparison [.eq, .ne])) equalities
      ∧ (boundaries ++ (negations ++ equalities)).Nodup
      ∧ span ∉ boundaries ++ (negations ++ equalities)
      ∧ ∀ (file : SourceFile) (recorded : List Error) (tags : List String) (r : Registry),
        file.slice? target.start target.stop = some span → target.deprecated = false →
        tags ≠ [] → tags ⊆ siteTags → Registry.builtin.select tags = .ok r →
        ∃ variants, r.variants target span = some variants
          ∧ variants.map (·.text) = ofSites tags boundaries negations equalities
          ∧ Candidate.record r file target recorded
            = some (variants.map Candidate.ofVariant, recorded) := by
  have hof := Fragment.isOf_of_parse? hparse
  obtain ⟨boundaries, hboundaries, hboundary⟩ : ∃ versions,
      relationalBoundary target span = some versions ∧ List.Forall₂
        (fragment.Moved span boundaryMoves)
        (fragment.declaration.preorder.filter (isComparison [.lt, .le, .gt, .ge])) versions :=
    exists_moved hparse (.inl rfl) (fun p => by cases p <;> rfl)
      fun p q h => by cases p <;> cases h <;> decide
  obtain ⟨equalities, hequalities, hequality⟩ : ∃ versions,
      flipEquality target span = some versions ∧ List.Forall₂
        (fragment.Moved span equalityMoves)
        (fragment.declaration.preorder.filter (isComparison [.eq, .ne])) versions :=
    exists_moved hparse (.inr rfl) (fun p => by cases p <;> rfl)
      fun p q h => by cases p <;> cases h <;> decide
  obtain ⟨negations, hnegations, hnegation⟩ := exists_negated hparse
  have hb : ∀ v ∈ boundaries, (v.toList.length = span.toList.length + 1
      ∨ v.toList.length + 1 = span.toList.length) ∧ isBlankText v = false := by
    intro v hv
    obtain ⟨node, -, hmoved⟩ := exists_mem_left hboundary hv
    exact hmoved.boundary
  have hn : ∀ v ∈ negations, v.toList.length = span.toList.length + 3
      ∧ isBlankText v = false := by
    intro v hv
    obtain ⟨node, -, hnegated⟩ := exists_mem_left hnegation hv
    exact hnegated.length_eq
  have he : ∀ v ∈ equalities, v.toList.length = span.toList.length ∧ v ≠ span
      ∧ isBlankText v = false := by
    intro v hv
    obtain ⟨node, -, hmoved⟩ := exists_mem_left hequality hv
    exact hmoved.equality
  have hnodup : (boundaries ++ (negations ++ equalities)).Nodup := by
    refine List.nodup_append.2 ⟨hof.nodup_moved swaps_of_boundaryMoves hboundary,
      List.nodup_append.2 ⟨hof.nodup_negated hnegation,
        hof.nodup_moved swaps_of_equalityMoves hequality, ?_⟩, ?_⟩
    · rintro v hv _ hv' rfl
      have hlength := (hn v hv).1
      have hlength' := (he v hv').1
      omega
    · rintro v hv _ hv' rfl
      have hlength := (hb v hv).1
      rcases List.mem_append.1 hv' with hv' | hv'
      · have hlength' := (hn v hv').1
        omega
      · have hlength' := (he v hv').1
        omega
  have hproper : ∀ v ∈ boundaries ++ (negations ++ equalities),
      v ≠ span ∧ isBlankText v = false := by
    intro v hv
    rcases List.mem_append.1 hv with hv | hv
    · refine ⟨?_, (hb v hv).2⟩
      rintro rfl
      have hlength := (hb v hv).1
      omega
    rcases List.mem_append.1 hv with hv | hv
    · refine ⟨?_, (hn v hv).2⟩
      rintro rfl
      have hlength := (hn v hv).1
      omega
    · exact (he v hv).2
  refine ⟨boundaries, negations, equalities, hboundaries, hnegations, hequalities, hboundary,
    hnegation, hequality, hnodup, fun hmem => (hproper span hmem).1 rfl, ?_⟩
  intro file recorded tags r hspan hcurrent hne htags hselect
  obtain ⟨variants, hvariants, htexts⟩ := Registry.texts_of_select hne htags hselect hcurrent
    hboundaries hnegations hequalities
  have hsub : (variants.map (·.text)).Sublist (boundaries ++ (negations ++ equalities)) :=
    htexts ▸ ofSites_sublist tags boundaries negations equalities
  have hvariant : ∀ v ∈ variants, v.text ≠ span ∧ isBlankText v.text = false := fun v hv =>
    hproper v.text (hsub.subset (List.mem_map_of_mem hv))
  refine ⟨variants, hvariants, htexts, ?_⟩
  have hsift : Candidate.sift span (target.describe ++ " in " ++ file.path.text) [] variants
      = (variants.map Candidate.ofVariant, []) :=
    Candidate.sift_eq_of_nodup (fun v hv => (hvariant v hv).2) (fun v hv => (hvariant v hv).1)
      (fun v _ => List.not_mem_nil) (hsub.nodup hnodup)
  rw [Candidate.record_eq, Candidate.ofTarget, hspan]
  simp [hvariants, hsift]

/-- A condition with another one in it, and a comparison of each sort. -/
theorem site_versions_exact_nested :
    let span := "C() \x7b if (a < 1 ? b : a == 2) c(); \x7d"
    let target : Target := ⟨.constructor, "C", 0, Text.size span, 0, true, false⟩
    let file : SourceFile := ⟨⟨"C.java"⟩, span, .leaf (.named .program) ⟨0, Text.size span⟩⟩
    ∃ r, Registry.builtin.select siteTags = .ok r
      ∧ ∃ variants, r.variants target span = some variants
        ∧ variants.map (·.text) = [
          "C() \x7b if (a <= 1 ? b : a == 2) c(); \x7d",
          "C() \x7b if (!(a < 1 ? b : a == 2)) c(); \x7d",
          "C() \x7b if (!(a < 1) ? b : a == 2) c(); \x7d",
          "C() \x7b if (a < 1 ? b : a != 2) c(); \x7d"]
        ∧ Candidate.record r file target [.query "before"]
          = some (variants.map Candidate.ofVariant, [.query "before"]) := by
  intro span target file
  have hall : (Fragment.parse? span (target.kind != .typeDeclaration)).isSome = true
      ∧ relationalBoundary target span = some ["C() \x7b if (a <= 1 ? b : a == 2) c(); \x7d"]
      ∧ negateCondition target span = some [
        "C() \x7b if (!(a < 1 ? b : a == 2)) c(); \x7d", "C() \x7b if (!(a < 1) ? b : a == 2) c(); \x7d"]
      ∧ flipEquality target span = some ["C() \x7b if (a < 1 ? b : a != 2) c(); \x7d"] := by
    decide +kernel
  obtain ⟨hparse, hb, hn, he⟩ := hall
  obtain ⟨fragment, hfragment⟩ := Option.isSome_iff_exists.1 hparse
  obtain ⟨boundaries, negations, equalities, hboundaries, hnegations, hequalities, -, -, -, -, -,
    hkept⟩ := site_versions_exact hfragment
  obtain rfl := Option.some.inj (hboundaries.symm.trans hb)
  obtain rfl := Option.some.inj (hnegations.symm.trans hn)
  obtain rfl := Option.some.inj (hequalities.symm.trans he)
  obtain ⟨variants, hvariants, htexts, hrecord⟩ := hkept file [.query "before"] siteTags
    ⟨Registry.builtin.operators.filter fun o => siteTags.contains o.tag⟩ (by decide +kernel) rfl
    (by decide) (List.Subset.refl _) rfl
  exact ⟨_, rfl, variants, hvariants, htexts, hrecord⟩

end JavaMutants
