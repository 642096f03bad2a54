import JavaMutants.Proofs.Mutant.Distinct

/-!
# Names do not depend on the selection

Two runs over the same targets, under two selections of one registry. A
name that comes up in both of them stands for the same mutant: it tells
the target, the operator and the place of the version among *all* versions
of the operator, and these determine the text.

The two sieves see different histories, though. A version can be dropped
as a duplicate of one whose operator the other run leaves out, so fewer
operators can bring up more versions of those that are left, but never
fewer of them (`Candidate.mem_sift_filter`).
-/

namespace JavaMutants

open Target (place locate)

/-! ## Selections -/

namespace Registry

/-- Whether a list of tags asks for an operator with a tag. -/
def asksFor (named : List String) (tag : String) : Bool := named.isEmpty || named.contains tag

/-- **A selection is the operators that are asked for.** -/
theorem operators_of_select {base r : Registry} {named : List String}
    (h : base.select named = .ok r) :
    r.operators = base.operators.filter fun o => asksFor named o.tag := by
  unfold select at h
  unfold asksFor
  split at h
  next hempty =>
    cases h
    simp [hempty]
  next hempty =>
    split at h
    · cases h
    · cases h
      simp [hempty]

/-- **The smaller of two selections selects from the larger one.** -/
theorem operators_of_select_of_subset {base r r' : Registry} {named named' : List String}
    (h : base.select named = .ok r) (h' : base.select named' = .ok r')
    (hsub : r.operators ⊆ r'.operators) :
    r.operators = r'.operators.filter fun o => asksFor named o.tag := by
  rw [operators_of_select h'] at hsub ⊢
  rw [operators_of_select h] at hsub ⊢
  rw [List.filter_filter]
  refine List.filter_congr fun o ho => ?_
  cases hasked : asksFor named o.tag with
  | false => rfl
  | true =>
    have hmem := hsub (List.mem_filter.2 ⟨ho, hasked⟩)
    rw [(List.mem_filter.1 hmem).2]
    rfl

/-- The versions of some of the operators are those that carry their
tags. -/
theorem variants_filter {r r' : Registry} {asked : String → Bool}
    (hr : r.operators = r'.operators.filter fun o => asked o.tag) {t : Target} {span : String}
    {vs : List Variant} (h : r'.variants t span = some vs) :
    r.variants t span = some (vs.filter fun v => asked v.operator) := by
  obtain ⟨groups, hgroups, rfl⟩ := Option.map_eq_some_iff.1 h
  have hall := (mapM_eq_some_iff _ _ _).1 hgroups
  unfold variants
  rw [hr]
  clear hr h hgroups
  generalize r'.operators = operators at hall
  induction hall with
  | nil => rfl
  | @cons o group os groups ho hos ih =>
    have hop := (Operator.nodup_keys_variants ho).2
    rw [List.flatten_cons, List.filter_append]
    cases hasked : asked o.tag with
    | true =>
      have hgroup : (group.filter fun v => asked v.operator) = group :=
        List.filter_eq_self.2 fun v hv => by rw [hop v hv, hasked]
      obtain ⟨groups', hgroups', hflat⟩ := Option.map_eq_some_iff.1 ih
      rw [List.filter_cons_of_pos (by exact hasked), List.mapM_cons, ho, hgroups', hgroup, ← hflat]
      rfl
    | false =>
      have hgroup : (group.filter fun v => asked v.operator) = [] :=
        List.filter_eq_nil_iff.2 fun v hv => by simp [hop v hv, hasked]
      rw [List.filter_cons_of_neg (by simp [hasked]), hgroup, List.nil_append]
      exact ih

end Registry

/-! ## The sieve -/

/-- What has been kept once a version has been judged. -/
def Variant.keptAfter (span : String) (kept : List String) (v : Variant) : List String :=
  if v.judge span kept = .kept then v.text :: kept else kept

theorem Variant.subset_keptAfter {span : String} {kept : List String} (v : Variant) :
    kept ⊆ v.keptAfter span kept := by
  unfold keptAfter
  split
  · exact List.subset_cons_self v.text kept
  · exact List.Subset.refl kept

/-- Where less has been kept before, less has been kept after: a version
that is kept only then has been kept already. -/
theorem Variant.keptAfter_subset {span : String} {kept kept' : List String}
    (hkept : kept' ⊆ kept) (v : Variant) : v.keptAfter span kept' ⊆ v.keptAfter span kept := by
  by_cases hj : v.judge span kept' = .kept
  · obtain ⟨hblank, hspan, -⟩ := judge_eq_kept_iff.1 hj
    have htext : v.text ∈ v.keptAfter span kept := by
      by_cases hmem : v.text ∈ kept
      · exact v.subset_keptAfter hmem
      · unfold keptAfter
        rw [if_pos (judge_eq_kept_iff.2 ⟨hblank, hspan, hmem⟩)]
        exact List.mem_cons_self
    have hafter : v.keptAfter span kept' = v.text :: kept' := if_pos hj
    rw [hafter]
    exact List.cons_subset.2 ⟨htext, List.Subset.trans hkept v.subset_keptAfter⟩
  · have hafter : v.keptAfter span kept' = kept' := if_neg hj
    rw [hafter]
    exact List.Subset.trans hkept v.subset_keptAfter

namespace Candidate

variable {span place : String}

/-- One step of the sieve. -/
theorem mem_sift_cons_iff {kept : List String} {v : Variant} {vs : List Variant}
    {c : Candidate} :
    c ∈ (sift span place kept (v :: vs)).1
      ↔ v.judge span kept = .kept ∧ c = ofVariant v
        ∨ c ∈ (sift span place (v.keptAfter span kept) vs).1 := by
  unfold Variant.keptAfter
  rw [sift]
  cases v.judge span kept <;> simp

/-- **The sieve lets through what it has let through before**, where there
are fewer versions and less has been kept. -/
theorem mem_sift_filter {asked : String → Bool} {kept kept' : List String}
    (hkept : kept' ⊆ kept) {vs : List Variant} {c : Candidate}
    (hc : c ∈ (sift span place kept vs).1) (hasked : asked c.operator = true) :
    c ∈ (sift span place kept' (vs.filter fun v => asked v.operator)).1 := by
  induction vs generalizing kept kept' with
  | nil => exact absurd hc List.not_mem_nil
  | cons v vs ih =>
    rw [mem_sift_cons_iff] at hc
    cases hv : asked v.operator with
    | true =>
      rw [List.filter_cons_of_pos (by exact hv), mem_sift_cons_iff]
      obtain ⟨hj, rfl⟩ | hc := hc
      · obtain ⟨hblank, hspan, hmem⟩ := Variant.judge_eq_kept_iff.1 hj
        exact .inl ⟨Variant.judge_eq_kept_iff.2 ⟨hblank, hspan, fun h => hmem (hkept h)⟩, rfl⟩
      · exact .inr (ih (v.keptAfter_subset hkept) hc)
    | false =>
      rw [List.filter_cons_of_neg (by simp [hv])]
      obtain ⟨-, rfl⟩ | hc := hc
      · exact absurd (hv.symm.trans hasked) nofun
      · exact ih (List.Subset.trans hkept v.subset_keptAfter) hc

end Candidate

/-! ## One target -/

/-- **Where a mutant comes from**: an operator of the registry, and one of
its versions of the target's text. -/
theorem Yields.exists_variant {r : Registry} {file : SourceFile} {t : Target}
    {group : List Mutant} (h : Yields r file t group) {m : Mutant} (hm : m ∈ group) :
    ∃ span vs v, ∃ o ∈ r.operators, file.slice? t.start t.stop = some span
      ∧ o.variants t span = some vs ∧ v ∈ vs
      ∧ Mutant.assemble? file t v.tag v.text = some m := by
  obtain ⟨cs, noOps, hcs, hall⟩ := h
  obtain ⟨c, hc, hmc⟩ := exists_mem_left hall hm
  obtain ⟨span, vs, hspan, hvs, hsub, -⟩ := Candidate.exists_variants_of_ofTarget hcs
  obtain ⟨v, hv, rfl⟩ := List.mem_map.1 (hsub.subset hc)
  obtain ⟨groups, hgroups, rfl⟩ := Option.map_eq_some_iff.1 hvs
  obtain ⟨vs', hvs', hv⟩ := List.mem_flatten.1 hv
  obtain ⟨o, ho, hovs⟩ := exists_mem_left ((mapM_eq_some_iff _ _ _).1 hgroups) hvs'
  exact ⟨span, vs', v, o, ho, hspan, hovs, hv, hmc⟩

/-- What a mutant that has been put together is called, and by what. -/
theorem Mutant.name_of_assemble? {file : SourceFile} {t : Target} {tag replacement : String}
    {m : Mutant} (h : assemble? file t tag replacement = some m) :
    m.name = nameOf file.simpleName t.kind t.ordinal tag ∧ m.operator = tag := by
  obtain ⟨text, -, rfl⟩ := Option.map_eq_some_iff.1 h
  exact ⟨rfl, rfl⟩

/-- **A name stands for one mutant** under all selections: it tells the
target, the operator and the version. -/
theorem Yields.eq_of_name {base r r' : Registry} (htags : base.tags.Nodup)
    (hr : r.operators ⊆ base.operators) (hr' : r'.operators ⊆ base.operators)
    {file : SourceFile} {targets : List Target} (hplaces : (targets.map place).Nodup)
    {t t' : Target} (ht : t ∈ targets) (ht' : t' ∈ targets) {group group' : List Mutant}
    (hgroup : Yields r file t group) (hgroup' : Yields r' file t' group') {m m' : Mutant}
    (hm : m ∈ group) (hm' : m' ∈ group') (hname : m.name = m'.name) : m = m' := by
  obtain ⟨span, vs, v, o, ho, hspan, hvs, hv, hmv⟩ := hgroup.exists_variant hm
  obtain ⟨span', vs', v', o', ho', hspan', hvs', hv', hmv'⟩ := hgroup'.exists_variant hm'
  rw [(Mutant.name_of_assemble? hmv).1, (Mutant.name_of_assemble? hmv').1] at hname
  obtain ⟨hkind, hordinal, htag⟩ := Mutant.nameOf_inj hname
  obtain rfl : t = t' := List.inj_on_of_nodup_map hplaces ht ht' (Prod.ext hkind hordinal)
  obtain rfl := Option.some.inj (hspan.symm.trans hspan')
  obtain ⟨hop, hindex⟩ := tag_inj htag
  obtain ⟨hkeys, hvop⟩ := Operator.nodup_keys_variants hvs
  -- the tag tells the operator
  obtain rfl : o = o' := by
    refine List.inj_on_of_nodup_map htags (hr ho) (hr' ho') ?_
    rw [← hvop v hv, hop, (Operator.nodup_keys_variants hvs').2 v' hv']
  obtain rfl := Option.some.inj (hvs.symm.trans hvs')
  obtain rfl : v = v' := List.inj_on_of_nodup_map hkeys hv hv' (Prod.ext hop hindex)
  exact Option.some.inj (hmv.symm.trans hmv')

/-- A target that has candidates under all operators has some under a part
of them, possibly none. -/
theorem Candidate.exists_ofTarget_filter {r r' : Registry} {asked : String → Bool}
    (hr : r.operators = r'.operators.filter fun o => asked o.tag) {file : SourceFile}
    {t : Target} {found : List Candidate × List Error} (h : ofTarget r' file t = some found) :
    ∃ cs noOps, ofTarget r file t = some (cs, noOps) := by
  obtain ⟨span, vs, hspan, hvs, -⟩ := ofTarget_eq_some_iff.1 h
  exact ⟨_, _, ofTarget_eq_some_iff.2 ⟨span, _, hspan, Registry.variants_filter hr hvs, rfl⟩⟩

/-- **A smaller selection yields what a larger one yields** by the operators
that are left. -/
theorem Yields.mem_of_operator {r r' : Registry} {asked : String → Bool}
    (hr : r.operators = r'.operators.filter fun o => asked o.tag) {file : SourceFile}
    {t : Target} {group group' : List Mutant} (hgroup : Yields r file t group)
    (hgroup' : Yields r' file t group') {m : Mutant} (hm : m ∈ group') {op : String} {i : Nat}
    (hop : m.operator = op ++ "_" ++ toString i) (hasked : asked op = true) : m ∈ group := by
  obtain ⟨cs', noOps', hcs', hall'⟩ := hgroup'
  obtain ⟨cs, noOps, hcs, hall⟩ := hgroup
  obtain ⟨span, vs', hspan, hvs', hsift'⟩ := Candidate.ofTarget_eq_some_iff.1 hcs'
  obtain ⟨_, _, hspan₂, hvs, hsift⟩ := Candidate.ofTarget_eq_some_iff.1 hcs
  obtain rfl := Option.some.inj (hspan.symm.trans hspan₂)
  obtain rfl := Option.some.inj ((Registry.variants_filter hr hvs').symm.trans hvs)
  obtain rfl : _ = cs' := congrArg Prod.fst hsift'
  obtain rfl : _ = cs := congrArg Prod.fst hsift
  obtain ⟨c, hc, hmc⟩ := exists_mem_left hall' hm
  -- the tag of the candidate names an operator that is left
  have hleft : asked c.operator = true := by
    obtain ⟨v, -, rfl⟩ := List.mem_map.1 ((Candidate.sift_sublist [] vs').subset hc)
    have htag : v.tag = op ++ "_" ++ toString i :=
      (Mutant.name_of_assemble? hmc).2.symm.trans hop
    rw [← (tag_inj htag).1] at hasked
    exact hasked
  obtain ⟨m', hm', hmc'⟩ := exists_mem_left hall.flip
    (Candidate.mem_sift_filter (List.Subset.refl []) hc hleft)
  obtain rfl := Option.some.inj (hmc.symm.trans hmc')
  exact hm'

/-! ## All targets -/

namespace FileMutants

variable {path : Path} {text : String} {file : SourceFile} {base r r' : Registry}
  {named named' : List String}

/-- **A smaller selection ends well** if a larger one does. -/
theorem exists_ofTargets_of_subset (hfile : SourceFile.parse path text = .ok file)
    (htags : base.tags.Nodup) (hr : base.select named = .ok r) (hr' : base.select named' = .ok r')
    (hsub : r.operators ⊆ r'.operators) (markers : Markers) {ms' : List Mutant}
    {noOps' : List Error} (h : ofTargets r' file (locate markers file) = some ⟨.ok ms', noOps'⟩) :
    ∃ ms noOps, ofTargets r file (locate markers file) = some ⟨.ok ms, noOps⟩ := by
  have hnodup : r.tags.Nodup := htags.sublist ((Registry.sublist_of_select hr).map _)
  obtain hok | ⟨-, t, ht, hnone⟩ := ofTargetsFrom_ok_or_none hnodup
    (Target.nodup_places_locate hfile) fun n hn => absurd hn List.not_mem_nil
  · exact hok
  · obtain ⟨groups, hgroups, -⟩ := exists_ofTargetsFrom_ok_iff.1 ⟨noOps', h⟩
    obtain ⟨group, -, cs, dropped, hcs, -⟩ := exists_mem_left hgroups.flip ht
    obtain ⟨_, _, hfound⟩ := Candidate.exists_ofTarget_filter
      (Registry.operators_of_select_of_subset hr hr' hsub) hcs
    exact absurd (hnone.symm.trans hfound) nofun

/-- **Names do not depend on the selection.** For every source file, all
markers and two selections of a registry in which no tag stands twice: a
mutant of the one run and a mutant of the other that have the same name
are the same, in origin, place and text and all else. And if the operators
of the first selection are among those of the second one, and the second
run ends well, then so does the first, and it gives every mutant that the
second run owes to one of them. -/
theorem names_stable (hfile : SourceFile.parse path text = .ok file) (markers : Markers)
    (htags : base.tags.Nodup) (hr : base.select named = .ok r)
    (hr' : base.select named' = .ok r') :
    (∀ ms noOps ms' noOps',
      ofTargets r file (locate markers file) = some ⟨.ok ms, noOps⟩ →
      ofTargets r' file (locate markers file) = some ⟨.ok ms', noOps'⟩ →
      ∀ m ∈ ms, ∀ m' ∈ ms', m.name = m'.name → m = m')
    ∧ ((∀ o ∈ r.operators, o ∈ r'.operators) → ∀ ms' noOps',
      ofTargets r' file (locate markers file) = some ⟨.ok ms', noOps'⟩ →
      ∃ ms noOps, ofTargets r file (locate markers file) = some ⟨.ok ms, noOps⟩
        ∧ ∀ m ∈ ms', ∀ o ∈ r.operators, ∀ i : Nat,
          m.operator = o.tag ++ "_" ++ toString i → m ∈ ms) := by
  have hplaces : ((locate markers file).map place).Nodup := Target.nodup_places_locate hfile
  constructor
  · intro ms noOps ms' noOps' h h' m hm m' hm' hname
    obtain ⟨groups, hgroups, rfl, -⟩ := exists_ofTargetsFrom_ok_iff.1 ⟨noOps, h⟩
    obtain ⟨groups', hgroups', rfl, -⟩ := exists_ofTargetsFrom_ok_iff.1 ⟨noOps', h'⟩
    obtain ⟨group, hgroup, hm⟩ := List.mem_flatten.1 hm
    obtain ⟨group', hgroup', hm'⟩ := List.mem_flatten.1 hm'
    obtain ⟨t, ht, hyields⟩ := exists_mem_left hgroups hgroup
    obtain ⟨t', ht', hyields'⟩ := exists_mem_left hgroups' hgroup'
    exact Yields.eq_of_name htags (Registry.sublist_of_select hr).subset
      (Registry.sublist_of_select hr').subset hplaces ht ht' hyields hyields' hm hm' hname
  · intro hsub ms' noOps' h'
    obtain ⟨ms, noOps, h⟩ := exists_ofTargets_of_subset hfile htags hr hr' hsub markers h'
    refine ⟨ms, noOps, h, fun m hm o ho i hop => ?_⟩
    obtain ⟨groups, hgroups, rfl, -⟩ := exists_ofTargetsFrom_ok_iff.1 ⟨noOps, h⟩
    obtain ⟨groups', hgroups', rfl, -⟩ := exists_ofTargetsFrom_ok_iff.1 ⟨noOps', h'⟩
    obtain ⟨group', hgroup', hm⟩ := List.mem_flatten.1 hm
    obtain ⟨t, ht, hyields'⟩ := exists_mem_left hgroups' hgroup'
    obtain ⟨group, hgroup, hyields⟩ := exists_mem_left hgroups.flip ht
    have hasked : Registry.asksFor named o.tag = true := by
      rw [Registry.operators_of_select hr] at ho
      exact (List.mem_filter.1 ho).2
    exact List.mem_flatten.2 ⟨group, hgroup,
      Yields.mem_of_operator (Registry.operators_of_select_of_subset hr hr' hsub) hyields
        hyields' hm hop hasked⟩

/-- An operator that puts texts after a text. -/
def appending (tag : String) (texts : List String) : Operator :=
  ⟨tag, "", fun _ => true, fun _ s => some (texts.map (s ++ ·))⟩

/-- Two operators with a version in common: selecting the second of them
brings up a version that the first has hidden, and changes no name. -/
theorem names_stable_hidden :
    let base : Registry := ⟨[appending "x" ["1"], appending "y" ["1", "2"]]⟩
    let part : Registry := ⟨[appending "y" ["1", "2"]]⟩
    ∃ file, SourceFile.parse ⟨"A.java"⟩ "@M class A \x7b\x7d" = .ok file
      ∧ base.select [] = .ok base ∧ base.select ["y"] = .ok part
      ∧ ∃ ms' noOps', ofTargets base file (locate ⟨"M", "N"⟩ file) = some ⟨.ok ms', noOps'⟩
        ∧ names ms' = ["A_type0_x_0", "A_type0_y_1"]
        ∧ ∃ ms noOps, ofTargets part file (locate ⟨"M", "N"⟩ file) = some ⟨.ok ms, noOps⟩
          ∧ names ms = ["A_type0_y_0", "A_type0_y_1"]
          ∧ ∀ m ∈ ms', m.operator = "y_1" → m ∈ ms := by
  intro base part
  let file : SourceFile :=
    ⟨⟨"A.java"⟩, "@M class A \x7b\x7d", Syntax.parse "@M class A \x7b\x7d"⟩
  obtain ⟨hfile, hlocate⟩ : SourceFile.parse ⟨"A.java"⟩ "@M class A \x7b\x7d" = .ok file
      ∧ locate ⟨"M", "N"⟩ file = [⟨.typeDeclaration, "A", 0, 13, 0, true, false⟩] :=
    Target.parse_and_locate_eq _ (by decide +kernel)
  have hall : base.select [] = .ok base := rfl
  have hpart : base.select ["y"] = .ok part := rfl
  have hstable := (names_stable hfile ⟨"M", "N"⟩ (by decide) hpart hall).2 (by simp [base, part])
  have hms' : ofTargets base file (locate ⟨"M", "N"⟩ file) = some ⟨.ok [
      ⟨⟨"A.java"⟩, "A_type0_x_0", "@M class A \x7b\x7d1", .typeDeclaration, 0, "x_0", 0, 13, 14⟩,
      ⟨⟨"A.java"⟩, "A_type0_y_1", "@M class A \x7b\x7d2", .typeDeclaration, 0, "y_1", 0, 13, 14⟩],
      []⟩ := by
    rw [hlocate]
    decide
  obtain ⟨ms, noOps, hms, hmem⟩ := hstable _ _ hms'
  have hnames : (ofTargets part file (locate ⟨"M", "N"⟩ file)).bind
      (fun out => out.result.toOption.map names) = some ["A_type0_y_0", "A_type0_y_1"] := by
    rw [hlocate]
    decide
  rw [hms] at hnames
  exact ⟨file, hfile, hall, hpart, _, _, hms', rfl, ms, noOps, hms, Option.some.inj hnames,
    fun m hm hop => hmem m hm _ List.mem_cons_self 1 hop⟩

end FileMutants

end JavaMutants
