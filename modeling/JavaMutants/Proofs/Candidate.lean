import JavaMutants.Candidate
import JavaMutants.Proofs.Traversal

/-!
# What the sieve lets through

The candidates of a target are some of its versions, in the same order
(`sift_sublist`). None of them is the target's text, and no two of them
are the same text (`nodup_replacements_sift`). Which versions there are is
told apart by operator and place: where no tag stands twice in a registry,
no operator and place do either (`Registry.nodup_keys_variants`).
-/

namespace JavaMutants

/-! ## Judging a version -/

theorem Variant.judge_eq_kept_iff {span : String} {kept : List String} {v : Variant} :
    v.judge span kept = .kept
      ↔ Text.isBlankText v.text = false ∧ v.text ≠ span ∧ v.text ∉ kept := by
  unfold Variant.judge
  cases hb : Text.isBlankText v.text <;> by_cases hs : v.text = span <;>
    by_cases hk : v.text ∈ kept <;> simp [hs, hk]

namespace Candidate

variable {span place : String}

/-- **The sieve keeps the order**: candidates are some of the versions, one
after the other. -/
theorem sift_sublist (kept : List String) (vs : List Variant) :
    (sift span place kept vs).1.Sublist (vs.map ofVariant) := by
  induction vs generalizing kept with
  | nil => exact List.Sublist.slnil
  | cons v vs ih =>
    rw [sift]
    cases v.judge span kept with
    | kept => exact (ih (v.text :: kept)).cons_cons (ofVariant v)
    | noOp => exact (ih kept).cons (ofVariant v)
    | blank => exact (ih kept).cons (ofVariant v)
    | duplicate => exact (ih kept).cons (ofVariant v)

/-- A candidate is neither the target's text nor what has been kept
before. -/
theorem replacement_of_mem_sift {kept : List String} {vs : List Variant} {c : Candidate}
    (hc : c ∈ (sift span place kept vs).1) :
    c.replacement ≠ span ∧ c.replacement ∉ kept := by
  induction vs generalizing kept with
  | nil => exact absurd hc List.not_mem_nil
  | cons v vs ih =>
    rw [sift] at hc
    cases hj : v.judge span kept with
    | kept =>
      rw [hj] at hc
      rcases List.mem_cons.1 hc with rfl | hc
      · exact (Variant.judge_eq_kept_iff.1 hj).2
      · exact (ih hc).imp id fun hk h => hk (List.mem_cons_of_mem v.text h)
    | noOp => rw [hj] at hc; exact ih hc
    | blank => rw [hj] at hc; exact ih hc
    | duplicate => rw [hj] at hc; exact ih hc

/-- **No two candidates of a target are the same text.** -/
theorem nodup_replacements_sift (kept : List String) (vs : List Variant) :
    ((sift span place kept vs).1.map (·.replacement)).Nodup := by
  induction vs generalizing kept with
  | nil => exact List.nodup_nil
  | cons v vs ih =>
    rw [sift]
    cases v.judge span kept with
    | kept =>
      refine List.nodup_cons.2 ⟨fun hv => ?_, ih (v.text :: kept)⟩
      obtain ⟨c, hc, hcv⟩ := List.mem_map.1 hv
      exact (replacement_of_mem_sift hc).2 (hcv ▸ List.mem_cons_self)
    | noOp => exact ih kept
    | blank => exact ih kept
    | duplicate => exact ih kept

/-- What the candidates of a target come from: its text in the file, and
all versions of it. -/
theorem ofTarget_eq_some_iff {r : Registry} {file : SourceFile} {t : Target}
    {cs : List Candidate} {noOps : List Error} :
    ofTarget r file t = some (cs, noOps)
      ↔ ∃ span vs, file.slice? t.start t.stop = some span ∧ r.variants t span = some vs
        ∧ sift span (t.describe ++ " in " ++ file.path.text) [] vs = (cs, noOps) := by
  unfold ofTarget
  cases hspan : file.slice? t.start t.stop with
  | none => simp
  | some span => cases hvs : r.variants t span <;> simp [hvs]

/-- **What the candidates of a target are**: some of its versions, in
order, none of them its own text and no two the same text. -/
theorem exists_variants_of_ofTarget {r : Registry} {file : SourceFile} {t : Target}
    {cs : List Candidate} {noOps : List Error} (h : ofTarget r file t = some (cs, noOps)) :
    ∃ span vs, file.slice? t.start t.stop = some span ∧ r.variants t span = some vs
      ∧ cs.Sublist (vs.map ofVariant) ∧ (∀ c ∈ cs, c.replacement ≠ span)
      ∧ (cs.map (·.replacement)).Nodup := by
  obtain ⟨span, vs, hspan, hvs, hsift⟩ := ofTarget_eq_some_iff.1 h
  obtain rfl : (sift span (t.describe ++ " in " ++ file.path.text) [] vs).1 = cs :=
    congrArg Prod.fst hsift
  exact ⟨span, vs, hspan, hvs, sift_sublist [] vs,
    fun c hc => (replacement_of_mem_sift hc).1, nodup_replacements_sift [] vs⟩

end Candidate

/-! ## A registry gives versions if its operators do -/

theorem Operator.exists_variants {o : Operator} {t : Target} {span : String}
    (h : ∃ texts, o.generate t span = some texts) : ∃ vs, o.variants t span = some vs := by
  obtain ⟨texts, htexts⟩ := h
  unfold Operator.variants
  split
  · exact ⟨_, by rw [htexts]; rfl⟩
  · exact ⟨[], rfl⟩

/-- **A target that cuts its file has candidates**, possibly none, if no
operator gives up on its text. -/
theorem Candidate.exists_ofTarget {r : Registry} {file : SourceFile} {t : Target} {span : String}
    (hspan : file.slice? t.start t.stop = some span)
    (h : ∀ o ∈ r.operators, ∃ texts, o.generate t span = some texts) :
    ∃ cs noOps, ofTarget r file t = some (cs, noOps) := by
  obtain ⟨groups, hgroups⟩ := exists_mapM_eq_some fun o ho => Operator.exists_variants (h o ho)
  have hvs : r.variants t span = some groups.flatten := by
    rw [Registry.variants, hgroups]
    rfl
  exact ⟨_, _, ofTarget_eq_some_iff.2 ⟨span, groups.flatten, hspan, hvs, rfl⟩⟩

/-! ## Versions are told apart by operator and place -/

/-- What tells a version from the others of a target. -/
def Variant.key (v : Variant) : String × Nat := (v.operator, v.index)

/-- The versions of one operator carry its tag, each its own place. -/
theorem Operator.nodup_keys_variants {o : Operator} {t : Target} {span : String}
    {vs : List Variant} (h : o.variants t span = some vs) :
    (vs.map Variant.key).Nodup ∧ ∀ v ∈ vs, v.operator = o.tag := by
  unfold Operator.variants at h
  split at h
  · obtain ⟨texts, -, rfl⟩ := Option.map_eq_some_iff.1 h
    have hkeys : (texts.zipIdx.map fun x => (⟨o.tag, x.2, x.1⟩ : Variant)).map
        Variant.key = (List.range' 0 texts.length).map (Prod.mk o.tag) := by
      rw [← List.zipIdx_map_snd 0 texts, List.map_map, List.map_map]
      rfl
    refine ⟨?_, ?_⟩
    · rw [hkeys]
      exact (List.nodup_range' 1).map fun i j hij => (Prod.mk.inj hij).2
    · intro v hv
      obtain ⟨⟨text, index⟩, -, rfl⟩ := List.mem_map.1 hv
      rfl
  · cases h
    exact ⟨List.nodup_nil, fun v hv => absurd hv List.not_mem_nil⟩

/-- **What a version of an operator is**: one of the texts that it gives for a target that
it takes, under its tag and with its place. -/
theorem Operator.exists_of_mem_variants {o : Operator} {t : Target} {span : String}
    {vs : List Variant} (h : o.variants t span = some vs) {v : Variant} (hv : v ∈ vs) :
    v.operator = o.tag ∧ o.applies t = true
      ∧ ∃ texts, o.generate t span = some texts ∧ texts[v.index]? = some v.text := by
  unfold Operator.variants at h
  split at h
  next happlies =>
    obtain ⟨texts, htexts, rfl⟩ := Option.map_eq_some_iff.1 h
    obtain ⟨⟨text, index⟩, hmem, rfl⟩ := List.mem_map.1 hv
    exact ⟨rfl, happlies, texts, htexts, List.mem_zipIdx_iff_getElem?.1 hmem⟩
  next =>
    cases h
    exact absurd hv List.not_mem_nil

/-- **No operator and place stand twice** among the versions of a target,
if no tag stands twice in the registry. -/
theorem Registry.nodup_keys_variants {r : Registry} (htags : r.tags.Nodup) {t : Target}
    {span : String} {vs : List Variant} (h : r.variants t span = some vs) :
    (vs.map Variant.key).Nodup := by
  obtain ⟨groups, hgroups, rfl⟩ := Option.map_eq_some_iff.1 h
  have hall := (mapM_eq_some_iff _ _ _).1 hgroups
  unfold Registry.tags at htags
  clear h hgroups
  generalize r.operators = operators at htags hall
  induction hall with
  | nil => exact List.nodup_nil
  | @cons o group os groups ho hos ih =>
    obtain ⟨hfirst, hnodup⟩ := List.nodup_cons.1 htags
    obtain ⟨hkeys, hop⟩ := Operator.nodup_keys_variants ho
    rw [List.flatten_cons, List.map_append]
    refine hkeys.append (ih hnodup) ?_
    -- the tag of the first operator is not that of a later one
    intro key hmine hother
    obtain ⟨v, hv, rfl⟩ := List.mem_map.1 hmine
    obtain ⟨w, hw, hwv⟩ := List.mem_map.1 hother
    obtain ⟨group', hgroup', hw⟩ := List.mem_flatten.1 hw
    obtain ⟨o', ho', hvar⟩ := exists_mem_left hos hgroup'
    apply hfirst
    refine List.mem_map.2 ⟨o', ho', ?_⟩
    show o'.tag = o.tag
    rw [← (Operator.nodup_keys_variants hvar).2 w hw, ← hop v hv]
    exact (Prod.mk.inj hwv).1

end JavaMutants
