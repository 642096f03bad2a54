import JavaMutants.Proofs.Mutant.Stability
import JavaMutants.Proofs.Run.Determinism
import JavaMutants.Report
import Mathlib.Algebra.GroupWithZero.Nat
import Mathlib.Data.String.Basic

/-!
# The accounts of a report

Every file of an outcome is done, has failed or was skipped, so the files that were worked
on to the end are those that the other two leave over, and taking them away never comes
below nothing (`Outcome.length_files`). Every mutant is counted once under one key
(`Report.sum_tally`), and how often is read off the keys (`Report.lookup_tally`).

The key of a mutant is the tag of its operator again, whatever characters that is made of:
the place of a version is a number, which holds no underscore, so it is all that comes
after the last one (`Report.operatorOf_tag`). Hence the report on a run says of each
operator how many of the mutants it made (`Report.ofOutcome_balanced`).
-/

namespace JavaMutants

/-! ## Files -/

/-- **Every file is done, has failed or was skipped.** -/
theorem Outcome.length_files (o : Outcome) :
    o.files.length
      = (o.files.filter fun f => f.status = .done).length + o.failures.length + o.skipped := by
  unfold failures skipped
  induction o.files with
  | nil => rfl
  | cons f files ih =>
    rw [List.length_cons, ih, List.filter_cons, List.filterMap_cons, List.filter_cons]
    cases hstatus : f.status with
    | done =>
      simp only [FileOutcome.error?, FileOutcome.isSkipped, hstatus, decide_true, if_true,
        Option.map_none, Bool.false_eq_true, if_false, List.length_cons]
      omega
    | failed e =>
      simp only [FileOutcome.error?, FileOutcome.isSkipped, hstatus, reduceCtorEq, decide_false,
        Option.map_some, Bool.false_eq_true, if_false, List.length_cons]
      omega
    | skipped =>
      simp only [FileOutcome.error?, FileOutcome.isSkipped, hstatus, reduceCtorEq, decide_false,
        Option.map_none, Bool.false_eq_true, if_true, if_false, List.length_cons]
      omega

/-- An outcome has failures if some of its files have failed. -/
theorem Outcome.isEmpty_failures (o : Outcome) : o.failures.isEmpty = !o.hasFailures := by
  unfold failures hasFailures
  induction o.files with
  | nil => rfl
  | cons f files ih =>
    rw [List.filterMap_cons, List.any_cons]
    cases hstatus : f.status with
    | failed e => simp [FileOutcome.error?, FileOutcome.isFailed, hstatus]
    | done => simpa [FileOutcome.error?, FileOutcome.isFailed, hstatus] using ih
    | skipped => simpa [FileOutcome.error?, FileOutcome.isFailed, hstatus] using ih

namespace Report

/-! ## Counting by keys -/

/-- **Counts in the order of their keys**, with no key twice. -/
def Sorted (counts : List (String × Nat)) : Prop :=
  counts.Pairwise fun a b => a.1 < b.1

/-- One more of a key is one more in all. -/
theorem sum_count (key : String) (counts : List (String × Nat)) :
    ((count key counts).map (·.2)).sum = (counts.map (·.2)).sum + 1 := by
  induction counts with
  | nil => rfl
  | cons entry rest ih =>
    obtain ⟨k, n⟩ := entry
    rw [count]
    split
    next =>
      simp only [List.map_cons, List.sum_cons]
      omega
    next =>
      split
      next =>
        simp only [List.map_cons, List.sum_cons]
        omega
      next =>
        simp only [List.map_cons, List.sum_cons, ih]
        omega

/-- The keys after one more of a key. -/
theorem mem_keys_count {key : String} {counts : List (String × Nat)} {entry : String × Nat}
    (h : entry ∈ count key counts) : entry.1 = key ∨ ∃ old ∈ counts, old.1 = entry.1 := by
  induction counts with
  | nil => exact .inl (congrArg Prod.fst (List.mem_singleton.1 h))
  | cons first rest ih =>
    obtain ⟨k, n⟩ := first
    rw [count] at h
    split at h
    next =>
      rcases List.mem_cons.1 h with rfl | h
      · exact .inl rfl
      · exact .inr ⟨entry, h, rfl⟩
    next =>
      split at h
      next =>
        rcases List.mem_cons.1 h with rfl | h
        · exact .inr ⟨(k, n), List.mem_cons_self, rfl⟩
        · exact .inr ⟨entry, List.mem_cons_of_mem _ h, rfl⟩
      next =>
        rcases List.mem_cons.1 h with rfl | h
        · exact .inr ⟨(k, n), List.mem_cons_self, rfl⟩
        · exact (ih h).imp_right fun ⟨old, hold, heq⟩ => ⟨old, List.mem_cons_of_mem _ hold, heq⟩

/-- **One more of a key keeps the order.** -/
theorem Sorted.count {counts : List (String × Nat)} (h : Sorted counts) (key : String) :
    Sorted (count key counts) := by
  induction counts with
  | nil => exact List.pairwise_singleton _ _
  | cons first rest ih =>
    obtain ⟨k, n⟩ := first
    obtain ⟨hfirst, hrest⟩ := List.pairwise_cons.1 h
    rw [Report.count]
    split
    next hlt =>
      refine .cons (fun entry hentry => ?_) h
      rcases List.mem_cons.1 hentry with rfl | hentry
      · exact hlt
      · exact lt_trans hlt (hfirst entry hentry)
    next hnot =>
      split
      next => exact .cons hfirst hrest
      next hne =>
        have hlt : k < key :=
          lt_of_le_of_ne (not_lt.1 hnot) fun heq => hne (beq_iff_eq.2 heq.symm)
        refine .cons (fun entry hentry => ?_) (ih hrest)
        rcases mem_keys_count hentry with heq | ⟨old, hold, heq⟩
        · exact heq ▸ hlt
        · exact heq ▸ hfirst old hold

theorem lookup_cons_of_ne {k k₁ : String} (h : k ≠ k₁) (n : Nat) (counts : List (String × Nat)) :
    ((k₁, n) :: counts).lookup k = counts.lookup k := by
  rw [List.lookup_cons, beq_eq_false_iff_ne.2 h]

/-- A key before all others is not among them. -/
theorem Sorted.lookup_eq_none {key k : String} {n : Nat} {counts : List (String × Nat)}
    (h : Sorted ((k, n) :: counts)) (hlt : key < k) : ((k, n) :: counts).lookup key = none := by
  refine List.lookup_eq_none_iff.2 fun entry hentry => bne_iff_ne.2 ?_
  rcases List.mem_cons.1 hentry with rfl | hentry
  · exact hlt.ne
  · exact (lt_trans hlt ((List.pairwise_cons.1 h).1 entry hentry)).ne

/-- **What is found after one more of a key.** -/
theorem Sorted.lookup_count {counts : List (String × Nat)} (h : Sorted counts)
    (key k : String) : (Report.count key counts).lookup k
      = if k = key then some ((counts.lookup k).getD 0 + 1) else counts.lookup k := by
  induction counts with
  | nil =>
    rw [Report.count]
    split
    next hk => rw [hk, List.lookup_cons_self, List.lookup_nil, Option.getD_none]
    next hk => exact lookup_cons_of_ne hk 1 []
  | cons first rest ih =>
    obtain ⟨k₁, n⟩ := first
    rw [Report.count]
    split
    next hlt =>
      split
      next hk =>
        rw [hk, List.lookup_cons_self, h.lookup_eq_none hlt]
        rfl
      next hk => exact lookup_cons_of_ne hk 1 _
    next =>
      split
      next heq =>
        obtain rfl := beq_iff_eq.1 heq
        split
        next hk => rw [hk, List.lookup_cons_self, List.lookup_cons_self, Option.getD_some]
        next hk => rw [lookup_cons_of_ne hk, lookup_cons_of_ne hk]
      next hne =>
        by_cases hk : k = k₁
        · have hkey : k ≠ key := fun heq => hne (beq_iff_eq.2 (heq.symm.trans hk))
          rw [if_neg hkey, hk, List.lookup_cons_self, List.lookup_cons_self]
        · rw [lookup_cons_of_ne hk, lookup_cons_of_ne hk, ih (List.pairwise_cons.1 h).2]

theorem tally_concat (keys : List String) (key : String) :
    tally (keys ++ [key]) = count key (tally keys) :=
  List.foldl_concat ..

theorem sorted_tally (keys : List String) : Sorted (tally keys) := by
  induction keys using List.reverseRecOn with
  | nil => exact .nil
  | append_singleton keys key ih => exact tally_concat keys key ▸ ih.count key

/-- **All is counted once.** -/
theorem sum_tally (keys : List String) : ((tally keys).map (·.2)).sum = keys.length := by
  induction keys using List.reverseRecOn with
  | nil => rfl
  | append_singleton keys key ih =>
    rw [tally_concat, sum_count, ih, List.length_append, List.length_singleton]

/-- **What is found for a key** is how often it occurs, and nothing if it does not. -/
theorem lookup_tally (keys : List String) (k : String) :
    (tally keys).lookup k = if keys.count k = 0 then none else some (keys.count k) := by
  induction keys using List.reverseRecOn with
  | nil => rfl
  | append_singleton keys key ih =>
    rw [tally_concat, (sorted_tally keys).lookup_count, ih, List.count_append,
      List.count_singleton]
    by_cases hk : k = key
    · subst hk
      by_cases hzero : keys.count k = 0
      · simp [hzero]
      · simp [hzero]
    · simp [hk, Ne.symm hk]

/-! ## The key of a mutant -/

/-- **The operator can be read off the tag** of each of its versions, whatever characters
its own tag is made of. -/
theorem operatorOf_tag (t : String) (i : Nat) : operatorOf (t ++ "_" ++ toString i) = t := by
  have hdigits : ∀ c ∈ (toString i).toList.reverse, (c != '_') = true ∧ c.isDigit = true := by
    intro c hc
    rw [List.mem_reverse] at hc
    refine ⟨bne_iff_ne.2 fun h => underscore_notMem_toString i (h ▸ hc), ?_⟩
    rw [Nat.toString_eq_repr, Nat.toList_repr] at hc
    exact Nat.isDigit_of_mem_toDigits (by decide) (by decide) hc
  have hne : (toString i).toList.reverse ≠ [] := by
    rw [Nat.toString_eq_repr, Nat.toList_repr]
    exact mt List.reverse_eq_nil_iff.1 Nat.toDigits_ne_nil
  have hspan : (t ++ "_" ++ toString i).toList.reverse.span (· != '_')
      = ((toString i).toList.reverse, '_' :: t.toList.reverse) := by
    rw [toList_sep, List.reverse_append, List.reverse_cons, List.append_assoc,
      List.singleton_append, List.span_eq_takeWhile_dropWhile,
      List.takeWhile_append_of_pos fun c hc => (hdigits c hc).1,
      List.dropWhile_append_of_pos fun c hc => (hdigits c hc).1]
    simp
  have hall : (toString i).toList.reverse.all Char.isDigit = true :=
    List.all_eq_true.2 fun c hc => (hdigits c hc).2
  unfold operatorOf
  rw [hspan]
  simp only [List.isEmpty_eq_false_iff.2 hne, hall, Bool.not_false, Bool.and_true, if_true,
    List.reverse_reverse, String.ofList_toList]

end Report

/-! ## Who made a mutant -/

/-- **An operator with a tag makes a mutant** of a run. -/
inductive Generator.Makes (g : Generator) (fs : FileSystem) (inputs : List SourceInput) :
    String → Mutant → Prop
  /-- One of its versions for a target in one of the files stands in the place of the
  target. -/
  | version {input : SourceInput} {file : SourceFile} {t : Target} {span : String} {o : Operator}
      {texts : List String} {i : Nat} {text : String} {m : Mutant} (hinput : input ∈ inputs)
      (hload : SourceFile.load fs input = .ok file) (ht : t ∈ Target.locate g.markers file)
      (hspan : file.slice? t.start t.stop = some span) (ho : o ∈ g.registry.operators)
      (happlies : o.applies t = true) (htexts : o.generate t span = some texts)
      (htext : texts[i]? = some text)
      (hm : Mutant.assemble? file t (o.tag ++ "_" ++ toString i) text = some m) :
      Makes g fs inputs o.tag m

namespace Generator

variable {g : Generator} {fs : FileSystem} {inputs : List SourceInput}

/-- **The key of a mutant is the tag of the operator that made it.** -/
theorem Makes.operatorOf_eq {tag : String} {m : Mutant} (h : g.Makes fs inputs tag m) :
    Report.operatorOf m.operator = tag := by
  cases h with
  | version _ _ _ _ _ _ _ _ hm =>
    rw [(Mutant.name_of_assemble? hm).2, Report.operatorOf_tag]

/-- **Every mutant of a run is made by an operator**, whatever the schedule. -/
theorem exists_makes {schedule : List Nat} {m : Mutant}
    (hm : m ∈ (g.runUnder fs inputs schedule).mutants) : ∃ tag, g.Makes fs inputs tag m := by
  obtain ⟨o, ho, hm⟩ := List.mem_flatMap.1 hm
  obtain ⟨input, hinput, rfl | rfl⟩ := Pool.exists_of_mem_outcomes (List.mem_mergeSort.1 ho)
  · exact absurd hm List.not_mem_nil
  rcases mutants_process g fs input with hnil | ⟨file, noOps, hload, hms⟩
  · rw [hnil] at hm
    exact absurd hm List.not_mem_nil
  obtain ⟨groups, hgroups, hflat, -⟩ := FileMutants.exists_ofTargetsFrom_ok_iff.1 ⟨noOps, hms⟩
  rw [hflat] at hm
  obtain ⟨group, hgroup, hm⟩ := List.mem_flatten.1 hm
  obtain ⟨t, ht, hyields⟩ := exists_mem_left hgroups hgroup
  obtain ⟨span, vs, v, op, hop, hspan, hvs, hv, hmv⟩ := hyields.exists_variant hm
  obtain ⟨htag, happlies, texts, htexts, htext⟩ := Operator.exists_of_mem_variants hvs hv
  rw [Variant.tag, htag] at hmv
  exact ⟨op.tag, .version hinput hload ht hspan hop happlies htexts htext hmv⟩

end Generator

/-! ## The report -/

/-- The report counts mutants by their keys. -/
theorem Report.perOperator_ofOutcome (outcome : Outcome) (duration : Duration) :
    (ofOutcome outcome duration).perOperator
      = tally (outcome.mutants.map fun m => operatorOf m.operator) := rfl

/-- **The accounts of a report balance.** Whatever the outcome is, the files that have
failed and those that were skipped are no more than all files, and those left over are the
files that are done; the counts of the operators make up all mutants; and the report has
failures if the outcome has.

In a run, whatever tags the operators have and under every schedule, each mutant is made by
an operator. The report has a count for an operator if it made a mutant, and the count says
how many; and it lists the operators in the order of their tags. For the tag of a version
tells that of its operator. -/
theorem Report.ofOutcome_balanced (duration : Duration) :
    (∀ outcome : Outcome,
      (ofOutcome outcome duration).failed.length + (ofOutcome outcome duration).skipped
          ≤ (ofOutcome outcome duration).files
        ∧ (ofOutcome outcome duration).processed
          = (outcome.files.filter fun f => f.status = .done).length
        ∧ ((ofOutcome outcome duration).perOperator.map (·.2)).sum
          = (ofOutcome outcome duration).mutants
        ∧ (ofOutcome outcome duration).mutants = outcome.mutants.length
        ∧ (ofOutcome outcome duration).hasFailures = outcome.hasFailures)
      ∧ (∀ (g : Generator) (fs : FileSystem) (inputs : List SourceInput) (schedule : List Nat),
        ∃ tags, List.Forall₂ (g.Makes fs inputs) tags (g.runUnder fs inputs schedule).mutants
          ∧ Sorted (ofOutcome (g.runUnder fs inputs schedule) duration).perOperator
          ∧ ∀ t, (ofOutcome (g.runUnder fs inputs schedule) duration).perOperator.lookup t
            = if tags.count t = 0 then none else some (tags.count t))
      ∧ ∀ (t : String) (i : Nat), operatorOf (t ++ "_" ++ toString i) = t := by
  refine ⟨fun outcome => ?_, fun g fs inputs schedule => ?_, operatorOf_tag⟩
  · have hfiles := outcome.length_files
    have hfailed : (ofOutcome outcome duration).failed.length = outcome.failures.length :=
      List.length_map _
    refine ⟨?_, ?_, ?_, rfl, ?_⟩
    · rw [hfailed]
      show outcome.failures.length + outcome.skipped ≤ outcome.files.length
      omega
    · rw [processed, hfailed]
      show outcome.files.length - outcome.failures.length - outcome.skipped = _
      omega
    · exact (sum_tally _).trans (List.length_map _)
    · rw [hasFailures, ofOutcome, List.isEmpty_map, outcome.isEmpty_failures, Bool.not_not]
  · rw [perOperator_ofOutcome]
    refine ⟨_, ?_, sorted_tally _, lookup_tally _⟩
    refine List.forall₂_map_left_iff.2 (List.forall₂_same.2 fun m hm => ?_)
    obtain ⟨tag, htag⟩ := Generator.exists_makes hm
    exact htag.operatorOf_eq ▸ htag

/-- Tags that end in an underscore and digits, and one that is such a tag with a digit
more. -/
example : Report.tally (["a_1_0", "a_0", "a__0", "a_1_10", "a"].map Report.operatorOf)
    = [("a", 2), ("a_", 1), ("a_1", 2)] := by
  decide

end JavaMutants
