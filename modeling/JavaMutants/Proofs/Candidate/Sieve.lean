import Mathlib.Data.List.Induction
import JavaMutants.Proofs.Candidate

/-!
# What becomes of every version

A version falls under one of four verdicts, and which one is told by the
version and those before it alone (`Variant.Falls`): it is blank, or it is the
target's text, or one before it that is neither has the same text, or it is
kept. The sieve works through the versions one by one and remembers no more
than the texts it has kept. That this is enough is the invariant of its steps
(`Candidate.Sieve.Sifted`): a text has been kept exactly if it has come up in a
version that is neither blank nor the target's text.

So the candidates of a target are the versions that fall under the first
verdict, in their order, and its no-ops are put on record in theirs
(`Candidate.record_exact`).
-/

namespace JavaMutants

/-! ## Verdicts -/

namespace Variant

/-- A version that is neither blank nor the target's text. -/
def IsProper (span : String) (v : Variant) : Prop :=
  Text.isBlankText v.text = false ∧ v.text ≠ span

instance (span : String) (v : Variant) : Decidable (v.IsProper span) :=
  inferInstanceAs (Decidable (_ ∧ _))

/-- **The verdict on a version**, given those before it. -/
def Falls (span : String) (earlier : List Variant) (v : Variant) : Verdict → Prop
  | .blank => Text.isBlankText v.text = true
  | .noOp => Text.isBlankText v.text = false ∧ v.text = span
  | .duplicate => v.IsProper span ∧ ∃ w ∈ earlier, w.IsProper span ∧ w.text = v.text
  | .kept => v.IsProper span ∧ ∀ w ∈ earlier, w.IsProper span → w.text ≠ v.text

instance (span : String) (earlier : List Variant) (v : Variant) (verdict : Verdict) :
    Decidable (v.Falls span earlier verdict) :=
  match verdict with
  | .blank => inferInstanceAs (Decidable (_ = _))
  | .noOp => inferInstanceAs (Decidable (_ ∧ _))
  | .duplicate => inferInstanceAs (Decidable (_ ∧ _))
  | .kept => inferInstanceAs (Decidable (_ ∧ _))

variable {span : String} {earlier : List Variant} {v : Variant}

/-- What is kept tells the verdict, if it is what came up before. -/
theorem falls_judge {kept : List String}
    (hkept : ∀ s, s ∈ kept ↔ ∃ w ∈ earlier, w.IsProper span ∧ w.text = s) :
    v.Falls span earlier (v.judge span kept) := by
  have hseen := hkept v.text
  unfold judge
  split
  next hb => exact hb
  next hb =>
    have hb : Text.isBlankText v.text = false := by simpa using hb
    split
    next hs => exact ⟨hb, by simpa using hs⟩
    next hs =>
      have hproper : v.IsProper span := ⟨hb, by simpa using hs⟩
      split
      next hk => exact ⟨hproper, hseen.1 (by simpa using hk)⟩
      next hk =>
        refine ⟨hproper, fun w hw hwp hwv => hk ?_⟩
        simpa using hseen.2 ⟨w, hw, hwp, hwv⟩

/-- **No version falls under two verdicts.** -/
theorem Falls.eq {a b : Verdict} (ha : v.Falls span earlier a) (hb : v.Falls span earlier b) :
    a = b := by
  cases a <;> cases b <;> simp only [Falls, IsProper] at ha hb <;> first | rfl | grind

/-- **Every version falls under one verdict.** -/
theorem existsUnique_falls (span : String) (earlier : List Variant) (v : Variant) :
    ∃! verdict, v.Falls span earlier verdict := by
  let texts := (earlier.filter fun w => decide (w.IsProper span)).map (·.text)
  have htexts : ∀ s, s ∈ texts ↔ ∃ w ∈ earlier, w.IsProper span ∧ w.text = s := by
    simp [texts, and_assoc]
  exact ⟨_, falls_judge htexts, fun _ h => h.eq (falls_judge htexts)⟩

end Variant

/-- **The versions that fall under a verdict**, in their order. -/
def Verdict.among (span : String) (verdict : Verdict) (vs : List Variant) : List Variant :=
  (vs.zipIdx.filter fun (v, i) => decide (v.Falls span (vs.take i) verdict)).map Prod.fst

/-- A version that comes last is judged by all others. -/
theorem Verdict.among_concat (span : String) (verdict : Verdict) (vs : List Variant)
    (v : Variant) : verdict.among span (vs ++ [v])
      = verdict.among span vs ++ if v.Falls span vs verdict then [v] else [] := by
  have hearlier : ∀ x ∈ vs.zipIdx, decide (x.1.Falls span ((vs ++ [v]).take x.2) verdict)
      = decide (x.1.Falls span (vs.take x.2) verdict) := fun x hx => by
    have hlt : x.2 < vs.length := by simpa using List.snd_lt_of_mem_zipIdx hx
    rw [List.take_append_of_le_length (Nat.le_of_lt hlt)]
  have hall : (vs ++ [v]).take vs.length = vs := List.take_left
  unfold among
  rw [List.zipIdx_append, List.filter_append, List.map_append]
  congr 1
  · exact congrArg _ (List.filter_congr hearlier)
  · simp only [Nat.zero_add, List.zipIdx_singleton, List.filter_singleton, hall]
    split <;> simp_all

namespace Candidate

variable {span place : String}

/-! ## One version -/

/-- **What the sieve has done** with some versions. -/
structure Sieve.Sifted (span place : String) (recorded : List Error) (vs : List Variant)
    (s : Sieve) : Prop where
  /-- The texts that were kept are those that came up. -/
  kept : ∀ text, text ∈ s.kept ↔ ∃ w ∈ vs, w.IsProper span ∧ w.text = text
  /-- The candidates are the versions that are kept. -/
  candidates : s.candidates = (Verdict.kept.among span vs).map ofVariant
  /-- The record has the versions that are the text itself. -/
  recorded : s.recorded
    = recorded ++ (Verdict.noOp.among span vs).map fun v => .noOp v.tag place

/-- **A step does with one more version** what its verdict asks for. -/
theorem Sieve.Sifted.step {recorded : List Error} {vs : List Variant} {s : Sieve}
    (h : Sifted span place recorded vs s) (v : Variant) :
    Sifted span place recorded (vs ++ [v]) (s.step span place v) := by
  have hfalls : v.Falls span vs (v.judge span s.kept) := Variant.falls_judge h.kept
  -- a version that is not kept adds no text: it is not proper, or its text came up before
  have hother : (v.IsProper span → ∃ w ∈ vs, w.IsProper span ∧ w.text = v.text) → ∀ text,
      text ∈ s.kept ↔ ∃ w ∈ vs ++ [v], w.IsProper span ∧ w.text = text := fun hv text => by
    rw [h.kept]
    constructor
    · exact fun ⟨w, hw, hwt⟩ => ⟨w, List.mem_append_left _ hw, hwt⟩
    · rintro ⟨w, hw, hwp, rfl⟩
      rcases List.mem_append.1 hw with hw | hw
      · exact ⟨w, hw, hwp, rfl⟩
      · obtain rfl := List.mem_singleton.1 hw
        exact hv hwp
  unfold Sieve.step
  cases hj : v.judge span s.kept with
  | kept =>
    rw [hj] at hfalls
    have hnot : ¬ v.Falls span vs .noOp := fun hn => nomatch hfalls.eq hn
    refine ⟨fun text => ?_, ?_, ?_⟩
    · simp only [List.mem_cons, h.kept, List.mem_append, List.mem_nil_iff, or_false]
      constructor
      · rintro (rfl | ⟨w, hw, hwt⟩)
        · exact ⟨v, .inr rfl, hfalls.1, rfl⟩
        · exact ⟨w, .inl hw, hwt⟩
      · rintro ⟨w, hw | rfl, hwp, hwt⟩
        · exact .inr ⟨w, hw, hwp, hwt⟩
        · exact .inl hwt.symm
    · rw [Verdict.among_concat, if_pos hfalls, List.map_append, ← h.candidates]
      rfl
    · rw [Verdict.among_concat, if_neg hnot, List.append_nil]
      exact h.recorded
  | noOp =>
    rw [hj] at hfalls
    have hnot : ¬ v.Falls span vs .kept := fun hk => nomatch hfalls.eq hk
    refine ⟨hother fun hp => absurd hfalls.2 hp.2, ?_, ?_⟩
    · rw [Verdict.among_concat, if_neg hnot, List.append_nil]
      exact h.candidates
    · rw [Verdict.among_concat, if_pos hfalls, List.map_append, ← List.append_assoc,
        ← h.recorded]
      rfl
  | blank =>
    rw [hj] at hfalls
    have hkept : ¬ v.Falls span vs .kept := fun hk => nomatch hfalls.eq hk
    have hnoOp : ¬ v.Falls span vs .noOp := fun hn => nomatch hfalls.eq hn
    have hblank : Text.isBlankText v.text = true := hfalls
    refine ⟨hother fun hp => ?_, ?_, ?_⟩
    · rw [hp.1] at hblank
      cases hblank
    · rw [Verdict.among_concat, if_neg hkept, List.append_nil]
      exact h.candidates
    · rw [Verdict.among_concat, if_neg hnoOp, List.append_nil]
      exact h.recorded
  | duplicate =>
    rw [hj] at hfalls
    have hkept : ¬ v.Falls span vs .kept := fun hk => nomatch hfalls.eq hk
    have hnoOp : ¬ v.Falls span vs .noOp := fun hn => nomatch hfalls.eq hn
    refine ⟨hother fun _ => hfalls.2, ?_, ?_⟩
    · rw [Verdict.among_concat, if_neg hkept, List.append_nil]
      exact h.candidates
    · rw [Verdict.among_concat, if_neg hnoOp, List.append_nil]
      exact h.recorded

/-! ## All versions -/

/-- **The sieve does with all versions** what their verdicts ask for. -/
theorem Sieve.sifted_foldl (span place : String) (recorded : List Error) (vs : List Variant) :
    Sifted span place recorded vs (vs.foldl (Sieve.step span place) { recorded := recorded }) := by
  induction vs using List.reverseRecOn with
  | nil => exact ⟨by simp, rfl, (List.append_nil _).symm⟩
  | append_singleton vs v ih =>
    rw [List.foldl_append]
    exact ih.step v

/-- What has been sifted goes in front of what is sifted. -/
theorem Sieve.foldl_eq_sift (span place : String) (s : Sieve) (vs : List Variant) :
    (vs.foldl (Sieve.step span place) s).candidates = s.candidates ++ (sift span place s.kept vs).1
      ∧ (vs.foldl (Sieve.step span place) s).recorded
        = s.recorded ++ (sift span place s.kept vs).2 := by
  induction vs generalizing s with
  | nil => simp [sift]
  | cons v vs ih =>
    rw [List.foldl_cons, sift]
    obtain ⟨hcandidates, hrecorded⟩ := ih (s.step span place v)
    rw [hcandidates, hrecorded]
    unfold Sieve.step
    cases v.judge span s.kept <;> simp

/-- **Keeping a record is sifting**, with the no-ops put behind it. -/
theorem record_eq (r : Registry) (file : SourceFile) (t : Target) (recorded : List Error) :
    record r file t recorded
      = (ofTarget r file t).map fun (candidates, noOps) => (candidates, recorded ++ noOps) := by
  unfold record ofTarget
  cases file.slice? t.start t.stop with
  | none => rfl
  | some span =>
    cases hvs : r.variants t span with
    | none => simp [hvs]
    | some vs =>
      obtain ⟨hcandidates, hrecorded⟩ := Sieve.foldl_eq_sift span
        (t.describe ++ " in " ++ file.path.text) { recorded := recorded } vs
      simp [hvs, hcandidates, hrecorded]

end Candidate

/-- All versions, if every operator that takes the target gives some texts. -/
theorem Registry.variants_eq {r : Registry} {t : Target} {span : String}
    {generated : Operator → List String}
    (h : ∀ o ∈ r.operators, o.applies t = true → o.generate t span = some (generated o)) :
    r.variants t span = some ((r.operators.filter fun o => o.applies t).flatMap fun o =>
      (generated o).zipIdx.map fun (text, index) => ⟨o.tag, index, text⟩) := by
  have hone (o : Operator) (ho : o ∈ r.operators) : o.variants t span
      = some (if o.applies t = true then
          (generated o).zipIdx.map fun (text, index) => ⟨o.tag, index, text⟩ else []) := by
    unfold Operator.variants
    split
    next ha => rw [h o ho ha]; rfl
    next => rfl
  have hall : List.Forall₂ (fun (o : Operator) vs => o.variants t span = some vs) r.operators
      (r.operators.map fun o => if o.applies t = true then
          (generated o).zipIdx.map fun (text, index) => ⟨o.tag, index, text⟩ else []) :=
    List.forall₂_map_right_iff.2 (List.forall₂_same.2 hone)
  rw [variants, (mapM_eq_some_iff _ _ _).2 hall, Option.map_some, Option.some_inj,
    ← List.flatMap_def]
  clear h hone hall
  induction r.operators with
  | nil => rfl
  | cons o os ih =>
    rw [List.flatMap_cons, ih, List.filter_cons]
    split
    · rw [List.flatMap_cons]
    · rfl

namespace Candidate

/-- **The sieve is exact.** Let `vs` be all versions of a target's text: those of the
operators that take the target, operator after operator, each with its place among the
versions of its operator. Then the candidates are the versions that are neither blank nor
the text nor a repetition, in their order and called by operator and place. The record
keeps what is on it and gets, in order, one entry for each version that is the text and
not blank. Each version falls under one of the four verdicts. Without a record the
candidates are the same, and so are those that the run works with. -/
theorem record_exact {r : Registry} {file : SourceFile} {t : Target} {span : String}
    {generated : Operator → List String} (hspan : file.slice? t.start t.stop = some span)
    (hgenerated : ∀ o ∈ r.operators, o.applies t = true → o.generate t span = some (generated o))
    (recorded : List Error) :
    let vs : List Variant := (r.operators.filter fun o => o.applies t).flatMap fun o =>
      (generated o).zipIdx.map fun (text, index) => ⟨o.tag, index, text⟩
    record r file t recorded = some (
        (Verdict.kept.among span vs).map fun v =>
          ⟨v.operator, v.operator ++ "_" ++ toString v.index, v.text⟩,
        recorded ++ (Verdict.noOp.among span vs).map fun v =>
          .noOp (v.operator ++ "_" ++ toString v.index) (t.describe ++ " in " ++ file.path.text))
      ∧ apply r file t = (record r file t recorded).map (·.1)
      ∧ ofTarget r file t = record r file t []
      ∧ ∀ (i : Nat) (v : Variant), vs[i]? = some v →
        ∃! verdict, v.Falls span (vs.take i) verdict := by
  intro vs
  have hvs : r.variants t span = some vs := Registry.variants_eq hgenerated
  have hrecord (es : List Error) : record r file t es = some (
      (Verdict.kept.among span vs).map ofVariant,
      es ++ (Verdict.noOp.among span vs).map fun v =>
        .noOp v.tag (t.describe ++ " in " ++ file.path.text)) := by
    have hsifted := Sieve.sifted_foldl span
      (t.describe ++ " in " ++ file.path.text) es vs
    unfold record
    simp only [hspan, hvs, Option.bind_eq_bind, Option.bind_some, hsifted.candidates,
      hsifted.recorded]
  refine ⟨hrecord recorded, ?_, ?_, fun i v _ => Variant.existsUnique_falls span (vs.take i) v⟩
  · rw [apply, hrecord, hrecord]
    rfl
  · simp [record_eq]

/-- Two operators for one target, with a blank version, the text itself, and a version that
both of them give. -/
theorem record_exact_two :
    let file : SourceFile := ⟨⟨"C.java"⟩, "ä<x>", .leaf (.named .program) ⟨0, 5⟩⟩
    let target : Target := ⟨.method, "x", 2, 5, 0, true, false⟩
    let generated (o : Operator) : List String :=
      if o.tag = "a" then ["\u3000", "<y>", "<x>"] else ["<y>", "<z>", "<y>"]
    let a : Operator := ⟨"a", "", fun _ => true, fun _ _ => some ["\u3000", "<y>", "<x>"]⟩
    let b : Operator := ⟨"b", "", fun _ => true, fun _ _ => some ["<y>", "<z>", "<y>"]⟩
    file.slice? 2 5 = some "<x>"
      ∧ (∀ o ∈ [a, b], o.applies target = true → o.generate target "<x>" = some (generated o))
      ∧ record ⟨[a, b]⟩ file target [.query "before"] = some (
          [⟨"a", "a_1", "<y>"⟩, ⟨"b", "b_1", "<z>"⟩],
          [.query "before", .noOp "a_2" "method 'x' #0 in C.java"]) := by
  intro file target generated a b
  have hspan : file.slice? 2 5 = some "<x>" := by decide
  have hgenerated : ∀ o ∈ [a, b], o.applies target = true →
      o.generate target "<x>" = some (generated o) := by
    simp [a, b, generated]
  refine ⟨hspan, hgenerated, ?_⟩
  rw [(record_exact (r := ⟨[a, b]⟩) (t := target) hspan hgenerated [.query "before"]).1]
  decide

end Candidate

end JavaMutants
