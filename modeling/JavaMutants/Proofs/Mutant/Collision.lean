import JavaMutants.Proofs.Candidate.Sieve
import JavaMutants.Proofs.Mutant.Distinct
import JavaMutants.Run

/-!
# Where names clash

Targets that are found in a file never give two mutants the same name, but any list of
targets can be worked through, with targets in it that are repeated or made by hand. The
work then ends at the first candidate whose name is taken, and that is when the kind and
number of its target and its own tag are those of a candidate before it: nothing else goes
into a name (`FileMutants.collision_exact`).

The candidates of a target are all there before the first of them is assembled. So the
no-ops of the target at which the work ends are on record, those behind the clash among
them, and those of later targets are not. How the work can end is said once, in
`FileMutants.Ending`, and everything else is read off that.
-/

namespace JavaMutants

/-! ## What is emitted -/

namespace FileMutants

variable {r : Registry} {file : SourceFile}

/-- The candidates of a target, none if it does not even have none. -/
def candidatesOf (r : Registry) (file : SourceFile) (t : Target) : List Candidate :=
  ((Candidate.ofTarget r file t).map (·.1)).getD []

/-- The no-ops of a target. -/
def noOpsOf (r : Registry) (file : SourceFile) (t : Target) : List Error :=
  ((Candidate.ofTarget r file t).map (·.2)).getD []

/-- **What some targets emit**: each of them with each of its candidates, in order. -/
def emitted (r : Registry) (file : SourceFile) (targets : List Target) :
    List (Target × Candidate) :=
  targets.flatMap fun t => (candidatesOf r file t).map (t, ·)

/-- **What the name of a mutant is made of**, next to that of its file. -/
def key (e : Target × Candidate) : TargetKind × Nat × String := (e.1.kind, e.1.ordinal, e.2.tag)

/-- The name that goes with a key. -/
def nameOfKey (file : SourceFile) (k : TargetKind × Nat × String) : String :=
  Mutant.nameOf file.simpleName k.1 k.2.1 k.2.2

theorem nameOfKey_injective (file : SourceFile) : (nameOfKey file).Injective := by
  intro k k' h
  obtain ⟨hkind, hordinal, htag⟩ := Mutant.nameOf_inj h
  exact Prod.ext hkind (Prod.ext hordinal htag)

/-- A mutant is assembled of a target and a candidate. -/
def Assembled (file : SourceFile) (e : Target × Candidate) (m : Mutant) : Prop :=
  Mutant.assemble? file e.1 e.2.tag e.2.replacement = some m

/-- What is assembled is called by its key. -/
theorem Assembled.name_eq {e : Target × Candidate} {m : Mutant} (h : Assembled file e m) :
    m.origin = file.path ∧ m.name = nameOfKey file (key e) := by
  obtain ⟨text, -, rfl⟩ := Option.map_eq_some_iff.1 h
  exact ⟨rfl, rfl⟩

theorem names_eq_of_assembled {es : List (Target × Candidate)} {ms : List Mutant}
    (h : List.Forall₂ (Assembled file) es ms) : names ms = (es.map key).map (nameOfKey file) := by
  rw [List.map_map]
  exact (map_eq_map_of_forall₂ (h.imp fun _ _ hm => hm.name_eq.2.symm)).symm

/-- **Names are free exactly if no key stands twice.** -/
theorem free_iff_of_assembled {es : List (Target × Candidate)} {ms : List Mutant}
    (h : List.Forall₂ (Assembled file) es ms) : Free [] ms ↔ (es.map key).Nodup := by
  unfold Free
  rw [names_eq_of_assembled h, List.nodup_map_iff (nameOfKey_injective file)]
  exact and_iff_left fun _ _ => List.not_mem_nil

@[simp]
theorem emitted_cons (t : Target) (targets : List Target) :
    emitted r file (t :: targets)
      = (candidatesOf r file t).map (t, ·) ++ emitted r file targets := rfl

@[simp]
theorem emitted_append (targets targets' : List Target) :
    emitted r file (targets ++ targets') = emitted r file targets ++ emitted r file targets' :=
  List.flatMap_append

/-! ## How the work ends -/

/-- **The assembly of a target's candidates ends in an error** at the first one whose name
is taken. -/
theorem exists_of_assembleAll_eq_error {t : Target} {cs : List Candidate} {taken : List String}
    {e : Error} (h : assembleAll file t taken cs = some (.error e)) :
    ∃ front c back ms m, cs = front ++ c :: back
      ∧ List.Forall₂ (Assembled file) (front.map (t, ·)) ms ∧ Free taken ms
      ∧ Assembled file (t, c) m ∧ m.name ∈ (names ms).reverse ++ taken
      ∧ e = .collision m.origin m.name := by
  induction cs generalizing taken with
  | nil => cases h
  | cons c cs ih =>
    rw [assembleAll] at h
    obtain ⟨m, hm, h⟩ := Option.bind_eq_some_iff.1 h
    by_cases htaken : m.name ∈ taken
    · have herr : m.enlist taken = .error (.collision m.origin m.name) := by
        simp [Mutant.enlist, htaken]
      rw [herr] at h
      cases h
      exact ⟨[], c, cs, [], m, rfl, .nil, free_nil taken, hm, htaken, rfl⟩
    · have hok : m.enlist taken = .ok (m.name :: taken) := by
        simp [Mutant.enlist, htaken]
      rw [hok] at h
      obtain ⟨result, hresult, h⟩ := Option.bind_eq_some_iff.1 h
      cases result with
      | ok pair => cases h
      | error e' =>
        cases h
        obtain ⟨front, c', back, ms, m', rfl, hall, hfree, hm', hmem, rfl⟩ := ih hresult
        refine ⟨c :: front, c', back, m :: ms, m', rfl, .cons hm hall,
          free_cons_iff.2 ⟨htaken, hfree⟩, hm', ?_, rfl⟩
        simpa using hmem

/-- **How the work on some targets ends**, given the names that are taken: done, with all
that they emit, or at the first name that is taken. -/
inductive Ending (r : Registry) (file : SourceFile) (taken : List String)
    (targets : List Target) : FileMutants → Prop
  /-- All that is emitted is assembled. -/
  | done {ms : List Mutant} (hall : List.Forall₂ (Assembled file) (emitted r file targets) ms)
      (hfree : Free taken ms) :
      Ending r file taken targets ⟨.ok ms, targets.flatMap (noOpsOf r file)⟩
  /-- What comes before a candidate is assembled, and its own name is taken. -/
  | clash {before after : List Target} {t : Target} {front back : List Candidate} {c : Candidate}
      {ms : List Mutant} {m : Mutant} (htargets : targets = before ++ t :: after)
      (hcs : candidatesOf r file t = front ++ c :: back)
      (hall : List.Forall₂ (Assembled file) (emitted r file before ++ front.map (t, ·)) ms)
      (hfree : Free taken ms) (hm : Assembled file (t, c) m)
      (hmem : m.name ∈ (names ms).reverse ++ taken) :
      Ending r file taken targets
        ⟨.error (.collision m.origin m.name), (before ++ [t]).flatMap (noOpsOf r file)⟩

/-- A target whose candidates are assembled comes before what is done with the others. -/
theorem Ending.cons {t : Target} {targets : List Target} {taken : List String}
    {group : List Mutant} {next : FileMutants}
    (hall : List.Forall₂ (Assembled file) ((candidatesOf r file t).map (t, ·)) group)
    (hfree : Free taken group) (h : Ending r file ((names group).reverse ++ taken) targets next) :
    Ending r file taken (t :: targets)
      ⟨next.result.map (group ++ ·), noOpsOf r file t ++ next.noOps⟩ := by
  cases h with
  | done hms hrest =>
    exact .done (List.rel_append hall hms) (free_append_iff.2 ⟨hfree, hrest⟩)
  | @clash before after t' front back c ms m htargets hcs hms hrest hm hmem =>
    have hms' : List.Forall₂ (Assembled file)
        (emitted r file (t :: before) ++ front.map (t', ·)) (group ++ ms) := by
      rw [emitted_cons, List.append_assoc]
      exact List.rel_append hall hms
    have hmem' : m.name ∈ (names (group ++ ms)).reverse ++ taken := by
      rw [names_append, List.reverse_append, List.append_assoc]
      exact hmem
    exact .clash (by rw [htargets, List.cons_append]) hcs hms'
      (free_append_iff.2 ⟨hfree, hrest⟩) hm hmem'

/-- **The work on some targets ends in one of these two ways.** -/
theorem ending_of_ofTargetsFrom {targets : List Target} {taken : List String} {out : FileMutants}
    (h : ofTargetsFrom r file taken targets = some out) : Ending r file taken targets out := by
  induction targets generalizing taken out with
  | nil =>
    cases h
    exact .done .nil (free_nil taken)
  | cons t targets ih =>
    obtain ⟨cs, dropped, hcs, hend⟩ := of_ofTargetsFrom_cons h
    have hcandidates : candidatesOf r file t = cs := by rw [candidatesOf, hcs]; rfl
    have hdropped : noOpsOf r file t = dropped := by rw [noOpsOf, hcs]; rfl
    obtain ⟨e, he, rfl⟩ | ⟨taken', group, next, hgroup, hnext, rfl⟩ := hend
    · obtain ⟨front, c, back, ms, m, rfl, hall, hfree, hm, hmem, rfl⟩ :=
        exists_of_assembleAll_eq_error he
      have hnoOps : dropped = ([] ++ [t]).flatMap (noOpsOf r file) := by
        rw [← hdropped, List.nil_append, List.flatMap_singleton]
      rw [hnoOps]
      exact .clash rfl hcandidates hall hfree hm hmem
    · obtain ⟨hall, hfree, rfl⟩ := assembleAll_eq_ok_iff.1 hgroup
      rw [← hdropped]
      refine .cons ?_ hfree (ih hnext)
      rw [hcandidates]
      exact List.forall₂_map_left_iff.2 hall

/-- **With a record of no-ops** the work comes to the same, and its own are put behind
those that are on record. -/
theorem recordFrom_eq (taken : List String) (recorded : List Error) (targets : List Target) :
    recordFrom r file taken recorded targets
      = (ofTargetsFrom r file taken targets).map fun out => ⟨out.result, recorded ++ out.noOps⟩ := by
  induction targets generalizing taken recorded with
  | nil => simp [recordFrom, ofTargetsFrom]
  | cons t targets ih =>
    rw [recordFrom, ofTargetsFrom, Candidate.record_eq]
    cases Candidate.ofTarget r file t with
    | none => rfl
    | some found =>
      obtain ⟨cs, dropped⟩ := found
      simp only [Option.map_some, Option.bind_eq_bind, Option.bind_some]
      cases assembleAll file t taken cs with
      | none => rfl
      | some result =>
        cases result with
        | error e => rfl
        | ok pair =>
          obtain ⟨taken', group⟩ := pair
          simp only [Option.bind_some, ih]
          cases ofTargetsFrom r file taken' targets with
          | none => rfl
          | some next => simp [List.append_assoc]

/-! ## The work ends at all -/

/-- What cuts the file can be assembled, up to a clash. -/
theorem exists_assembleAll {t : Target} {span : String}
    (hspan : file.slice? t.start t.stop = some span) (taken : List String) (cs : List Candidate) :
    ∃ result, assembleAll file t taken cs = some result := by
  induction cs generalizing taken with
  | nil => exact ⟨_, rfl⟩
  | cons c cs ih =>
    obtain ⟨m, hm⟩ := Mutant.exists_assemble? hspan c.tag c.replacement
    rw [assembleAll, hm]
    cases henlist : m.enlist taken with
    | error e => exact ⟨.error e, by simp [henlist]⟩
    | ok taken' =>
      obtain ⟨result, hresult⟩ := ih taken'
      cases result with
      | error e => exact ⟨.error e, by simp [henlist, hresult]⟩
      | ok pair => exact ⟨.ok (pair.1, m :: pair.2), by simp [henlist, hresult]⟩

/-- **The work on targets that have candidates comes to an end**, possibly in a clash. -/
theorem exists_ofTargetsFrom {targets : List Target}
    (h : ∀ t ∈ targets, ∃ found, Candidate.ofTarget r file t = some found) (taken : List String) :
    ∃ out, ofTargetsFrom r file taken targets = some out := by
  induction targets generalizing taken with
  | nil => exact ⟨_, rfl⟩
  | cons t targets ih =>
    obtain ⟨⟨cs, dropped⟩, hcs⟩ := h t List.mem_cons_self
    obtain ⟨span, vs, hspan, -⟩ := Candidate.exists_variants_of_ofTarget hcs
    obtain ⟨result, hresult⟩ := exists_assembleAll hspan taken cs
    rw [ofTargetsFrom, hcs]
    simp only [Option.bind_eq_bind, Option.bind_some, hresult]
    cases result with
    | error e => exact ⟨_, rfl⟩
    | ok pair =>
      obtain ⟨next, hnext⟩ := ih (fun u hu => h u (List.mem_cons_of_mem t hu)) pair.1
      simp only [hnext, Option.bind_some]
      exact ⟨_, rfl⟩

end FileMutants

/-! ## A file that fails -/

/-- **Nothing is kept of a file that fails**, however it does. -/
theorem Generator.mutants_eq_nil_of_isFailed {g : Generator} {fs : FileSystem}
    {input : SourceInput} (h : (g.process fs input).isFailed = true) :
    (g.process fs input).mutants = [] := by
  unfold process at h ⊢
  split
  next file hload =>
    rw [hload] at h
    dsimp only at h ⊢
    unfold mutate at h ⊢
    dsimp only at h ⊢
    split
    next ms hms =>
      rw [hms] at h
      cases h
    next => rfl
  next => rfl

namespace FileMutants

/-- **Where names clash.** Work through any targets of a file, with any operators and with
some no-ops on record. If the targets cut the file and no operator gives up, the work comes
to an end. It ends in a clash of names exactly if two of the candidates have the same tag
and their targets the same kind and number. The name that is reported is then that of the
first candidate for which there is such a one before it. The record still holds what was on
it, and behind that the no-ops of all targets up to the one of this candidate, in order, and
of no others. If there is no clash, the record has got the no-ops of all targets, and the
mutants are called by what was emitted. And of a file that fails no mutant is kept. -/
theorem collision_exact (r : Registry) (file : SourceFile) (targets : List Target)
    (recorded : List Error) :
    ((∀ t ∈ targets, t.start ≤ t.stop ∧ Text.IsCut file.text.toList t.start
        ∧ Text.IsCut file.text.toList t.stop) →
      (∀ o ∈ r.operators, o ∈ Registry.builtin.operators ∨ o.IsTotal) →
        ∃ out, record r file targets recorded = some out)
      ∧ (∀ out, record r file targets recorded = some out →
        ((∃ origin name, out.result = .error (.collision origin name))
          ↔ ¬ ((emitted r file targets).map key).Nodup)
        ∧ (∀ e, out.result = .error e → ∃ before t after front c back,
          targets = before ++ t :: after ∧ candidatesOf r file t = front ++ c :: back
            ∧ ((emitted r file before ++ front.map (t, ·)).map key).Nodup
            ∧ key (t, c) ∈ (emitted r file before ++ front.map (t, ·)).map key
            ∧ e = .collision file.path (Mutant.nameOf file.simpleName t.kind t.ordinal c.tag)
            ∧ out.noOps = recorded ++ (before ++ [t]).flatMap (noOpsOf r file))
        ∧ (∀ ms, out.result = .ok ms →
          names ms = (emitted r file targets).map (fun e =>
              Mutant.nameOf file.simpleName e.1.kind e.1.ordinal e.2.tag)
            ∧ out.noOps = recorded ++ targets.flatMap (noOpsOf r file)))
      ∧ ∀ (g : Generator) (fs : FileSystem) (input : SourceInput),
        (g.process fs input).isFailed = true → (g.process fs input).mutants = [] := by
  refine ⟨fun hcuts htotal => ?_, fun out hout => ?_,
    fun g fs input => Generator.mutants_eq_nil_of_isFailed⟩
  · have hfound : ∀ t ∈ targets, ∃ found, Candidate.ofTarget r file t = some found := by
      intro t ht
      obtain ⟨hle, hstart, hstop⟩ := hcuts t ht
      obtain ⟨span, hspan⟩ := Text.exists_slice? hle hstart hstop
      obtain ⟨cs, dropped, hcs⟩ := Candidate.exists_ofTarget hspan fun o ho =>
        (htotal o ho).elim (fun hb => Registry.isTotal_of_mem_builtin hb t span) fun h => h t span
      exact ⟨_, hcs⟩
    obtain ⟨out, hout⟩ := exists_ofTargetsFrom hfound []
    exact ⟨_, by rw [record, recordFrom_eq, hout]; rfl⟩
  · rw [record, recordFrom_eq] at hout
    obtain ⟨out', hout', rfl⟩ := Option.map_eq_some_iff.1 hout
    cases ending_of_ofTargetsFrom hout' with
    | done hall hfree =>
      have hnodup := (free_iff_of_assembled hall).1 hfree
      refine ⟨⟨nofun, fun h => absurd hnodup h⟩, nofun, fun ms hms => ?_⟩
      cases hms
      exact ⟨(names_eq_of_assembled hall).trans List.map_map, rfl⟩
    | @clash before after t front back c ms m htargets hcs hall hfree hm hmem =>
      have hnodup := (free_iff_of_assembled hall).1 hfree
      have hkey : key (t, c) ∈ (emitted r file before ++ front.map (t, ·)).map key := by
        rw [List.append_nil, List.mem_reverse, names_eq_of_assembled hall, hm.name_eq.2] at hmem
        exact (List.mem_map_of_injective (nameOfKey_injective file)).1 hmem
      refine ⟨⟨fun _ h => ?_, fun _ => ⟨_, _, rfl⟩⟩, fun e he => ?_, nofun⟩
      · -- the key of the candidate stands behind one that is the same
        have hsplit : emitted r file targets
            = (emitted r file before ++ front.map (t, ·))
              ++ (t, c) :: (back.map (t, ·) ++ emitted r file after) := by
          simp [htargets, hcs]
        rw [hsplit, List.map_append, List.map_cons] at h
        exact (List.nodup_append.1 h).2.2 _ hkey _ List.mem_cons_self rfl
      · cases he
        refine ⟨before, t, after, front, c, back, htargets, hcs, hnodup, hkey, ?_, rfl⟩
        rw [hm.name_eq.1, hm.name_eq.2]
        rfl

/-- A constructor, a method, the method once more with another range, and a target behind
those: the work ends at the third one, after it has put its no-op on record. -/
theorem collision_exact_repeated :
    let file : SourceFile := ⟨⟨"Ü.java"⟩, "ä<x>ö", .leaf (.named .program) ⟨0, 7⟩⟩
    let r : Registry := ⟨[⟨"o", "", fun _ => true, fun _ s => some [s ++ "1", s, s ++ "2"]⟩]⟩
    let targets : List Target := [⟨.constructor, "a", 2, 5, 0, true, false⟩,
      ⟨.method, "b", 2, 5, 0, true, false⟩, ⟨.method, "c", 0, 7, 0, true, false⟩,
      ⟨.method, "d", 0, 2, 1, true, false⟩]
    (∀ t ∈ targets, t.start ≤ t.stop ∧ Text.IsCut file.text.toList t.start
        ∧ Text.IsCut file.text.toList t.stop)
      ∧ (∀ o ∈ r.operators, o ∈ Registry.builtin.operators ∨ o.IsTotal)
      ∧ ∃ out, record r file targets [.query "before"] = some out
        ∧ out.result = .error (.collision ⟨"Ü.java"⟩ "Ü_method0_o_0")
        ∧ out.noOps = [.query "before", .noOp "o_1" "constructor 'a' #0 in Ü.java",
          .noOp "o_1" "method 'b' #0 in Ü.java", .noOp "o_1" "method 'c' #0 in Ü.java"]
        ∧ ¬ ((emitted r file targets).map key).Nodup := by
  intro file r targets
  have hslices : ∀ t ∈ targets, t.start ≤ t.stop
      ∧ (Text.slice? file.text t.start t.stop).isSome = true := by decide
  have hcuts : ∀ t ∈ targets, t.start ≤ t.stop ∧ Text.IsCut file.text.toList t.start
      ∧ Text.IsCut file.text.toList t.stop := by
    intro t ht
    obtain ⟨span, hspan⟩ := Option.isSome_iff_exists.1 (hslices t ht).2
    exact ⟨(hslices t ht).1, Text.isCut_of_slice? hspan⟩
  have htotal : ∀ o ∈ r.operators, o ∈ Registry.builtin.operators ∨ o.IsTotal := by
    intro o ho
    obtain rfl := List.mem_singleton.1 ho
    exact .inr fun _ _ => ⟨_, rfl⟩
  obtain ⟨hends, hall, -⟩ := collision_exact r file targets [.query "before"]
  obtain ⟨out, hout⟩ := hends hcuts htotal
  have hrun : (record r file targets [.query "before"]).map (fun out => (out.result, out.noOps))
      = some (.error (.collision ⟨"Ü.java"⟩ "Ü_method0_o_0"),
        [.query "before", .noOp "o_1" "constructor 'a' #0 in Ü.java",
          .noOp "o_1" "method 'b' #0 in Ü.java", .noOp "o_1" "method 'c' #0 in Ü.java"]) := by
    decide
  rw [hout] at hrun
  obtain ⟨hresult, hnoOps⟩ := Prod.mk.inj (Option.some.inj hrun)
  exact ⟨hcuts, htotal, out, hout, hresult, hnoOps, (hall out hout).1.1 ⟨_, _, hresult⟩⟩

end FileMutants

end JavaMutants
