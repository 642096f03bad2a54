import JavaMutants.Mutant
import JavaMutants.Proofs.Candidate
import JavaMutants.Proofs.Text.Cut

/-!
# How the mutants of a file come together

The work on a file goes through its targets, and for each target through
its candidates, with the list of names that are taken carried along. This
module says what such a run amounts to: it ends well exactly if every
target yields its mutants, in order, and no name comes up twice
(`exists_ofTargetsFrom_ok_iff`). Everything that is said of the mutants of
a file is derived from there.
-/

namespace JavaMutants

/-- **A range that was cut out can be filled again**, whatever with. -/
theorem Mutant.exists_assemble? {file : SourceFile} {t : Target} {span : String}
    (h : file.slice? t.start t.stop = some span) (tag replacement : String) :
    ∃ m, assemble? file t tag replacement = some m := by
  obtain ⟨a, b, hfile, hstart, hstop⟩ := Text.slice?_eq_some_iff.1 h
  unfold assemble?
  rw [hfile, ← hstop, ← hstart, Text.splice?_append]
  exact ⟨_, rfl⟩

/-- **The mutants of one target**: one for each of its candidates, in the
same order. -/
def Yields (r : Registry) (file : SourceFile) (t : Target) (group : List Mutant) : Prop :=
  ∃ cs noOps, Candidate.ofTarget r file t = some (cs, noOps) ∧
    List.Forall₂ (fun c m => Mutant.assemble? file t c.tag c.replacement = some m) cs group

/-- The names of some mutants. -/
def names (ms : List Mutant) : List String := ms.map (·.name)

@[simp]
theorem names_cons (m : Mutant) (ms : List Mutant) : names (m :: ms) = m.name :: names ms := rfl

@[simp]
theorem names_append (ms ns : List Mutant) : names (ms ++ ns) = names ms ++ names ns :=
  List.map_append

/-- **Names are free** next to those that are taken: none of them comes up
twice, in either list. -/
def Free (taken : List String) (ms : List Mutant) : Prop :=
  (names ms).Nodup ∧ ∀ n ∈ names ms, n ∉ taken

theorem free_nil (taken : List String) : Free taken [] :=
  ⟨List.nodup_nil, fun _ h => absurd h List.not_mem_nil⟩

theorem free_cons_iff {taken : List String} {m : Mutant} {ms : List Mutant} :
    Free taken (m :: ms) ↔ m.name ∉ taken ∧ Free (m.name :: taken) ms := by
  unfold Free
  rw [names_cons, List.nodup_cons, List.forall_mem_cons]
  constructor
  · rintro ⟨⟨hm, hms⟩, hmt, hall⟩
    exact ⟨hmt, hms, fun n hn h => (List.mem_cons.1 h).elim (fun he => hm (he ▸ hn)) (hall n hn)⟩
  · rintro ⟨hmt, hms, hall⟩
    exact ⟨⟨fun h => hall _ h List.mem_cons_self, hms⟩, hmt,
      fun n hn h => hall n hn (List.mem_cons_of_mem _ h)⟩

theorem free_append_iff {taken : List String} {ms ns : List Mutant} :
    Free taken (ms ++ ns) ↔ Free taken ms ∧ Free ((names ms).reverse ++ taken) ns := by
  induction ms generalizing taken with
  | nil => exact (and_iff_right (free_nil taken)).symm
  | cons m ms ih => simp [free_cons_iff, ih, and_assoc]

deriving instance DecidableEq for FileMutants

namespace FileMutants

variable {r : Registry} {file : SourceFile}

/-- One target: its candidates are assembled exactly if their names are
free. -/
theorem assembleAll_eq_ok_iff {t : Target} {cs : List Candidate} {taken taken' : List String}
    {ms : List Mutant} :
    assembleAll file t taken cs = some (.ok (taken', ms))
      ↔ List.Forall₂ (fun c m => Mutant.assemble? file t c.tag c.replacement = some m) cs ms
        ∧ Free taken ms ∧ taken' = (names ms).reverse ++ taken := by
  induction cs generalizing taken taken' ms with
  | nil =>
    rw [assembleAll]
    constructor
    · intro h
      cases h
      exact ⟨.nil, free_nil taken, rfl⟩
    · rintro ⟨h, -, rfl⟩
      cases h
      rfl
  | cons c cs ih =>
    rw [assembleAll]
    cases hm : Mutant.assemble? file t c.tag c.replacement with
    | none =>
      simp only [Option.bind_none, Option.bind_eq_bind, reduceCtorEq, false_iff]
      rintro ⟨h, -⟩
      cases h with
      | cons hc _ => simp [hm] at hc
    | some m =>
      simp only [Option.bind_some, Option.bind_eq_bind]
      by_cases htaken : m.name ∈ taken
      · -- the first name is taken: no list of mutants is free
        have herr : m.enlist taken = .error (.collision m.origin m.name) := by
          simp [Mutant.enlist, htaken]
        simp only [herr, Option.some.injEq, reduceCtorEq, false_iff]
        rintro ⟨h, hfree, -⟩
        cases h with
        | cons hc _ =>
          obtain rfl := Option.some.inj (hm.symm.trans hc)
          exact (free_cons_iff.1 hfree).1 htaken
      · have hok : m.enlist taken = .ok (m.name :: taken) := by
          simp [Mutant.enlist, htaken]
        simp only [hok]
        constructor
        · intro h
          cases hrest : assembleAll file t (m.name :: taken) cs with
          | none => simp [hrest] at h
          | some result =>
            cases result with
            | error e => simp [hrest] at h
            | ok pair =>
              obtain ⟨taken₁, ms₁⟩ := pair
              simp only [hrest, Option.bind_some, Option.some.injEq, Except.ok.injEq,
                Prod.mk.injEq] at h
              obtain ⟨rfl, rfl⟩ := h
              obtain ⟨hall, hfree, rfl⟩ := ih.1 hrest
              exact ⟨.cons hm hall, free_cons_iff.2 ⟨htaken, hfree⟩, by simp⟩
        · rintro ⟨h, hfree, rfl⟩
          cases h with
          | @cons _ m' _ ms' hc hall =>
            obtain rfl := Option.some.inj (hm.symm.trans hc)
            rw [ih.2 ⟨hall, (free_cons_iff.1 hfree).2, rfl⟩]
            simp

/-- **What a run does with its first target**: it takes the candidates, and assembles them,
and goes on with the other targets if there was no clash. -/
theorem of_ofTargetsFrom_cons {t : Target} {targets : List Target} {taken : List String}
    {out : FileMutants} (h : ofTargetsFrom r file taken (t :: targets) = some out) :
    ∃ cs dropped, Candidate.ofTarget r file t = some (cs, dropped)
      ∧ ((∃ e, assembleAll file t taken cs = some (.error e) ∧ out = ⟨.error e, dropped⟩)
        ∨ ∃ taken' group next, assembleAll file t taken cs = some (.ok (taken', group))
          ∧ ofTargetsFrom r file taken' targets = some next
          ∧ out = ⟨next.result.map (group ++ ·), dropped ++ next.noOps⟩) := by
  rw [ofTargetsFrom] at h
  obtain ⟨⟨cs, dropped⟩, hcs, h⟩ := Option.bind_eq_some_iff.1 h
  refine ⟨cs, dropped, hcs, ?_⟩
  obtain ⟨result, hresult, h⟩ := Option.bind_eq_some_iff.1 h
  cases result with
  | error e => exact .inl ⟨e, hresult, (Option.some.inj h).symm⟩
  | ok pair =>
    obtain ⟨taken', group⟩ := pair
    obtain ⟨next, hnext, h⟩ := Option.bind_eq_some_iff.1 h
    exact .inr ⟨taken', group, next, hresult, hnext, (Option.some.inj h).symm⟩

/-- **A run over targets ends well exactly if every target yields its
mutants and their names are free.** -/
theorem exists_ofTargetsFrom_ok_iff {taken : List String} {targets : List Target}
    {ms : List Mutant} :
    (∃ noOps, ofTargetsFrom r file taken targets = some ⟨.ok ms, noOps⟩)
      ↔ ∃ groups, List.Forall₂ (Yields r file) targets groups ∧ ms = groups.flatten
        ∧ Free taken ms := by
  induction targets generalizing taken ms with
  | nil =>
    simp only [ofTargetsFrom, Option.some.injEq, FileMutants.mk.injEq, Except.ok.injEq,
      List.forall₂_nil_left_iff]
    constructor
    · rintro ⟨_, rfl, -⟩
      exact ⟨[], rfl, rfl, free_nil taken⟩
    · rintro ⟨_, rfl, rfl, -⟩
      exact ⟨[], rfl, rfl⟩
  | cons t targets ih =>
    constructor
    · rintro ⟨noOps, h⟩
      obtain ⟨cs, dropped, hc, ⟨e, -, hout⟩ | ⟨taken', group, next, ha, hn, hout⟩⟩ :=
        of_ofTargetsFrom_cons h
      · cases hout
      · obtain ⟨result, rest⟩ := next
        cases result with
        | error e => cases hout
        | ok ms =>
          cases hout
          obtain ⟨hall, hfree, rfl⟩ := assembleAll_eq_ok_iff.1 ha
          obtain ⟨groups, hgroups, rfl, hrest⟩ := ih.1 ⟨rest, hn⟩
          exact ⟨group :: groups, .cons ⟨cs, dropped, hc, hall⟩ hgroups, rfl,
            free_append_iff.2 ⟨hfree, hrest⟩⟩
    · rintro ⟨groups, hgroups, rfl, hfree⟩
      cases hgroups with
      | @cons _ group _ groups hyields hgroups =>
        obtain ⟨cs, dropped, hc, hall⟩ := hyields
        obtain ⟨hfirst, hrest⟩ := free_append_iff.1 hfree
        obtain ⟨noOps, hn⟩ := ih.2 ⟨groups, hgroups, rfl, hrest⟩
        refine ⟨dropped ++ noOps, ?_⟩
        rw [ofTargetsFrom, hc]
        simp [assembleAll_eq_ok_iff.2 ⟨hall, hfirst, rfl⟩, hn, Except.map]

end FileMutants

end JavaMutants
