import JavaMutants.Proofs.FileSystem
import JavaMutants.Proofs.Mutant.Distinct
import JavaMutants.Proofs.Path.Order
import JavaMutants.Proofs.Run.Protocol
import JavaMutants.Run

/-!
# A run does not depend on its schedule

The operators of a configuration are built-in ones, and with these no two
mutants of a file are given the same name. So nothing halts a run, and it
comes to the same under every schedule: each file is processed, and the
outcomes are put in order (`Generator.runUnder_eq`). The work on a file
either is done or ends before it has begun, because the file cannot be
read or is not well-formed (`Generator.settled_process`).

The order tells any two inputs apart that differ as paths. Hence the order
in which such inputs are given does not matter either
(`FileOutcome.mergeSort_eq_of_perm`).
-/

namespace JavaMutants

open Std
open Target (locate)

/-! ## The order of outcomes -/

namespace FileOutcome

/-- Outcomes compare by their logical paths, and then by their inputs. -/
def order : FileOutcome → FileOutcome → Ordering :=
  compareLex (compareOn origin) (fun a b => a.input.compare b.input)

theorem notAfter_eq (a b : FileOutcome) : a.notAfter b = (order a b).isLE := rfl

instance : TransCmp order :=
  have h : TransCmp SourceInput.compare := inferInstance
  have : TransCmp fun (a b : FileOutcome) => a.input.compare b.input :=
    { eq_swap := h.eq_swap
      isLE_trans := h.isLE_trans }
  inferInstanceAs (TransCmp (compareLex _ _))

theorem notAfter_trans (a b c : FileOutcome) (hab : a.notAfter b = true)
    (hbc : b.notAfter c = true) : a.notAfter c = true := by
  rw [notAfter_eq] at hab hbc ⊢
  exact TransCmp.isLE_trans hab hbc

theorem notAfter_total (a b : FileOutcome) : (a.notAfter b || b.notAfter a) = true := by
  have hswap : order b a = (order a b).swap := OrientedCmp.eq_swap
  rw [notAfter_eq, notAfter_eq, hswap]
  cases order a b <;> rfl

/-- Outcomes that can stand in either order are of the same input, as far as
paths can tell. -/
theorem compare_eq_of_notAfter {a b : FileOutcome} (hab : a.notAfter b = true)
    (hba : b.notAfter a = true) : a.input.compare b.input = .eq := by
  rw [notAfter_eq] at hab hba
  have heq : order a b = .eq := OrientedCmp.isLE_antisymm hab hba
  exact (Ordering.then_eq_eq.1 heq).2

/-- Outcomes that are in order are so by their logical paths. -/
theorem isLE_compare_origin {a b : FileOutcome} (h : a.notAfter b = true) :
    (a.origin.compare b.origin).isLE = true :=
  (Ordering.isLE_then_iff_and.1 h).1

theorem pairwise_mergeSort (os : List FileOutcome) :
    (os.mergeSort notAfter).Pairwise fun a b => a.notAfter b = true :=
  List.pairwise_mergeSort notAfter_trans notAfter_total os

/-- **Sorting forgets the order in which outcomes come up**, if no two of
them are of the same input. -/
theorem mergeSort_eq_of_perm {os os' : List FileOutcome} (hperm : os'.Perm os)
    (hne : os.Pairwise fun a b => a.input.compare b.input ≠ .eq) :
    os'.mergeSort notAfter = os.mergeSort notAfter := by
  have hperm' : (os'.mergeSort notAfter).Perm (os.mergeSort notAfter) :=
    ((List.mergeSort_perm os' _).trans hperm).trans (List.mergeSort_perm os _).symm
  refine hperm'.eq_of_pairwise ?_ (pairwise_mergeSort os') (pairwise_mergeSort os)
  intro a b ha hb hab hba
  have hmem : a ∈ os ∧ b ∈ os :=
    ⟨hperm.mem_iff.1 (List.mem_mergeSort.1 ha), List.mem_mergeSort.1 hb⟩
  have : Std.Symm fun (a b : FileOutcome) => a.input.compare b.input ≠ .eq :=
    ⟨fun a b h h' => h (OrientedCmp.eq_comm.1 h')⟩
  by_contra hdiff
  exact hne.forall hmem.1 hmem.2 hdiff (compare_eq_of_notAfter hab hba)

end FileOutcome

/-! ## One file -/

/-- **How the work on a file can end** if no name clashes: it is done, or
the file could not be read or is not well-formed, and then there is
nothing to show for it. -/
def FileOutcome.Settled (o : FileOutcome) : Prop :=
  o.status = .done
    ∨ ∃ e, o.status = .failed e
      ∧ ((∃ path cause, e = .io path cause) ∨ ∃ path reason, e = .malformed path reason)
      ∧ o.targets = [] ∧ o.mutants = [] ∧ o.noOps = []

theorem FileOutcome.Settled.status_ne_collision {o : FileOutcome} (h : o.Settled)
    (origin : Path) (name : String) : o.status ≠ .failed (.collision origin name) := by
  intro hclash
  obtain hdone | ⟨e, he, ⟨_, _, rfl⟩ | ⟨_, _, rfl⟩, -⟩ := h
  · rw [hdone] at hclash
    cases hclash
  · rw [he] at hclash
    cases hclash
  · rw [he] at hclash
    cases hclash

theorem FileOutcome.Settled.status_ne_skipped {o : FileOutcome} (h : o.Settled) :
    o.status ≠ .skipped := by
  intro hskipped
  obtain hdone | ⟨e, he, -⟩ := h
  · rw [hdone] at hskipped
    cases hskipped
  · rw [he] at hskipped
    cases hskipped

theorem SourceFile.path_of_parse {path : Path} {text : String} {file : SourceFile}
    (h : parse path text = .ok file) : file.path = path := by
  unfold parse at h
  split at h
  · cases h
    rfl
  · cases h

/-- A file that is read has been parsed under its logical path. -/
theorem SourceFile.exists_parse_of_load {fs : FileSystem} {input : SourceInput}
    {file : SourceFile} (h : load fs input = .ok file) :
    ∃ text, parse input.logicalPath text = .ok file := by
  unfold load at h
  split at h
  · cases h
  split at h
  · cases h
  next text _ => exact ⟨text, h⟩

/-- A file that is not read cannot be read or is not well-formed. -/
theorem SourceFile.error_of_load {fs : FileSystem} {input : SourceInput} {e : Error}
    (h : load fs input = .error e) :
    (∃ path cause, e = .io path cause) ∨ ∃ path reason, e = .malformed path reason := by
  unfold load at h
  split at h
  · cases h
    exact .inl ⟨_, _, rfl⟩
  split at h
  · cases h
    exact .inr ⟨_, _, rfl⟩
  unfold parse at h
  split at h
  · cases h
  · cases h
    exact .inr ⟨_, _, rfl⟩

/-- Reading a file depends on its path and its bytes alone. -/
theorem SourceFile.load_congr {fs fs' : FileSystem} {input : SourceInput}
    (h : fs'.read input.path = fs.read input.path) : load fs' input = load fs input := by
  unfold load
  rw [h]

/-- The mutants of a file carry its logical path. -/
theorem FileMutants.origin_of_mem {r : Registry} {file : SourceFile} {targets : List Target}
    {ms : List Mutant} {noOps : List Error}
    (h : ofTargets r file targets = some ⟨.ok ms, noOps⟩) {m : Mutant} (hm : m ∈ ms) :
    m.origin = file.path := by
  obtain ⟨groups, hgroups, rfl, -⟩ := exists_ofTargetsFrom_ok_iff.1 ⟨noOps, h⟩
  obtain ⟨group, hgroup, hm⟩ := List.mem_flatten.1 hm
  obtain ⟨t, -, cs, -, -, hall⟩ := exists_mem_left hgroups hgroup
  obtain ⟨c, -, hc⟩ := exists_mem_left hall hm
  obtain ⟨text, -, rfl⟩ := Option.map_eq_some_iff.1 hc
  rfl

/-- **Inputs that differ as paths**: in their roots or in their paths,
whatever the spelling. -/
def SourceInput.Distinct (inputs : List SourceInput) : Prop :=
  inputs.Pairwise fun a b =>
    ¬ (a.root.components = b.root.components ∧ a.path.components = b.path.components)

namespace Generator

variable {config : Config} {g : Generator} {fs : FileSystem} {input : SourceInput}

theorem select_of_ofConfig (h : ofConfig config = .ok g) :
    Registry.builtin.select config.operators = .ok g.registry := by
  unfold ofConfig Config.registry at h
  cases hr : Registry.builtin.select config.operators with
  | error e => simp [hr, Except.map] at h
  | ok r =>
    rw [hr] at h
    cases h
    rfl

/-- What processing a file gives is about that file. -/
theorem input_process (g : Generator) (fs : FileSystem) (input : SourceInput) :
    (g.process fs input).input = input ∧ (g.process fs input).origin = input.logicalPath := by
  unfold process mutate
  split
  · dsimp only
    split <;> exact ⟨rfl, rfl⟩
  · exact ⟨rfl, rfl⟩

/-- **The mutants that processing a file gives** are those of its targets, if there are
any. -/
theorem mutants_process (g : Generator) (fs : FileSystem) (input : SourceInput) :
    (g.process fs input).mutants = [] ∨ ∃ file noOps, SourceFile.load fs input = .ok file
      ∧ FileMutants.ofTargets g.registry file (locate g.markers file)
        = some ⟨.ok (g.process fs input).mutants, noOps⟩ := by
  unfold process
  cases hload : SourceFile.load fs input with
  | error e => exact .inl rfl
  | ok file =>
    dsimp only
    unfold mutate
    dsimp only
    cases hmade : FileMutants.ofTargets g.registry file (locate g.markers file) with
    | none => exact .inl rfl
    | some made =>
      obtain ⟨result, noOps⟩ := made
      cases result with
      | error e => exact .inl rfl
      | ok ms => exact .inr ⟨file, noOps, rfl, hmade⟩

/-- **The work on a file that is read is done to the end.** -/
theorem exists_process_of_load (hg : ofConfig config = .ok g) {file : SourceFile}
    (hload : SourceFile.load fs input = .ok file) :
    ∃ ms noOps, g.process fs input
        = ⟨input, input.logicalPath, .done, locate g.markers file, ms, noOps⟩
      ∧ FileMutants.ofTargets g.registry file (locate g.markers file) = some ⟨.ok ms, noOps⟩ := by
  obtain ⟨text, hfile⟩ := SourceFile.exists_parse_of_load hload
  obtain ⟨ms, noOps, hms⟩ := FileMutants.exists_ofTargets_of_select
    (select_of_ofConfig hg) hfile g.markers
  refine ⟨ms, noOps, ?_, hms⟩
  unfold process
  rw [hload]
  dsimp only
  unfold mutate
  dsimp only
  rw [hms]
  rfl

/-- **How processing a file ends**: it is done, or the file cannot be read or
is not well-formed; and the mutants of the file carry its logical path. -/
theorem settled_process (hg : ofConfig config = .ok g) (fs : FileSystem) (input : SourceInput) :
    (g.process fs input).Settled
      ∧ ∀ m ∈ (g.process fs input).mutants, m.origin = input.logicalPath := by
  cases hload : SourceFile.load fs input with
  | error e =>
    unfold process
    rw [hload]
    exact ⟨.inr ⟨e, rfl, SourceFile.error_of_load hload, rfl, rfl, rfl⟩,
      fun m hm => absurd hm List.not_mem_nil⟩
  | ok file =>
    obtain ⟨text, hfile⟩ := SourceFile.exists_parse_of_load hload
    obtain ⟨ms, noOps, hprocess, hms⟩ := exists_process_of_load hg hload
    rw [hprocess]
    refine ⟨.inl rfl, fun m hm => ?_⟩
    rw [FileMutants.origin_of_mem hms hm, SourceFile.path_of_parse hfile]

/-- **What processing a file gives depends on its path and its bytes
alone.** -/
theorem process_congr {fs' : FileSystem} (g : Generator)
    (h : fs'.read input.path = fs.read input.path) : g.process fs' input = g.process fs input := by
  unfold process
  rw [SourceFile.load_congr h]

/-! ## All files -/

/-- **A run comes to the same under every schedule.** -/
theorem runUnder_eq (hg : ofConfig config = .ok g) (fs : FileSystem) {inputs : List SourceInput}
    {schedule : List Nat} (hschedule : ∀ i < inputs.length, 3 ≤ schedule.count i) :
    g.runUnder fs inputs schedule = ⟨(inputs.map (g.process fs)).mergeSort FileOutcome.notAfter⟩ := by
  unfold runUnder Outcome.ofPool
  rw [Pool.outcomes_run_of_not_heldBack (Pool.isFinished_follow hschedule)]
  exact Pool.not_heldBack (.inr fun input _ =>
    (settled_process hg fs input).1.status_ne_collision)

/-- The outcomes of inputs that differ as paths are of different inputs. -/
theorem pairwise_map_process (g : Generator) (fs : FileSystem) {inputs : List SourceInput}
    (h : SourceInput.Distinct inputs) :
    (inputs.map (g.process fs)).Pairwise fun a b => a.input.compare b.input ≠ .eq := by
  refine List.pairwise_map.2 (h.imp fun {a b} hab => ?_)
  rw [(input_process g fs a).1, (input_process g fs b).1]
  exact fun heq => hab (SourceInput.compare_eq_eq_iff.1 heq)

/-- Mutants of files that are in order are in order by logical paths. -/
theorem pairwise_origin_flatMap {files : List FileOutcome}
    (hsorted : files.Pairwise fun a b => a.notAfter b = true)
    (horigin : ∀ o ∈ files, ∀ m ∈ o.mutants, m.origin = o.origin) :
    (files.flatMap (·.mutants)).Pairwise fun m n => (m.origin.compare n.origin).isLE = true := by
  refine List.pairwise_flatMap.2 ⟨fun o ho => ?_, hsorted.imp_of_mem ?_⟩
  · refine List.pairwise_of_forall_mem_list fun m hm n hn => ?_
    rw [horigin o ho m hm, horigin o ho n hn, Path.compare_eq_eq_iff.2 rfl]
    rfl
  · intro a b ha hb hab m hm n hn
    rw [horigin a ha m hm, horigin b hb n hn]
    exact FileOutcome.isLE_compare_origin hab

/-- **A run does not depend on its schedule.** For every generator of a
configuration, every file system, all inputs and every schedule in which
each task has its three turns,

* the run gives one outcome for each input: what processing the file
  gives, in the order of logical paths and inputs;
* no file is skipped, and where one fails, it could not be read or is not
  well-formed, and there is nothing to show for it;
* what a file comes to depends on its root, its path and its bytes alone,
  so that overwriting another file does not change it;
* the same inputs in another order, under another schedule, come to the
  same, if they differ as paths;
* the mutants are in the order of logical paths, and those of one file
  stand together as the work on the file has put them. -/
theorem run_deterministic (hg : ofConfig config = .ok g) (fs : FileSystem)
    (inputs : List SourceInput) (schedule : List Nat)
    (hschedule : ∀ i < inputs.length, 3 ≤ schedule.count i) :
    g.runUnder fs inputs schedule = ⟨(inputs.map (g.process fs)).mergeSort FileOutcome.notAfter⟩
    ∧ (g.runUnder fs inputs schedule).files.Pairwise (fun a b => a.notAfter b = true)
    ∧ (∀ o ∈ (g.runUnder fs inputs schedule).files, o.Settled ∧ o.status ≠ .skipped)
    ∧ (∀ input fs', fs'.read input.path = fs.read input.path →
      g.process fs' input = g.process fs input)
    ∧ (∀ input location old new, fs.get? location = some (.file old) →
      (∀ content, fs.find true input.path (FileSystem.steps input.path)
        ≠ .ok (.occupied location (.file content))) →
      g.process (fs.set location (.file new)) input = g.process fs input)
    ∧ (∀ inputs' schedule', inputs'.Perm inputs → SourceInput.Distinct inputs →
      (∀ i < inputs'.length, 3 ≤ schedule'.count i) →
      g.runUnder fs inputs' schedule' = g.runUnder fs inputs schedule)
    ∧ (g.runUnder fs inputs schedule).mutants.Pairwise
      (fun m n => (m.origin.compare n.origin).isLE = true)
    ∧ ∀ input ∈ inputs,
      (g.process fs input).mutants <:+: (g.runUnder fs inputs schedule).mutants := by
  have hrun := runUnder_eq hg fs hschedule
  have hmem : ∀ {o}, o ∈ (g.runUnder fs inputs schedule).files ↔
      ∃ input ∈ inputs, g.process fs input = o := by
    intro o
    rw [hrun, List.mem_mergeSort, List.mem_map]
  have hsorted : (g.runUnder fs inputs schedule).files.Pairwise
      (fun a b => a.notAfter b = true) := by
    rw [hrun]
    exact FileOutcome.pairwise_mergeSort _
  refine ⟨hrun, hsorted, ?_, fun _ _ => process_congr g, ?_, ?_, ?_, ?_⟩
  · intro o ho
    obtain ⟨input, -, rfl⟩ := hmem.1 ho
    have hsettled := (settled_process hg fs input).1
    exact ⟨hsettled, hsettled.status_ne_skipped⟩
  · intro input location old new hold helse
    exact process_congr g (FileSystem.read_set hold new helse)
  · intro inputs' schedule' hperm hdistinct hschedule'
    rw [hrun, runUnder_eq hg fs hschedule', FileOutcome.mergeSort_eq_of_perm (hperm.map _)
      (pairwise_map_process g fs hdistinct)]
  · refine pairwise_origin_flatMap hsorted fun o ho m hm => ?_
    obtain ⟨input, -, rfl⟩ := hmem.1 ho
    rw [(settled_process hg fs input).2 m hm, (input_process g fs input).2]
  · intro input hinput
    unfold Outcome.mutants
    rw [List.flatMap_def]
    exact List.infix_of_mem_flatten (List.mem_map_of_mem (hmem.2 ⟨input, hinput, rfl⟩))

/-- Two files, one of them not well-formed, in a run that is to stop early:
it comes to the same in either order of the files and under two
schedules. -/
theorem run_deterministic_two :
    let a : SourceInput := ⟨⟨"src"⟩, ⟨"src/A.java"⟩⟩
    let b : SourceInput := ⟨⟨"src"⟩, ⟨"src/B.java"⟩⟩
    let fs : FileSystem := { entries := [(["src"], .directory),
      (["src", "A.java"], .file "class".toUTF8.toList),
      (["src", "B.java"], .file "@Mutate class B \x7b \x7d".toUTF8.toList)] }
    ∃ g, ofConfig { settings := { failFast := true } } = .ok g
      ∧ SourceInput.Distinct [a, b]
      ∧ g.runUnder fs [b, a] [0, 1, 0, 1, 0, 1] = g.runUnder fs [a, b] [0, 0, 0, 1, 1, 1]
      ∧ ∀ o ∈ (g.runUnder fs [a, b] [0, 0, 0, 1, 1, 1]).files, o.Settled ∧ o.status ≠ .skipped := by
  intro a b fs
  have hdistinct : SourceInput.Distinct [a, b] :=
    .cons (by decide) (List.pairwise_singleton _ b)
  have hg : ofConfig { settings := { failFast := true } } = .ok ⟨{}, .builtin, true⟩ := rfl
  obtain ⟨-, -, hsettled, -, -, hperm, -⟩ :=
    run_deterministic hg fs [a, b] [0, 0, 0, 1, 1, 1] (by decide)
  exact ⟨_, hg, hdistinct, hperm [b, a] _ (.swap a b []) hdistinct (by decide), hsettled⟩

end Generator

end JavaMutants
