import JavaMutants.Run.Pool
import Mathlib.Data.List.Basic

/-!
# Halting a run early

The work on each file is a task of three steps, and a schedule mixes the
steps of the tasks in any order. A task looks at the flag of the run once,
in its first turn; what it comes to is settled there. If the flag is up,
the file is skipped, and else it is processed, whatever the others do
meanwhile (`getElem?_follow_waiting`).

The flag is up exactly if the run is to stop early and some task has ended
in a clash of names (`truthful_follow`). So a file is skipped exactly if such a
task had ended before the file's first turn (`fail_fast_protocol`).
-/

namespace JavaMutants

namespace Pool

variable {process : SourceInput → FileOutcome} {failFast : Bool} {pool : Pool}
  {input : SourceInput} {i : Nat}

/-! ## One step -/

/-- A task looks at the flag and leaves it as it is. -/
theorem advance_waiting (halted : Bool) :
    advance process failFast halted input .waiting
      = (halted, if halted then .finished (.ofSkipped input) else .cleared) := by
  cases halted <;> rfl

/-- A step leaves the tasks of others as they are. -/
theorem getElem?_step_of_ne {turn : Nat} (h : turn ≠ i) :
    (step process failFast pool turn).tasks[i]? = pool.tasks[i]? := by
  unfold step
  split
  next => exact List.getElem?_set_ne h
  next => rfl

variable (process failFast) in
/-- A step takes the task whose turn it is one step on. -/
theorem getElem?_step_self {task : Task} (h : pool.tasks[i]? = some (input, task)) :
    (step process failFast pool i).tasks[i]?
        = some (input, (advance process failFast pool.halted input task).2)
      ∧ (step process failFast pool i).halted
        = (advance process failFast pool.halted input task).1 := by
  obtain ⟨hlt, -⟩ := List.getElem?_eq_some_iff.1 h
  unfold step
  rw [h]
  exact ⟨List.getElem?_set_self hlt, rfl⟩

/-- A turn that belongs to no task changes nothing. -/
theorem step_of_none {turn : Nat} (h : pool.tasks[turn]? = none) :
    step process failFast pool turn = pool := by
  unfold step
  rw [h]

theorem map_fst_step (turn : Nat) :
    (step process failFast pool turn).tasks.map Prod.fst = pool.tasks.map Prod.fst := by
  unfold step
  split
  next input task h =>
    have hfst : (pool.tasks.map Prod.fst)[turn]? = some input := by
      rw [List.getElem?_map, h]
      rfl
    obtain ⟨hlt, hget⟩ := List.getElem?_eq_some_iff.1 hfst
    rw [List.map_set, ← hget, List.set_getElem_self]
  next => rfl

/-! ## One task in a run -/

theorem follow_cons (turn : Nat) (schedule : List Nat) :
    pool.follow process failFast (turn :: schedule)
      = (step process failFast pool turn).follow process failFast schedule := rfl

theorem follow_append (before after : List Nat) :
    pool.follow process failFast (before ++ after)
      = (pool.follow process failFast before).follow process failFast after :=
  List.foldl_append

/-- A run has the files it was started with. -/
theorem map_fst_follow (schedule : List Nat) :
    (pool.follow process failFast schedule).tasks.map Prod.fst = pool.tasks.map Prod.fst := by
  induction schedule generalizing pool with
  | nil => rfl
  | cons turn schedule ih => rw [follow_cons, ih, map_fst_step]

/-- A task stays as it is until its next turn. -/
theorem getElem?_follow_of_notMem {schedule : List Nat} (h : i ∉ schedule) :
    (pool.follow process failFast schedule).tasks[i]? = pool.tasks[i]? := by
  induction schedule generalizing pool with
  | nil => rfl
  | cons turn schedule ih =>
    rw [follow_cons, ih (fun hi => h (List.mem_cons_of_mem turn hi)),
      getElem?_step_of_ne (List.ne_of_not_mem_cons h).symm]

/-- What has been done stays done. -/
theorem getElem?_follow_finished {o : FileOutcome}
    (h : pool.tasks[i]? = some (input, .finished o)) (schedule : List Nat) :
    (pool.follow process failFast schedule).tasks[i]? = some (input, .finished o) := by
  induction schedule generalizing pool with
  | nil => exact h
  | cons turn schedule ih =>
    rw [follow_cons]
    refine ih ?_
    by_cases hi : turn = i
    · subst hi
      exact (getElem?_step_self process failFast h).1
    · rw [getElem?_step_of_ne hi, h]

/-- How far a task has come some turns after it was cleared. -/
def onward (process : SourceInput → FileOutcome) (input : SourceInput) : Nat → Task
  | 0 => .cleared
  | 1 => .processed (process input)
  | _ + 2 => .finished (process input)

variable (failFast) in
/-- **A task that was cleared processes its file**, whatever happens
between its turns. -/
theorem getElem?_follow_onward {turns : Nat}
    (h : pool.tasks[i]? = some (input, onward process input turns)) (schedule : List Nat) :
    (pool.follow process failFast schedule).tasks[i]?
      = some (input, onward process input (turns + schedule.count i)) := by
  induction schedule generalizing pool turns with
  | nil => exact h
  | cons turn schedule ih =>
    rw [follow_cons]
    by_cases hi : turn = i
    · subst hi
      rw [List.count_cons_self, Nat.add_comm _ 1, ← Nat.add_assoc]
      refine ih ((getElem?_step_self process failFast h).1.trans ?_)
      match turns with
      | 0 => rfl
      | 1 => rfl
      | _ + 2 => rfl
    · rw [List.count_cons_of_ne hi]
      exact ih (by rw [getElem?_step_of_ne hi, h])

/-- **What a task comes to is settled in its first turn**: it ends there
if it finds the flag up, and goes on to its end otherwise. -/
theorem getElem?_follow_waiting (h : pool.tasks[i]? = some (input, .waiting))
    (schedule : List Nat) :
    (pool.follow process failFast (i :: schedule)).tasks[i]?
      = some (input, if pool.halted then .finished (.ofSkipped input)
          else onward process input (schedule.count i)) := by
  have hstep := (getElem?_step_self process failFast h).1
  rw [follow_cons]
  cases hhalted : pool.halted with
  | true =>
    rw [hhalted] at hstep
    exact getElem?_follow_finished hstep schedule
  | false =>
    rw [hhalted] at hstep
    have hcleared : (step process failFast pool i).tasks[i]?
        = some (input, onward process input 0) := hstep
    rw [getElem?_follow_onward failFast hcleared, Nat.zero_add]
    rfl

/-! ## The flag -/

/-- Some task has ended in what halts a run. -/
def HasHalting (process : SourceInput → FileOutcome) (pool : Pool) : Prop :=
  ∃ (j : Nat) (input : SourceInput), pool.tasks[j]? = some (input, Task.finished (process input))
    ∧ (process input).haltsRun = true

/-- **The flag tells the truth**: it is up exactly if the run is to stop
early and a task has ended in what halts it; and what a task is about to
hand in is what processing its file gave. -/
structure Truthful (process : SourceInput → FileOutcome) (failFast : Bool) (pool : Pool) :
    Prop where
  /-- The flag. -/
  flag : pool.halted = true ↔ failFast = true ∧ pool.HasHalting process
  /-- What is about to be handed in. -/
  processed : ∀ (j : Nat) (input : SourceInput) (o : FileOutcome),
    pool.tasks[j]? = some (input, Task.processed o) → o = process input

/-- Where a task does not end in what halts a run, others are to blame
before and after. -/
theorem hasHalting_step_iff {task : Task} (h : pool.tasks[i]? = some (input, task))
    (hold : ∀ o, task = .finished o → (advance process failFast pool.halted input task).2 = task)
    (hnew : ∀ o, (advance process failFast pool.halted input task).2 = .finished o →
      task = .finished o ∨ o.haltsRun = false) :
    (step process failFast pool i).HasHalting process ↔ pool.HasHalting process := by
  have hself := (getElem?_step_self process failFast h).1
  constructor
  · rintro ⟨j, input', hj, hhalts⟩
    by_cases hij : i = j
    · subst hij
      obtain ⟨rfl, htask⟩ := Prod.mk.inj (Option.some.inj (hself.symm.trans hj))
      rcases hnew _ htask with rfl | hsound
      · exact ⟨i, input, h, hhalts⟩
      · rw [hsound] at hhalts
        cases hhalts
    · rw [getElem?_step_of_ne hij] at hj
      exact ⟨j, input', hj, hhalts⟩
  · rintro ⟨j, input', hj, hhalts⟩
    by_cases hij : i = j
    · subst hij
      obtain ⟨rfl, rfl⟩ := Prod.mk.inj (Option.some.inj (h.symm.trans hj))
      exact ⟨i, input, by rw [hself, hold _ rfl], hhalts⟩
    · exact ⟨j, input', by rw [getElem?_step_of_ne hij, hj], hhalts⟩

/-- **A step keeps the flag true to the tasks.** -/
theorem Truthful.step (h : Truthful process failFast pool) (turn : Nat) :
    Truthful process failFast (step process failFast pool turn) := by
  cases hturn : pool.tasks[turn]? with
  | none =>
    rw [step_of_none hturn]
    exact h
  | some entry =>
    obtain ⟨input, task⟩ := entry
    obtain ⟨htask, hhalted⟩ :=
      getElem?_step_self process failFast hturn
    constructor
    · rw [hhalted]
      cases task with
      | waiting =>
        rw [hasHalting_step_iff hturn nofun]
        · rw [advance_waiting]
          exact h.flag
        · rw [advance_waiting]
          intro o ho
          dsimp only at ho
          split at ho
          · cases ho
            exact .inr rfl
          · cases ho
      | cleared =>
        rw [hasHalting_step_iff hturn nofun nofun]
        exact h.flag
      | processed o =>
        obtain rfl := h.processed turn input o hturn
        cases hhalts : (process input).haltsRun with
        | false =>
          rw [hasHalting_step_iff hturn nofun]
          · rw [← h.flag]
            simp [advance, hhalts]
          · intro o ho
            cases ho
            exact .inr hhalts
        | true =>
          -- the task ends in what halts the run, and puts the flag up if that is asked for
          have hnow : (Pool.step process failFast pool turn).HasHalting process :=
            ⟨turn, input, htask, hhalts⟩
          simp only [advance, hhalts, Bool.and_true, Bool.or_eq_true, h.flag, hnow, and_true]
          exact ⟨fun hor => hor.elim And.left id, .inr⟩
      | finished o =>
        rw [hasHalting_step_iff hturn (fun _ _ => rfl) fun _ ho => .inl ho]
        exact h.flag
    · intro j input' o hj
      by_cases hij : turn = j
      · subst hij
        obtain ⟨rfl, hadv⟩ := Prod.mk.inj (Option.some.inj (htask.symm.trans hj))
        cases task with
        | waiting =>
          rw [advance_waiting] at hadv
          dsimp only at hadv
          split at hadv <;> cases hadv
        | cleared =>
          cases hadv
          rfl
        | processed o => cases hadv
        | finished o => cases hadv
      · rw [getElem?_step_of_ne hij] at hj
        exact h.processed j input' o hj

theorem getElem?_start (inputs : List SourceInput) (i : Nat) :
    (start inputs).tasks[i]? = inputs[i]?.map fun input => (input, .waiting) :=
  List.getElem?_map

theorem truthful_start (inputs : List SourceInput) :
    Truthful process failFast (start inputs) := by
  have hwaiting : ∀ (j : Nat) (input : SourceInput) (task : Task),
      (start inputs).tasks[j]? = some (input, task) → task = .waiting := by
    intro j input task h
    rw [getElem?_start] at h
    obtain ⟨input', -, he⟩ := Option.map_eq_some_iff.1 h
    exact (Prod.mk.inj he).2.symm
  constructor
  · refine ⟨nofun, ?_⟩
    rintro ⟨-, j, input, hj, -⟩
    cases hwaiting j input _ hj
  · intro j input o hj
    cases hwaiting j input _ hj

/-- **The flag is true to the tasks in every run.** -/
theorem truthful_follow (inputs : List SourceInput) (schedule : List Nat) :
    Truthful process failFast ((start inputs).follow process failFast schedule) := by
  have hall : ∀ pool, Truthful process failFast pool →
      Truthful process failFast (pool.follow process failFast schedule) := by
    induction schedule with
    | nil => exact fun _ h => h
    | cons turn schedule ih => exact fun pool h => ih _ (h.step turn)
  exact hall _ (truthful_start inputs)

end Pool

/-! ## Whole runs -/

theorem Error.haltsRun_eq_true_iff {e : Error} :
    e.haltsRun = true ↔ ∃ origin name, e = .collision origin name := by
  cases e <;> simp [Error.haltsRun]

theorem FileOutcome.haltsRun_eq_true_iff {o : FileOutcome} :
    o.haltsRun = true ↔ ∃ origin name, o.status = .failed (.collision origin name) := by
  unfold haltsRun
  cases o.status with
  | failed e => simp [Error.haltsRun_eq_true_iff]
  | _ => simp

namespace Pool

/-- **A file is held back**: the run is to stop early, and when a schedule
has been followed up to the file's first turn, the work on another file
has ended in a clash of names. -/
def HeldBack (process : SourceInput → FileOutcome) (failFast : Bool) (inputs : List SourceInput)
    (before : List Nat) (i : Nat) : Prop :=
  failFast = true ∧ ∃ (j : Nat) (input : SourceInput), j ≠ i
    ∧ ((start inputs).follow process failFast before).tasks[j]?
      = some (input, Task.finished (process input))
    ∧ ∃ origin name, (process input).status = .failed (.collision origin name)

variable {process : SourceInput → FileOutcome} {failFast : Bool} {inputs : List SourceInput}
  {input : SourceInput} {i : Nat}

/-- A file finds the flag up exactly if it is held back. -/
theorem halted_iff_heldBack {before : List Nat}
    (h : ((start inputs).follow process failFast before).tasks[i]? = some (input, .waiting)) :
    ((start inputs).follow process failFast before).halted = true
      ↔ HeldBack process failFast inputs before i := by
  rw [(truthful_follow inputs before).flag]
  refine and_congr_right fun _ => exists_congr fun j => exists_congr fun input' => ?_
  rw [FileOutcome.haltsRun_eq_true_iff]
  refine ⟨fun ⟨hj, hstatus⟩ => ⟨?_, hj, hstatus⟩, fun ⟨_, hj, hstatus⟩ => ⟨hj, hstatus⟩⟩
  rintro rfl
  cases h.symm.trans hj

variable (process failFast) in
/-- **What one file comes to**: a file that is held back at its first turn
is skipped, and any other one goes on to its end. -/
theorem exists_first_turn {schedule : List Nat} (hi : inputs[i]? = some input)
    (hmem : i ∈ schedule) :
    ∃ before after task, schedule = before ++ i :: after ∧ i ∉ before
      ∧ ((start inputs).follow process failFast schedule).tasks[i]? = some (input, task)
      ∧ (HeldBack process failFast inputs before i ∧ task = .finished (.ofSkipped input)
        ∨ ¬ HeldBack process failFast inputs before i
          ∧ task = onward process input (after.count i)) := by
  obtain ⟨before, after, rfl, hbefore⟩ := List.eq_append_cons_of_mem hmem
  have hwait : ((start inputs).follow process failFast before).tasks[i]?
      = some (input, .waiting) := by
    rw [getElem?_follow_of_notMem hbefore, getElem?_start, hi]
    rfl
  refine ⟨before, after, if ((start inputs).follow process failFast before).halted
      then .finished (.ofSkipped input) else onward process input (after.count i),
    rfl, hbefore, ?_, ?_⟩
  · rw [follow_append]
    exact getElem?_follow_waiting hwait after
  · rw [← halted_iff_heldBack hwait]
    split
    next hhalted => exact .inl ⟨hhalted, rfl⟩
    next hhalted => exact .inr ⟨hhalted, rfl⟩

variable (process failFast) in
/-- A file whose task has three turns comes to its end. -/
theorem exists_finished_of_three_le_count {schedule : List Nat} (hi : inputs[i]? = some input)
    (hturns : 3 ≤ schedule.count i) :
    ∃ o, ((start inputs).follow process failFast schedule).tasks[i]?
      = some (input, .finished o) := by
  have hmem : i ∈ schedule := List.count_pos_iff.1 (by omega)
  obtain ⟨before, after, task, rfl, hbefore, htask, ⟨-, rfl⟩ | ⟨-, rfl⟩⟩ :=
    exists_first_turn process failFast hi hmem
  · exact ⟨_, htask⟩
  · rw [List.count_append, List.count_eq_zero_of_not_mem hbefore, List.count_cons_self] at hturns
    obtain ⟨more, hmore⟩ := Nat.exists_eq_add_of_le' (show 2 ≤ after.count i by omega)
    rw [hmore] at htask
    exact ⟨_, htask⟩

/-- A file comes to its end only through its own turns: skipped if it is
held back at the first of them, and processed otherwise. -/
theorem eq_of_finished {schedule : List Nat} {o : FileOutcome} (hi : inputs[i]? = some input)
    (h : ((start inputs).follow process failFast schedule).tasks[i]?
      = some (input, .finished o)) :
    ∃ before after, schedule = before ++ i :: after ∧ i ∉ before
      ∧ (HeldBack process failFast inputs before i ∧ o = .ofSkipped input
        ∨ ¬ HeldBack process failFast inputs before i ∧ o = process input) := by
  have hmem : i ∈ schedule := by
    by_contra hmem
    rw [getElem?_follow_of_notMem hmem, getElem?_start, hi] at h
    cases h
  obtain ⟨before, after, task, hsplit, hbefore, htask, hturn⟩ :=
    exists_first_turn process failFast hi hmem
  obtain rfl : task = .finished o := (Prod.mk.inj (Option.some.inj (htask.symm.trans h))).2
  refine ⟨before, after, hsplit, hbefore, hturn.imp ?_ ?_⟩
  · rintro ⟨hheld, he⟩
    exact ⟨hheld, Task.finished.inj he⟩
  · rintro ⟨hheld, he⟩
    refine ⟨hheld, ?_⟩
    match hcount : after.count i with
    | 0 => rw [hcount] at he; cases he
    | 1 => rw [hcount] at he; cases he
    | _ + 2 => rw [hcount] at he; exact Task.finished.inj he

theorem isFinished_iff {pool : Pool} :
    pool.isFinished = true ↔ ∀ entry ∈ pool.tasks, ∃ o, entry.2 = .finished o := by
  unfold isFinished
  rw [List.all_eq_true]
  refine forall₂_congr fun entry _ => ?_
  obtain ⟨input, task⟩ := entry
  cases task <;> simp [Task.outcome?]

/-- Where all tasks are finished, the outcomes are what they ended with. -/
theorem map_finished_outcomes {pool : Pool} (h : pool.isFinished = true) :
    pool.outcomes.map Task.finished = pool.tasks.map Prod.snd := by
  obtain ⟨halted, tasks⟩ := pool
  rw [isFinished_iff] at h
  unfold outcomes
  dsimp only at h ⊢
  induction tasks with
  | nil => rfl
  | cons entry tasks ih =>
    obtain ⟨hentry, htasks⟩ := List.forall_mem_cons.1 h
    obtain ⟨o, ho⟩ := hentry
    rw [List.filterMap_cons_some (b := o) (by rw [ho]; rfl), List.map_cons, List.map_cons, ho,
      ih htasks]

variable (process failFast inputs) in
/-- A run has the files that it was started with. -/
theorem map_fst_run (schedule : List Nat) :
    ((start inputs).follow process failFast schedule).tasks.map Prod.fst = inputs := by
  rw [map_fst_follow]
  simp [start, Function.comp_def]

/-- **A run ends** once each task has had its three turns. -/
theorem isFinished_follow {schedule : List Nat}
    (hfair : ∀ i < inputs.length, 3 ≤ schedule.count i) :
    ((start inputs).follow process failFast schedule).isFinished = true := by
  refine isFinished_iff.2 fun entry hentry => ?_
  obtain ⟨i, hi⟩ := List.getElem?_of_mem hentry
  have hinput : inputs[i]? = some entry.1 := by
    rw [← map_fst_run process failFast inputs schedule,
      List.getElem?_map, hi]
    rfl
  obtain ⟨o, ho⟩ := exists_finished_of_three_le_count process failFast hinput
    (hfair i (List.getElem?_eq_some_iff.1 hinput).1)
  exact ⟨o, congrArg Prod.snd (Option.some.inj (hi.symm.trans ho))⟩

/-- **An outcome is that of a file**, skipped or processed, whether or not the run has
ended. -/
theorem exists_of_mem_outcomes {schedule : List Nat} {o : FileOutcome}
    (ho : o ∈ ((start inputs).follow process failFast schedule).outcomes) :
    ∃ input ∈ inputs, o = .ofSkipped input ∨ o = process input := by
  obtain ⟨⟨input, task⟩, hentry, houtcome⟩ := List.mem_filterMap.1 ho
  obtain ⟨i, htask⟩ := List.getElem?_of_mem hentry
  have hi : inputs[i]? = some input := by
    rw [← map_fst_run process failFast inputs schedule, List.getElem?_map, htask]
    rfl
  have hfinished : task = .finished o := by
    cases task with
    | finished o' => exact congrArg Task.finished (Option.some.inj houtcome)
    | _ => cases houtcome
  obtain ⟨before, after, -, -, hturn⟩ := eq_of_finished hi (hfinished ▸ htask)
  exact ⟨input, List.mem_of_getElem? hi, hturn.imp And.right And.right⟩

section Ended

variable {schedule : List Nat}
  (hended : ((start inputs).follow process failFast schedule).isFinished = true)

include hended

/-- A run that has ended has one outcome for each file. -/
theorem length_outcomes_run :
    ((start inputs).follow process failFast schedule).outcomes.length = inputs.length := by
  have hlength := congrArg List.length (map_finished_outcomes hended)
  have hfiles := congrArg List.length
    (map_fst_run process failFast inputs schedule)
  rw [List.length_map, List.length_map] at hlength
  rw [List.length_map] at hfiles
  rw [hlength, hfiles]

/-- **The outcome of a file**, in a run that has ended: the file was skipped
if it was held back at its first turn, and processed otherwise. -/
theorem exists_outcome_run (hi : inputs[i]? = some input) :
    ∃ before after o, schedule = before ++ i :: after ∧ i ∉ before
      ∧ ((start inputs).follow process failFast schedule).outcomes[i]? = some o
      ∧ (HeldBack process failFast inputs before i ∧ o = .ofSkipped input
        ∨ ¬ HeldBack process failFast inputs before i ∧ o = process input) := by
  set pool := (start inputs).follow process failFast schedule with hpool
  have hsnd := congrArg (·[i]?) (map_finished_outcomes hended)
  have hfst := congrArg (·[i]?)
    (map_fst_run process failFast inputs schedule)
  simp only [List.getElem?_map, ← hpool, hi, Option.map_eq_some_iff] at hsnd hfst
  obtain ⟨⟨input', task⟩, htask, rfl⟩ := hfst
  rw [htask, Option.map_some, Option.map_eq_some_iff] at hsnd
  obtain ⟨o, ho, rfl⟩ := hsnd
  obtain ⟨before, after, hsplit, hbefore, hturn⟩ := eq_of_finished hi htask
  exact ⟨before, after, o, hsplit, hbefore, ho, hturn⟩

/-- Where no file can be held back, all of them are processed. -/
theorem outcomes_run_of_not_heldBack
    (hfree : ∀ before i, ¬ HeldBack process failFast inputs before i) :
    ((start inputs).follow process failFast schedule).outcomes = inputs.map process := by
  refine List.ext_getElem? fun i => ?_
  rw [List.getElem?_map]
  cases hi : inputs[i]? with
  | none =>
    rw [List.getElem?_eq_none_iff] at hi
    rw [List.getElem?_eq_none (by rwa [length_outcomes_run hended])]
    rfl
  | some input =>
    obtain ⟨before, after, o, -, -, ho, ⟨hheld, -⟩ | ⟨-, rfl⟩⟩ := exists_outcome_run hended hi
    · exact absurd hheld (hfree before i)
    · exact ho

end Ended

/-- No file is held back in a run that is not to stop early, nor where no
name clashes. -/
theorem not_heldBack
    (h : failFast = false ∨ ∀ input ∈ inputs, ∀ origin name,
      (process input).status ≠ .failed (.collision origin name)) (before : List Nat) (i : Nat) :
    ¬ HeldBack process failFast inputs before i := by
  rintro ⟨rfl, j, input, -, hj, origin, name, hclash⟩
  refine h.elim nofun fun hsound => hsound input ?_ origin name hclash
  rw [← map_fst_run process true inputs before]
  exact List.mem_map.2 ⟨_, List.mem_of_getElem? hj, rfl⟩

/-- **Stopping early**: for every way of processing a file and under every
schedule of the steps of the tasks,

* a run ends once each task has had its three turns;
* a run that has ended has one outcome for each file, and its result lists
  these outcomes;
* that of a file which was held back at its first turn says that the file
  was skipped and nothing else, and that of any other file is what
  processing it gives;
* where the run is not to stop early, or no name clashes in any file, all
  files are processed. -/
theorem fail_fast_protocol (process : SourceInput → FileOutcome) (failFast : Bool)
    (inputs : List SourceInput) (schedule : List Nat) :
    ((∀ i < inputs.length, 3 ≤ schedule.count i) →
      ((start inputs).follow process failFast schedule).isFinished = true)
    ∧ (((start inputs).follow process failFast schedule).isFinished = true →
      ∃ outcomes, ((start inputs).follow process failFast schedule).outcomes = outcomes
        ∧ (Outcome.ofPool ((start inputs).follow process failFast schedule)).files.Perm outcomes
        ∧ outcomes.length = inputs.length
        ∧ (∀ i input, inputs[i]? = some input → ∃ before after o,
          schedule = before ++ i :: after ∧ i ∉ before ∧ outcomes[i]? = some o
            ∧ (HeldBack process failFast inputs before i
                ∧ o.input = input ∧ o.origin = input.logicalPath ∧ o.status = .skipped
                ∧ o.targets = [] ∧ o.mutants = [] ∧ o.noOps = []
              ∨ ¬ HeldBack process failFast inputs before i ∧ o = process input))
        ∧ ((failFast = false ∨ ∀ input ∈ inputs, ∀ origin name,
            (process input).status ≠ .failed (.collision origin name)) →
          outcomes = inputs.map process)) := by
  refine ⟨isFinished_follow, fun hended => ⟨_, rfl, List.mergeSort_perm _ _,
    length_outcomes_run hended, ?_, ?_⟩⟩
  · intro i input hi
    obtain ⟨before, after, o, hsplit, hbefore, ho, hturn⟩ := exists_outcome_run hended hi
    refine ⟨before, after, o, hsplit, hbefore, ho, hturn.imp_left ?_⟩
    rintro ⟨hheld, rfl⟩
    exact ⟨hheld, rfl, rfl, rfl, rfl, rfl, rfl⟩
  · intro hsound
    exact outcomes_run_of_not_heldBack hended (not_heldBack hsound)

/-- A name clashes in the first of three files while the second is worked
on and before the third is begun: the third is skipped. -/
theorem fail_fast_protocol_in_flight :
    let file (name : String) : SourceInput := ⟨⟨""⟩, ⟨name⟩⟩
    let process (input : SourceInput) : FileOutcome :=
      if input = file "a" then .ofFailure input (.collision ⟨"a"⟩ "A")
      else { input := input, origin := input.logicalPath, status := .done }
    let inputs := [file "a", file "b", file "c"]
    let schedule := [0, 1, 0, 0, 2, 1, 1]
    ((start inputs).follow process true schedule).outcomes.map (·.status)
        = [.failed (.collision ⟨"a"⟩ "A"), .done, .skipped]
      ∧ ∃ before after, schedule = before ++ 2 :: after
        ∧ HeldBack process true inputs before 2 := by
  intro file process inputs schedule
  have hstatus : ((start inputs).follow process true schedule).outcomes.map (·.status)
      = [.failed (.collision ⟨"a"⟩ "A"), .done, .skipped] := by decide
  obtain ⟨outcomes, houtcomes, -, -, hfiles, -⟩ :=
    (fail_fast_protocol process true inputs schedule).2 (by decide)
  obtain ⟨before, after, o, hsplit, -, ho, ⟨hheld, -⟩ | ⟨-, rfl⟩⟩ := hfiles 2 (file "c") rfl
  · exact ⟨hstatus, before, after, hsplit, hheld⟩
  · have hthird := congrArg (·[2]?) hstatus
    rw [houtcomes] at hthird
    simp only [List.getElem?_map, ho] at hthird
    exact absurd hthird (by decide)

end Pool

end JavaMutants
