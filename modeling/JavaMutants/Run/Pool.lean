import JavaMutants.Outcome

/-!
# Pools of tasks

Files are worked on side by side. The work on one file is a task of three
steps: look whether the run has been halted, process the file, and halt
the run if that is called for. A schedule says whose turn it is, step
after step; between the steps of one task any number of steps of others
can lie. Whatever the schedule, each task ends with one outcome.
-/

namespace JavaMutants

/-- **How far the work on a file has come.** -/
inductive Task where
  /-- Nothing has been done. -/
  | waiting
  /-- The run was not halted when the task looked. -/
  | cleared
  /-- The file has been processed. -/
  | processed (outcome : FileOutcome)
  /-- All has been done. -/
  | finished (outcome : FileOutcome)
deriving DecidableEq, Repr

/-- The outcome of a task that is finished. -/
def Task.outcome? : Task → Option FileOutcome
  | finished o => some o
  | _ => none

/-- **The tasks of a run**, and whether the run has been halted. -/
structure Pool where
  /-- Whether no new file is to be begun. -/
  halted : Bool
  /-- The files and how far the work on each has come. -/
  tasks : List (SourceInput × Task)
deriving DecidableEq, Repr

namespace Pool

/-- The pool before the first step. -/
def start (inputs : List SourceInput) : Pool :=
  ⟨false, inputs.map fun input => (input, .waiting)⟩

/-- One step of a task: whether the run is halted after it, and how far
the task has come. -/
def advance (process : SourceInput → FileOutcome) (failFast halted : Bool)
    (input : SourceInput) : Task → Bool × Task
  | .waiting => if halted then (halted, .finished (.ofSkipped input)) else (halted, .cleared)
  | .cleared => (halted, .processed (process input))
  | .processed o => (halted || (failFast && o.haltsRun), .finished o)
  | .finished o => (halted, .finished o)

/-- **One step of the task at a place.** -/
def step (process : SourceInput → FileOutcome) (failFast : Bool) (pool : Pool) (turn : Nat) :
    Pool :=
  match pool.tasks[turn]? with
  | some (input, task) =>
    let (halted, task) := advance process failFast pool.halted input task
    ⟨halted, pool.tasks.set turn (input, task)⟩
  | none => pool

/-- **The steps of a schedule.** -/
def follow (process : SourceInput → FileOutcome) (failFast : Bool) (pool : Pool)
    (schedule : List Nat) : Pool :=
  schedule.foldl (step process failFast) pool

/-- The schedule that does one task after the other. -/
def inOrder (count : Nat) : List Nat :=
  (List.range count).flatMap fun turn => [turn, turn, turn]

/-- The outcomes of the tasks that are finished. -/
def outcomes (pool : Pool) : List FileOutcome :=
  pool.tasks.filterMap fun (_, task) => task.outcome?

/-- Whether all tasks are finished. -/
def isFinished (pool : Pool) : Bool :=
  pool.tasks.all fun (_, task) => task.outcome?.isSome

end Pool

namespace FileOutcome

/-- Whether an outcome does not come after another one: by logical paths
first, then by the inputs. -/
def notAfter (a b : FileOutcome) : Bool :=
  ((a.origin.compare b.origin).then (a.input.compare b.input)).isLE

end FileOutcome

/-- **The outcome of a run**: those of its files, put in order. -/
def Outcome.ofPool (pool : Pool) : Outcome :=
  ⟨pool.outcomes.mergeSort FileOutcome.notAfter⟩

end JavaMutants
