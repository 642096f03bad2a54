import JavaMutants.Mutant

/-!
# Outcomes

What became of a file, and what became of all files of a run.
-/

namespace JavaMutants

/-- How the work on a file ended. -/
inductive FileStatus where
  /-- It was done to the end. -/
  | done
  /-- It stopped with an error. -/
  | failed (error : Error)
  /-- It was not begun. -/
  | skipped
deriving DecidableEq, Repr

/-- **What became of a file.** -/
structure FileOutcome where
  /-- The file. -/
  input : SourceInput
  /-- Its logical path. -/
  origin : Path
  /-- How the work on it ended. -/
  status : FileStatus
  /-- Its targets. -/
  targets : List Target := []
  /-- Its mutants. -/
  mutants : List Mutant := []
  /-- The no-ops on the way. -/
  noOps : List Error := []
deriving DecidableEq, Repr

namespace FileOutcome

/-- Whether the work on the file failed. -/
def isFailed (o : FileOutcome) : Bool :=
  match o.status with
  | .failed _ => true
  | _ => false

/-- Whether the file was not begun. -/
def isSkipped (o : FileOutcome) : Bool :=
  match o.status with
  | .skipped => true
  | _ => false

/-- The error that ended the work on the file. -/
def error? (o : FileOutcome) : Option Error :=
  match o.status with
  | .failed e => some e
  | _ => none

/-- **Whether no new file is to be begun after this one** where a run is
to stop early. -/
def haltsRun (o : FileOutcome) : Bool :=
  match o.status with
  | .failed e => e.haltsRun
  | _ => false

/-- The outcome of a file that was not begun. -/
def ofSkipped (input : SourceInput) : FileOutcome :=
  { input := input, origin := input.logicalPath, status := .skipped }

/-- The outcome of a file that could not be worked on at all. -/
def ofFailure (input : SourceInput) (e : Error) : FileOutcome :=
  { input := input, origin := input.logicalPath, status := .failed e }

end FileOutcome

/-- **What became of all files of a run.** -/
structure Outcome where
  /-- The outcome of each file. -/
  files : List FileOutcome
deriving DecidableEq, Repr

namespace Outcome

/-- The mutants of all files. -/
def mutants (o : Outcome) : List Mutant := o.files.flatMap (·.mutants)

/-- The files that failed, each with its error. -/
def failures (o : Outcome) : List (FileOutcome × Error) :=
  o.files.filterMap fun f => f.error?.map fun e => (f, e)

/-- Whether a file failed. -/
def hasFailures (o : Outcome) : Bool := o.files.any FileOutcome.isFailed

/-- How many files were not begun. -/
def skipped (o : Outcome) : Nat := (o.files.filter FileOutcome.isSkipped).length

end Outcome

end JavaMutants
