import JavaMutants.Config
import JavaMutants.Run.Pool
import JavaMutants.SourceRoot

/-!
# Runs

A generator is what a configuration asks for: markers to look for and
operators to apply. It processes one file at a time, and a run does so
for all files of a list.
-/

namespace JavaMutants

/-- **What a run does with each file.** -/
structure Generator where
  /-- The annotation names that mark declarations. -/
  markers : Markers
  /-- The operators. -/
  registry : Registry
  /-- Whether no new file is begun once names have clashed. -/
  failFast : Bool := false

namespace Generator

/-- **The generator that a configuration asks for.** -/
def ofConfig (config : Config) : Except Error Generator :=
  config.registry.map fun registry =>
    { markers := config.markers, registry := registry, failFast := config.settings.failFast }

/-- The outcome of a file that has been read. A located target always
cuts its file, so there is something to go on with. -/
def mutate (g : Generator) (input : SourceInput) (file : SourceFile) : FileOutcome :=
  let targets := Target.locate g.markers file
  let made := (FileMutants.ofTargets g.registry file targets).getD ⟨.ok [], []⟩
  let outcome : FileOutcome :=
    { input := input, origin := input.logicalPath, status := .done, targets := targets
      noOps := made.noOps }
  match made.result with
  | .ok mutants => { outcome with mutants := mutants }
  | .error e => { outcome with status := .failed e }

/-- **Processes a file.** -/
def process (g : Generator) (fs : FileSystem) (input : SourceInput) : FileOutcome :=
  match SourceFile.load fs input with
  | .ok file => g.mutate input file
  | .error e => .ofFailure input e

/-- **The outcome of a run under a schedule.** -/
def runUnder (g : Generator) (fs : FileSystem) (inputs : List SourceInput)
    (schedule : List Nat) : Outcome :=
  .ofPool ((Pool.start inputs).follow (g.process fs) g.failFast schedule)

/-- **The outcome of a run** that takes one file after the other. -/
def run (g : Generator) (fs : FileSystem) (inputs : List SourceInput) : Outcome :=
  g.runUnder fs inputs (Pool.inOrder inputs.length)

end Generator

end JavaMutants
