import JavaMutants.CommandLine
import JavaMutants.Config.Read
import JavaMutants.Output
import JavaMutants.Report
import JavaMutants.Run

/-!
# The program

What each command does to a file system and what it prints. A command
ends with one of three codes: all went well, the command could not be
carried out, or some files could not be processed; a wrong call ends like
the last.
-/

namespace JavaMutants

open CommandLine (Request Sources)
open Text (Style padded)

/-- **What a command leaves behind.** -/
structure Ending where
  /-- The code it ends with. -/
  code : Nat
  /-- What it printed, given the time it took. -/
  out : Duration → String := fun _ => ""
  /-- What it printed on errors. -/
  err : String := ""
  /-- The file system after it. -/
  files : FileSystem

namespace Program

/-- Lines as they are printed. -/
def printed (lines : List String) : String := String.join (lines.map (· ++ "\n"))

/-- The configuration that is read where none is named. -/
def defaultConfig : Path := ⟨"mutagen.yaml"⟩

/-- The style of a failure. -/
def failure : Style := { bold := true, colour := some .red }

/-- The style of a success. -/
def success : Style := { bold := true, colour := some .green }

/-- **A command that could not be carried out**: the lines of a detailed
account, and the cause. -/
structure Abort where
  /-- The account. -/
  account : List String := []
  /-- The cause. -/
  cause : String

/-- An error as the cause, in words that say what failed. -/
def Abort.ofError (context : String) (e : Error) : Abort := { cause := context ++ e.message }

/-- The lines about a command that could not be carried out. -/
def Abort.lines (a : Abort) (styled : Bool) : List String :=
  a.account ++ [failure.paint styled "Error" ++ ": " ++ a.cause]

/-- The configuration that sources name, or the one that is there, or the
one without any choice. -/
def configOf (fs : FileSystem) (sources : Sources) : Except Error Config := do
  let config ← match sources.config with
    | some path => Config.load fs path
    | none => if fs.contains defaultConfig then Config.load fs defaultConfig else .ok {}
  match sources.threads with
  | some threads => .ok { config with settings := { config.settings with threads := threads } }
  | none => .ok config

/-- Refuses a configuration with problems. -/
def checked (config : Config) (styled : Bool) : Except Abort Config :=
  let problems := config.problems Registry.builtin.tags
  if problems.isEmpty then .ok config
  else .error {
    account := failure.paint styled "Configuration errors found:"
      :: problems.map fun e => "  • " ++ e.message
    cause := toString problems.length ++ " configuration error(s)" }

/-- The files to be worked on and the generator to be used. -/
def prepare (fs : FileSystem) (roots : List Path) (config : Config) :
    Except Abort (Generator × List SourceInput) := do
  let generator ← (Generator.ofConfig config).mapError (Abort.ofError "")
  let inputs ← (SourceInput.ofRoots fs config.extension roots).mapError
    (Abort.ofError "failed to scan for source files: ")
  .ok (generator, inputs)

/-- The code of a run. -/
def codeOf (outcome : Outcome) : Nat := if outcome.hasFailures then 2 else 0

/-! ## Writing mutants -/

/-- The configuration of a call that writes mutants. -/
def generateConfig (fs : FileSystem) (sources : Sources) (operators : List String)
    (failFast styled : Bool) : Except Abort Config := do
  let config ← (configOf fs sources).mapError (Abort.ofError "")
  let config := if operators.isEmpty then config else { config with operators := operators }
  checked { config with
    settings := { config.settings with failFast := config.settings.failFast || failFast } } styled

/-- **Writes mutants.** -/
def generate (fs : FileSystem) (sources : Sources) (output : Path) (operators : List String)
    (failFast styled : Bool) : Ending :=
  let loading := [Report.remark.paint styled "Loading configuration..."]
  let prepared := do
    let config ← generateConfig fs sources operators failFast styled
    let (generator, inputs) ← prepare fs sources.roots config
    pure (config, generator, inputs)
  match prepared with
  | .error a =>
    { code := 1, out := fun _ => printed loading, err := printed (a.lines styled), files := fs }
  | .ok (config, generator, inputs) =>
    let found := loading ++ ["Found " ++ toString inputs.length ++ " source file(s)"]
    let outcome := generator.run fs inputs
    match Output.write fs output config.extension outcome.mutants with
    | (after, .error e) =>
      let a := Abort.ofError "failed to write generated sources: " e
      { code := 1
        out := fun _ => printed found
        err := printed (a.lines styled)
        files := after }
    | (after, .ok paths) =>
      let wrote := success.paint styled "✓" ++ " Wrote " ++ toString paths.length
        ++ " file(s) to " ++ output.text
      let report (elapsed : Duration) := (Report.ofOutcome outcome elapsed).lines styled
      { code := codeOf outcome
        out := fun elapsed => printed (found ++ report elapsed ++ ["", wrote])
        files := after }

/-! ## Listing targets -/

/-- The line of a target. -/
def targetLine (styled : Bool) (t : Target) : String :=
  "    " ++ padded 16 (t.kind.label ++ toString t.ordinal) ++ " " ++ padded 24 t.name ++ " "
    ++ Report.remark.paint styled ("bytes " ++ toString t.start ++ ".." ++ toString t.stop)
    ++ (if t.deprecated then
        Style.paint { colour := some .yellow } styled " [deprecated]" else "")

/-- The lines of a file. -/
def fileLines (styled : Bool) (f : FileOutcome) : List String :=
  [f.status.label styled ++ " " ++ f.origin.text]
    ++ (f.error?.map fun e => "        " ++ Report.remark.paint styled e.message).toList
    ++ f.targets.map (targetLine styled)

/-- **Lists targets.** -/
def inspect (fs : FileSystem) (sources : Sources) (styled : Bool) : Ending :=
  let prepared := do
    let config ← (configOf fs sources).mapError (Abort.ofError "")
    let config ← checked config styled
    prepare fs sources.roots config
  match prepared with
  | .error a => { code := 1, err := printed (a.lines styled), files := fs }
  | .ok (generator, inputs) =>
    let outcome := generator.run fs inputs
    { code := codeOf outcome
      out := fun _ => printed (outcome.files.flatMap (fileLines styled))
      files := fs }

/-! ## Other commands -/

/-- The list of operators. -/
def operatorLines (styled : Bool) : List String :=
  [Report.heading.paint styled "Available operators", Report.ruler 40 '-']
    ++ Registry.builtin.operators.map fun o =>
      "  " ++ Style.paint { colour := some .green } styled (padded 22 o.tag) ++ " "
        ++ o.description

/-- **A configuration that says what is chosen anyway.** -/
def exampleConfig : String :=
"# Example mutagen.yaml configuration file
version: \"1.0\"

markers:
  mutate: Mutate          # declarations carrying @Mutate are mutated
  deprecated: Deprecated  # ...unless they also carry @Deprecated

# Operators to run, in registry order (omit or leave empty for all)
operators:
  - empty_body
  - default_return
  - negate_return
  - relational_boundary
  - negate_condition
  - flip_equality

settings:
  threads: 0        # 0 = all cores
  extension: java
  fail_fast: false
"

/-- **Carries out what a call asks for.** -/
def perform (fs : FileSystem) (styled : Bool) : Request → Ending
  | .generate sources output operators failFast =>
    generate fs sources output operators failFast styled
  | .inspect sources => inspect fs sources styled
  | .operators => { code := 0, out := fun _ => printed (operatorLines styled), files := fs }
  | .example => { code := 0, out := fun _ => printed [exampleConfig], files := fs }
  | .help text => { code := 0, out := fun _ => text.render styled, files := fs }
  | .version =>
    { code := 0
      out := fun _ => printed [CommandLine.programName ++ " " ++ CommandLine.programVersion]
      files := fs }
  | .wrong message => { code := 2, err := message.render styled, files := fs }

/-- The paths that matter to a request: it looks at nothing but what lies
there, and changes nothing else. -/
def paths : Request → List Path
  | .generate sources output _ _ => output :: sources.config.getD defaultConfig :: sources.roots
  | .inspect sources => sources.config.getD defaultConfig :: sources.roots
  | _ => []

/-- **Runs the program** with the words of a call. -/
def run (fs : FileSystem) (styled : Bool) (words : List String) : Ending :=
  perform fs styled (Request.ofWords words)

end Program

end JavaMutants
