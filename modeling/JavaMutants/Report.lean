import JavaMutants.Duration
import JavaMutants.Outcome
import JavaMutants.Text.Styled

/-!
# Reports

The figures of a run and how they are laid out for a reader. Mutants are
counted by operator; the tag of a mutant ends in the place of its version,
which is taken off for that.
-/

namespace JavaMutants

open Text (Style padded)

/-- **The figures of a run.** -/
structure Report where
  /-- How many files there were. -/
  files : Nat
  /-- The files that failed, each with the text of its error. -/
  failed : List (Path × String)
  /-- How many files were not begun. -/
  skipped : Nat
  /-- How many targets there were. -/
  targets : Nat
  /-- How many of them were to be left alone. -/
  deprecatedTargets : Nat
  /-- How many mutants were made. -/
  mutants : Nat
  /-- How many no-ops were dropped. -/
  noOps : Nat
  /-- How many mutants each operator made, in the order of the tags. -/
  perOperator : List (String × Nat)
  /-- How long the run took. -/
  duration : Duration
deriving DecidableEq, Repr

namespace Report

/-- **The tag of the operator** in the tag of a candidate: what comes
before the last underscore, if only digits and at least one of them come
after it. -/
def operatorOf (tag : String) : String :=
  match tag.toList.reverse.span (· != '_') with
  | (_, []) => tag
  | (digits, _ :: base) =>
    if !digits.isEmpty && digits.all Char.isDigit then String.ofList base.reverse else tag

/-- Counts one more of a key in a list that is sorted by keys. -/
def count (key : String) : List (String × Nat) → List (String × Nat)
  | [] => [(key, 1)]
  | (k, n) :: rest =>
    if key < k then (key, 1) :: (k, n) :: rest
    else if key == k then (k, n + 1) :: rest
    else (k, n) :: count key rest

/-- How often each key occurs, in the order of the keys. -/
def tally (keys : List String) : List (String × Nat) :=
  keys.foldl (fun counts key => count key counts) []

/-- **The report on a run.** -/
def ofOutcome (outcome : Outcome) (duration : Duration) : Report :=
  let targets := outcome.files.flatMap (·.targets)
  { files := outcome.files.length
    failed := outcome.failures.map fun (f, e) => (f.origin, e.message)
    skipped := outcome.skipped
    targets := targets.length
    deprecatedTargets := (targets.filter (·.deprecated)).length
    mutants := outcome.mutants.length
    noOps := (outcome.files.map (·.noOps.length)).foldl (· + ·) 0
    perOperator := tally (outcome.mutants.map fun m => operatorOf m.operator)
    duration := duration }

/-- How many files were worked on to the end. -/
def processed (r : Report) : Nat := r.files - r.failed.length - r.skipped

/-- Whether a file failed. -/
def hasFailures (r : Report) : Bool := !r.failed.isEmpty

/-! ## Layout -/

/-- The style of headings. -/
def heading : Style := { bold := true }

/-- The style of remarks. -/
def remark : Style := { faint := true }

/-- A line of one character. -/
def ruler (width : Nat) (c : Char) : String := String.ofList (List.replicate width c)

/-- The lines of the figures. -/
def figures (r : Report) (styled : Bool) : List String :=
  ["Files scanned:     " ++ toString r.files, "Files processed:   " ++ toString r.processed]
    ++ (if 0 < r.skipped then
        ["Files skipped:     "
          ++ Style.paint { colour := some .yellow } styled (toString r.skipped)]
      else [])
    ++ ["Targets:           " ++ toString r.targets ++ " "
        ++ remark.paint styled ("(" ++ toString r.deprecatedTargets ++ " deprecated)"),
      "Mutations:         "
        ++ Style.paint { bold := true, colour := some .green } styled (toString r.mutants)]
    ++ (if 0 < r.noOps then
        ["No-op discarded:   " ++ toString r.noOps ++ " "
          ++ remark.paint styled "(operator reproduced the original span)"]
      else [])
    ++ ["Duration:          " ++ r.duration.text]

/-- The lines on operators. -/
def operatorLines (r : Report) (styled : Bool) : List String :=
  if r.perOperator.isEmpty then []
  else ["", heading.paint styled "By Operator", ruler 40 '-']
    ++ r.perOperator.map fun (tag, n) => "  " ++ padded 22 tag ++ " " ++ toString n

/-- The lines on files that failed. -/
def failureLines (r : Report) (styled : Bool) : List String :=
  if r.failed.isEmpty then []
  else ["", Style.paint { bold := true, colour := some .red } styled "Failed Files",
      ruler 40 '-']
    ++ r.failed.flatMap fun (path, error) =>
      ["  " ++ Style.paint { colour := some .red } styled "✗" ++ " " ++ path.text,
        "    " ++ remark.paint styled error]

/-- **The lines of a report.** -/
def lines (r : Report) (styled : Bool) : List String :=
  ["", heading.paint styled "Mutation Generation Report", ruler 60 '=', ""]
    ++ r.figures styled ++ r.operatorLines styled ++ r.failureLines styled

end Report

/-- How the work on a file ended, as a label in a listing. -/
def FileStatus.label (status : FileStatus) (styled : Bool) : String :=
  match status with
  | .done => Style.paint { bold := true, colour := some .green } styled "[OK]"
  | .failed _ => Style.paint { bold := true, colour := some .red } styled "[FAILED]"
  | .skipped => Style.paint { bold := true, colour := some .yellow } styled "[SKIPPED]"

end JavaMutants
