import JavaMutants.Candidate

/-!
# Mutants

A mutant is a whole file in which one target has been changed. Its name
is put together from the simple name of the file, the kind and the number
of the target, and the tag of the candidate. Names are kept apart within
a file: a name that comes up twice is an error that ends the work on the
file.
-/

namespace JavaMutants

/-- **A mutant of a source file.** -/
structure Mutant where
  /-- The logical path of the file. -/
  origin : Path
  /-- The name of the mutant. -/
  name : String
  /-- The whole text. -/
  text : String
  /-- What the changed target is. -/
  kind : TargetKind
  /-- The number of the target among those of its kind. -/
  ordinal : Nat
  /-- The tag of the candidate. -/
  operator : String
  /-- Where the changed part begins, in both texts. -/
  start : Nat
  /-- Where it has ended in the text of the file. -/
  stop : Nat
  /-- How many bytes it has in the mutant. -/
  replacementSize : Nat
deriving DecidableEq, Repr

namespace Mutant

/-- The changed part. -/
def replacement? (m : Mutant) : Option String :=
  Text.slice? m.text m.start (m.start + m.replacementSize)

/-- The text with the changed part put back. -/
def revert? (m : Mutant) (span : String) : Option String :=
  Text.splice? m.text m.start (m.start + m.replacementSize) span

/-- **The name of a mutant.** -/
def nameOf (simpleName : String) (kind : TargetKind) (ordinal : Nat) (tag : String) : String :=
  simpleName ++ "_" ++ kind.label ++ toString ordinal ++ "_" ++ tag

/-- **Puts a replacement in the place of a target**; nothing if the target
does not cut the file. -/
def assemble? (file : SourceFile) (target : Target) (tag replacement : String) :
    Option Mutant :=
  (Text.splice? file.text target.start target.stop replacement).map fun text =>
    { origin := file.path
      name := nameOf file.simpleName target.kind target.ordinal tag
      text := text
      kind := target.kind
      ordinal := target.ordinal
      operator := tag
      start := target.start
      stop := target.stop
      replacementSize := Text.size replacement }

/-- Keeps a mutant apart from those that have been named before. -/
def enlist (taken : List String) (m : Mutant) : Except Error (List String) :=
  if taken.contains m.name then .error (.collision m.origin m.name)
  else .ok (m.name :: taken)

end Mutant

/-- **What came of the targets of a file**: its mutants or the clash of
names that ended the work, and the no-ops on the way. -/
structure FileMutants where
  /-- The mutants, or why there are none. -/
  result : Except Error (List Mutant)
  /-- The no-ops. -/
  noOps : List Error

namespace FileMutants

/-- Assembles the candidates of one target. -/
def assembleAll (file : SourceFile) (target : Target) : List String → List Candidate →
    Option (Except Error (List String × List Mutant))
  | taken, [] => some (.ok (taken, []))
  | taken, c :: rest => do
    let m ← Mutant.assemble? file target c.tag c.replacement
    match m.enlist taken with
    | .error e => some (.error e)
    | .ok taken =>
      match ← assembleAll file target taken rest with
      | .error e => some (.error e)
      | .ok (taken, ms) => some (.ok (taken, m :: ms))

/-- Works through targets, given the names that are taken. -/
def ofTargetsFrom (r : Registry) (file : SourceFile) : List String → List Target →
    Option FileMutants
  | _, [] => some ⟨.ok [], []⟩
  | taken, t :: rest => do
    let (candidates, noOps) ← Candidate.ofTarget r file t
    match ← assembleAll file t taken candidates with
    | .error e => some ⟨.error e, noOps⟩
    | .ok (taken, ms) =>
      let next ← ofTargetsFrom r file taken rest
      some ⟨next.result.map (ms ++ ·), noOps ++ next.noOps⟩

/-- **Mutates the targets of a file**, one after the other; nothing if a
target does not cut the file or an operator gives up. -/
def ofTargets (r : Registry) (file : SourceFile) (targets : List Target) :
    Option FileMutants :=
  ofTargetsFrom r file [] targets

/-! ## With a record of no-ops -/

/-- Works through targets, given the names that are taken and the no-ops
that are on record. -/
def recordFrom (r : Registry) (file : SourceFile) : List String → List Error → List Target →
    Option FileMutants
  | _, recorded, [] => some ⟨.ok [], recorded⟩
  | taken, recorded, t :: rest => do
    let (candidates, recorded) ← Candidate.record r file t recorded
    match ← assembleAll file t taken candidates with
    | .error e => some ⟨.error e, recorded⟩
    | .ok (taken, ms) =>
      let next ← recordFrom r file taken recorded rest
      some ⟨next.result.map (ms ++ ·), next.noOps⟩

/-- **Mutates the targets of a file**, and puts the no-ops on the way
behind those that are on record. -/
def record (r : Registry) (file : SourceFile) (targets : List Target) (recorded : List Error) :
    Option FileMutants :=
  recordFrom r file [] recorded targets

end FileMutants

end JavaMutants
