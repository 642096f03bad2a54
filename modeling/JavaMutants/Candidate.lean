import JavaMutants.Registry
import JavaMutants.Text.Blank

/-!
# Candidates

The versions of a target's text that are worth keeping. Every version
that an operator gives is judged once: a blank one is dropped, one that
is the text itself is put on record as a no-op, one that has been kept
before is dropped, and the others are kept. A kept version is called by
its operator's tag and its place among *all* versions of that operator,
so its name does not depend on what else is dropped or selected.
-/

namespace JavaMutants

/-- One version of a target's text, as its operator gave it. -/
structure Variant where
  /-- The tag of the operator. -/
  operator : String
  /-- Its place among the versions of the operator. -/
  index : Nat
  /-- The version. -/
  text : String
deriving DecidableEq, Repr

/-- The operator's tag and the place of the version. -/
def Variant.tag (v : Variant) : String := v.operator ++ "_" ++ toString v.index

/-- **A version that is kept.** -/
structure Candidate where
  /-- The tag of the operator. -/
  operator : String
  /-- The tag with the place of the version. -/
  tag : String
  /-- What takes the place of the target's text. -/
  replacement : String
deriving DecidableEq, Repr

/-- What becomes of a version. -/
inductive Verdict where
  /-- It is kept. -/
  | kept
  /-- There is nothing in it. -/
  | blank
  /-- It is the text itself. -/
  | noOp
  /-- It has been kept before. -/
  | duplicate
deriving DecidableEq, Repr

/-- **Judges a version**, given the target's text and what has been
kept. -/
def Variant.judge (span : String) (kept : List String) (v : Variant) : Verdict :=
  if Text.isBlankText v.text then .blank
  else if v.text == span then .noOp
  else if kept.contains v.text then .duplicate
  else .kept

/-- The versions of one operator, each with its place. -/
def Operator.variants (o : Operator) (target : Target) (span : String) :
    Option (List Variant) :=
  if o.applies target then
    (o.generate target span).map fun texts =>
      texts.zipIdx.map fun (text, index) => ⟨o.tag, index, text⟩
  else some []

/-- All versions of a target's text, operator after operator. -/
def Registry.variants (r : Registry) (target : Target) (span : String) :
    Option (List Variant) :=
  (r.operators.mapM fun (o : Operator) => o.variants target span).map List.flatten

namespace Candidate

/-- A kept version as a candidate. -/
def ofVariant (v : Variant) : Candidate := ⟨v.operator, v.tag, v.text⟩

/-- **Sifts versions** into candidates and no-ops, given what has been
kept. `place` says in words where the target stands. -/
def sift (span place : String) : List String → List Variant →
    List Candidate × List Error
  | _, [] => ([], [])
  | kept, v :: rest =>
    match v.judge span kept with
    | .kept =>
      let (candidates, noOps) := sift span place (v.text :: kept) rest
      (ofVariant v :: candidates, noOps)
    | .noOp =>
      let (candidates, noOps) := sift span place kept rest
      (candidates, .noOp v.tag place :: noOps)
    | _ => sift span place kept rest

/-- **The candidates of a target and its no-ops**; nothing if the target
does not cut the file or an operator gives up. -/
def ofTarget (r : Registry) (file : SourceFile) (target : Target) :
    Option (List Candidate × List Error) := do
  let span ← file.slice? target.start target.stop
  let variants ← r.variants target span
  some (sift span (target.describe ++ " in " ++ file.path.text) [] variants)

/-! ## One version after the other -/

/-- What has come of the versions so far. -/
structure Sieve where
  /-- The texts that have been kept. -/
  kept : List String := []
  /-- The candidates. -/
  candidates : List Candidate := []
  /-- The no-ops, behind those that had been on record. -/
  recorded : List Error
deriving DecidableEq, Repr

/-- **One more version.** -/
def Sieve.step (span place : String) (s : Sieve) (v : Variant) : Sieve :=
  match v.judge span s.kept with
  | .kept => { s with kept := v.text :: s.kept, candidates := s.candidates ++ [ofVariant v] }
  | .noOp => { s with recorded := s.recorded ++ [.noOp v.tag place] }
  | _ => s

/-- **The candidates of a target**, and the record of no-ops with its own
put behind those that are on it. -/
def record (r : Registry) (file : SourceFile) (target : Target) (recorded : List Error) :
    Option (List Candidate × List Error) := do
  let span ← file.slice? target.start target.stop
  let variants ← r.variants target span
  let place := target.describe ++ " in " ++ file.path.text
  let sieve := variants.foldl (Sieve.step span place) { recorded := recorded }
  some (sieve.candidates, sieve.recorded)

/-- The candidates of a target alone. -/
def apply (r : Registry) (file : SourceFile) (target : Target) : Option (List Candidate) :=
  (record r file target []).map (·.1)

end Candidate

end JavaMutants
