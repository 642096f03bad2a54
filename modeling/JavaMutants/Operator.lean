import JavaMutants.Target

/-!
# Mutation operators

An operator has a tag, a predicate that tells which targets it takes, and
a generator that gives changed versions of a target's text. Nothing is
asked of predicate and generator. A generator may also give up
altogether: `none` says that it came upon a range of bytes that does not
cut the text.
-/

namespace JavaMutants

/-- **A mutation operator.** -/
structure Operator where
  /-- The tag that names it. -/
  tag : String
  /-- What it does, in words. -/
  description : String
  /-- Whether it takes a target. -/
  applies : Target → Bool
  /-- The changed versions of a target's text. -/
  generate : Target → String → Option (List String)

/-- The operator as it is shown in diagnostics. -/
def Operator.debug (o : Operator) : String :=
  "MutationOperator \x7b tag: " ++ Text.quote o.tag ++ " \x7d"

end JavaMutants
