import JavaMutants.Operator.Body
import JavaMutants.Operator.Site

/-!
# Registries

An ordered collection of operators, in which no tag stands twice as long
as it is built by `register` and `select` from `empty` or `builtin`.
-/

namespace JavaMutants

/-- **An ordered collection of operators.** -/
structure Registry where
  /-- The operators, in the order in which they are tried. -/
  operators : List Operator

namespace Registry

/-- The registry without operators. -/
def empty : Registry := ⟨[]⟩

/-- Whether a target is not to be left alone. -/
def current (t : Target) : Bool := !t.deprecated

/-- Whether a target is a constructor or a method not to be left alone. -/
def currentMember (t : Target) : Bool := !t.deprecated && t.kind != .typeDeclaration

/-- Whether a target is a method not to be left alone. -/
def currentMethod (t : Target) : Bool := !t.deprecated && t.kind == .method

/-- **The operators that come with the program.** -/
def builtin : Registry := ⟨[
  { tag := "empty_body"
    description := "Replace the body of a constructor or void method with an empty block"
    applies := currentMember
    generate := emptyBody },
  { tag := "default_return"
    description :=
      "Replace the body of a non-void method with a return of the type's default value"
    applies := currentMethod
    generate := defaultReturn },
  { tag := "negate_return"
    description := "Negate the value of one return statement in a boolean method"
    applies := currentMethod
    generate := negateReturn },
  { tag := "relational_boundary"
    description := "Shift one relational operator across its boundary (< to <=, >= to >, ...)"
    applies := current
    generate := relationalBoundary },
  { tag := "negate_condition"
    description := "Negate the condition of one if/while/do/for statement or ternary"
    applies := current
    generate := negateCondition },
  { tag := "flip_equality"
    description := "Swap one == for != or the reverse"
    applies := current
    generate := flipEquality } ]⟩

/-- The tags of the operators, in order. -/
def tags (r : Registry) : List String := r.operators.map (·.tag)

/-- The operator with a tag. -/
def get? (r : Registry) (tag : String) : Option Operator :=
  r.operators.find? fun o => o.tag == tag

/-- The complaint about a tag that names no operator. -/
def unknownOperator (tag : String) (known : List String) : Error :=
  .config ("Unknown operator '" ++ tag ++ "'\n  Available operators: "
    ++ ", ".intercalate known)

/-- **Adds an operator at the end**, unless its tag is taken. -/
def register (r : Registry) (o : Operator) : Except Error Registry :=
  if (r.get? o.tag).isSome then
    .error (.config ("Operator '" ++ o.tag ++ "' is already registered"))
  else .ok ⟨r.operators ++ [o]⟩

/-- **Keeps only the operators that are named**, in the order of the
registry. Naming none keeps them all. -/
def select (r : Registry) (named : List String) : Except Error Registry :=
  if named.isEmpty then .ok r
  else
    match named.find? fun t => (r.get? t).isNone with
    | some tag => .error (unknownOperator tag r.tags)
    | none => .ok ⟨r.operators.filter fun o => named.contains o.tag⟩

/-- The registry as it is shown in diagnostics. -/
def debug (r : Registry) : String :=
  "OperatorRegistry \x7b operators: [" ++ ", ".intercalate (r.operators.map Operator.debug)
    ++ "] \x7d"

end Registry

end JavaMutants
