import JavaMutants.Operator.Edit

/-!
# Operators on sites

Operators that change one spot of a declaration, wherever in it the spot
lies: a comparison (`relationalBoundary`, `flipEquality`) or a condition
(`negateCondition`). Each spot gives one version, in document order.
-/

namespace JavaMutants

open Syntax

/-- The operator on the other side of the boundary. -/
def acrossBoundary? : Punct → Option Punct
  | .lt => some .le
  | .le => some .lt
  | .gt => some .ge
  | .ge => some .gt
  | _ => none

/-- The opposite test of equality. -/
def otherEquality? : Punct → Option Punct
  | .eq => some .ne
  | .ne => some .eq
  | _ => none

/-- The operator token of a comparison and what takes its place. -/
def operatorSite? (swap : Punct → Option Punct) (node : Tree) : Option (Tree × String) := do
  if node.isA .binaryExpression then
    let token ← node.child? .operator
    match token.label with
    | .punct p => (swap p).map fun q => (token, q.text)
    | _ => none
  else none

/-- **Each operator of some kind swapped.** -/
def swapOperators (swap : Punct → Option Punct) (target : Target) (span : String) :
    Option (List String) :=
  withDeclaration target span fun fragment declaration =>
    exchangeEach fragment span (declaration.preorder.filterMap (operatorSite? swap))

/-- **One comparison moved across its boundary.** -/
def relationalBoundary : Target → String → Option (List String) :=
  swapOperators acrossBoundary?

/-- **One test of equality turned into its opposite.** -/
def flipEquality : Target → String → Option (List String) :=
  swapOperators otherEquality?

/-- Whether a node has a condition that can be negated. -/
def isConditional (node : Tree) : Bool :=
  node.isA .ifStatement || node.isA .whileStatement || node.isA .doStatement
    || node.isA .forStatement || node.isA .ternaryExpression

/-- The condition of a node. -/
def condition? (node : Tree) : Option Tree :=
  if isConditional node then node.child? .condition else none

/-- A condition negated. One in parentheses stays in parentheses. -/
def negated (condition : Tree) (text : String) : String :=
  if condition.isA .parenthesizedExpression then "(!" ++ text ++ ")" else "!(" ++ text ++ ")"

/-- **One condition negated.** -/
def negateCondition (target : Target) (span : String) : Option (List String) :=
  withDeclaration target span fun fragment declaration => do
    let sites ← (declaration.preorder.filterMap condition?).mapM fun condition =>
      (fragment.textOf? condition).map fun text => (condition, negated condition text)
    exchangeEach fragment span sites

end JavaMutants
