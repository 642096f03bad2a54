import JavaMutants.Operator.Edit

/-!
# Operators on bodies

`emptyBody` takes all statements out of a constructor or of a method that
returns nothing, `defaultReturn` makes a method return the default value
of its type, and `negateReturn` negates one value that a method of type
`boolean` returns. None of them touches anything before the body.
-/

namespace JavaMutants

open Syntax

/-- What a method returns, as far as default values go. -/
inductive ReturnType where
  /-- Nothing. -/
  | void
  /-- A whole number or a character. -/
  | integral
  /-- A number of single precision. -/
  | float
  /-- A number of double precision. -/
  | double
  /-- A truth value. -/
  | boolean
  /-- An object or an array. -/
  | reference
deriving DecidableEq, Repr

namespace ReturnType

/-- **The return type of a declaration.** Dimensions after the parameters
make it an array; a declaration without a type is a constructor. -/
def ofDeclaration (declaration : Tree) : ReturnType :=
  if (declaration.child? .dimensions).isSome then .reference
  else
    match declaration.child? .type_ with
    | none => .void
    | some type =>
      match type.kind? with
      | some .voidType => .void
      | some .integralType => .integral
      | some .floatingPointType =>
        if type.children.head?.map Tree.label == some (.keyword .float_) then .float
        else .double
      | some .booleanType => .boolean
      | _ => .reference

/-- The values that a method can be made to return. -/
def defaults : ReturnType → List String
  | void => []
  | integral => ["0"]
  | float => ["0.0f"]
  | double => ["0.0"]
  | boolean => ["false", "true"]
  | reference => ["null"]

end ReturnType

/-- The block without statements. -/
def emptyBlock : String := "\x7b\x7d"

/-- The block of one statement. -/
def blockOf (statement : String) : String := "\x7b " ++ statement ++ " \x7d"

/-- The body without its statements. A constructor that begins by calling
another one keeps that call, without which its class may not be
usable. -/
def emptied? (target : Target) (fragment : Fragment) (declaration body : Tree) :
    Option (List String) :=
  match target.kind with
  | .constructor =>
    match body.namedChildren.head? with
    | some first =>
      if first.isA .explicitConstructorInvocation then
        (fragment.textOf? first).map fun call => [blockOf call]
      else some [emptyBlock]
    | none => some [emptyBlock]
  | .method =>
    some (if ReturnType.ofDeclaration declaration == .void then [emptyBlock] else [])
  | .typeDeclaration => some []

/-- **The body emptied.** -/
def emptyBody (target : Target) (span : String) : Option (List String) :=
  withDeclaration target span fun fragment declaration =>
    match declaration.child? .body with
    | none => some []
    | some body => do
      let bodies ← emptied? target fragment declaration body
      exchangeEach fragment span (bodies.map fun b => (body, b))

/-- **The body replaced by a return of a default value.** -/
def defaultReturn (target : Target) (span : String) : Option (List String) :=
  withDeclaration target span fun fragment declaration =>
    match declaration.child? .body with
    | none => some []
    | some body =>
      exchangeEach fragment span ((ReturnType.ofDeclaration declaration).defaults.map
        fun value => (body, blockOf ("return " ++ value ++ ";")))

/-- Whether the statements below a node belong to the same method. -/
def sameMethod (node : Tree) : Bool :=
  !(node.isA .returnStatement || node.isA .lambdaExpression || node.isA .classBody)

/-- The values that a body returns. -/
def returnedValues (body : Tree) : List Tree :=
  ((body.visit sameMethod).filter (·.isA .returnStatement)).filterMap
    (·.namedChildren.head?)

/-- **One returned value negated.** -/
def negateReturn (target : Target) (span : String) : Option (List String) :=
  withDeclaration target span fun fragment declaration =>
    if ReturnType.ofDeclaration declaration != .boolean then some []
    else
      match declaration.child? .body with
      | none => some []
      | some body => do
        let sites ← (returnedValues body).mapM fun value =>
          (fragment.textOf? value).map fun text => (value, "!(" ++ text ++ ")")
        exchangeEach fragment span sites

end JavaMutants
