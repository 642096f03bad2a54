import JavaMutants.Syntax.Rule

/-!
# The grammar

The source language as a set of rules. It is wider than what a compiler
takes: methods and statements may stand outside of any class, any
expression is a statement, and a word with a meaning is a name wherever
that meaning has no place (`Words`).

The rules are tried in order, so the order settles what could be read in
two ways: a declaration comes before an expression, a lambda expression
before a cast and a cast before an expression in parentheses, a type with
arguments before a comparison. An `else` belongs to the nearest `if`.
Operators bind by the level they stand at (`operators`), those of one
level from the left; a lambda expression or an assignment as the last
operand takes in all that follows it.
-/

namespace JavaMutants.Syntax

/-! ## Words with a meaning -/

namespace Words

/-- The names of the primitive types. -/
def primitives : List Keyword := [
  .byte_, .short_, .int_, .long_, .char_, .float_, .double_, .boolean_, .void_ ]

/-- The words with a meaning where an expression may begin. -/
def expression : List Keyword :=
  primitives ++ [.new_, .this_, .super_, .switch_, .true_, .false_, .null_]

/-- The words that modify a declaration. -/
def modifiers : List Keyword := [
  .public_, .protected_, .private_, .abstract_, .static_, .final_, .strictfp_, .default_,
  .synchronized_, .native_, .transient_, .volatile_, .sealed_ ]

/-- The words that are names in expressions, yet never names of types
where an expression may begin. -/
def reserved : List Keyword := [.open_, .module_, .record_, .with_, .sealed_, .yield_]

/-- The words that begin statements and declarations. -/
def statement : List Keyword := [
  .if_, .while_, .for_, .do_, .break_, .continue_, .return_, .synchronized_, .throw_, .try_,
  .assert_, .package_, .import_, .class_, .interface_, .enum_ ]

/-- The words that no expression may begin with where a statement may. -/
def notInStatement : List Keyword :=
  statement ++ modifiers.filter fun k => !reserved.contains k

/-- The words that may not follow the dot of a qualified name in an
expression. -/
def afterDot : List Keyword := [.class_, .new_, .this_, .super_]

/-- The words that cannot be names of types where a statement may
begin. -/
def notTypeInStatement : List Keyword := expression ++ reserved ++ notInStatement

/-- The words that cannot be names of types where a member of a type may
begin. -/
def notTypeInBody : List Keyword :=
  expression ++ modifiers ++ [.class_, .interface_, .enum_, .record_]

end Words

/-- Where a type stands, which tells what words can be its name. -/
inductive Place where
  /-- Where nothing but a type can stand. -/
  | alone
  /-- Where a statement may begin. -/
  | statement
  /-- Where a member of a type may begin. -/
  | body
deriving DecidableEq, Repr

/-- The words that cannot name a type in a place. -/
def Place.taken : Place → List Keyword
  | .alone => Words.expression
  | .statement => Words.notTypeInStatement
  | .body => Words.notTypeInBody

/-- **The parts of the grammar.** An expression knows whether a lambda
expression may stand in it outside of brackets: after `case` an arrow
ends the label. -/
inductive Part where
  | node (kind : Kind)
  | expression (lambdas : Bool)
  | binary (lambdas : Bool) (level : Nat)
  | unary (lambdas : Bool)
  | operand (lambdas : Bool)
  | primary
  | atom
  | creation
  | statement
  | declaration
  | topLevel
  | member
  | modifiers
  | annotations
  | annotationAny
  | qualifiedName
  | type
  | plainType (place : Place)
  | simpleType (place : Place)
  | dimensions
  | declaratorId
  | declarators
  | initializer
  | elementValue
  | string
  | formalParameters
  | typeArguments
  | arguments
  | parenthesized
  | block
  | classBody
  | switchLabel (lambdas : Bool)
deriving DecidableEq, Repr

namespace Grammar

open Rule

/-! ## Abbreviations -/

/-- A rule of the grammar. -/
abbrev Rules := Rule Part

/-- The part of a kind of nodes. -/
def the (k : Kind) : Rules := part (.node k)

/-- A full expression. -/
def expr : Rules := part (.expression true)

/-- A name. -/
def ident : Rules := name .identifier []

/-- A statement. -/
def stmt : Rules := part .statement

/-- Modifiers, if there are any. -/
def mods : Rules := opt (part .modifiers)

/-- A rule in round brackets. -/
def parens (r : Rules) : Rules := seq [sym .parenOpen, r, sym .parenClose]

/-- A rule in braces. -/
def braces (r : Rules) : Rules := seq [sym .braceOpen, r, sym .braceClose]

/-- Arguments of a type or of a call, if there are any. -/
def typeArgs? : Rules := opt (field .typeArguments (part .typeArguments))

/-- The name of a declaration. -/
def declName : Rules := field .name ident

/-- Type parameters, if there are any. -/
def typeParams? : Rules := opt (field .typeParameters (the .typeParameters))

/-! ## Expressions -/

/-- **The operators of each level**, from the loosest to the tightest. -/
def operators : Nat → List Punct
  | 0 => [.orOr]
  | 1 => [.andAnd]
  | 2 => [.bar]
  | 3 => [.caret]
  | 4 => [.amp]
  | 5 => [.eq, .ne]
  | 6 => [.lt, .gt, .le, .ge]
  | 7 => [.shl, .shr, .ushr]
  | 8 => [.plus, .minus]
  | _ => [.star, .slash, .percent]

/-- The operators that assign. -/
def assignments : List Punct := [
  .assign, .addAssign, .subAssign, .mulAssign, .divAssign, .andAssign, .orAssign, .xorAssign,
  .remAssign, .shlAssign, .shrAssign, .ushrAssign ]

/-- What a type test asks for. -/
def tested : Rules := alt [
  field .pattern (the .recordPattern),
  both (field .right (part .type)) (opt (field .name (name .identifier Words.expression))) ]

/-- The operands and operators of a level. -/
def level (lambdas : Bool) (n : Nat) : Rules :=
  let next : Rules := if n < 9 then part (.binary lambdas (n + 1)) else part (.unary lambdas)
  let step := wrap [] .binaryExpression (some .left)
    (both (field .operator (alt ((operators n).map sym))) (field .right next))
  let test := wrap [] .instanceofExpression (some .left)
    (seq [key .instanceof_, opt (key .final_), tested])
  grow next (if n = 6 then either step test else step)

/-- The parameters of a lambda expression. -/
def lambdaParameters : Rules := alt [
  name .identifier Words.expression, part .formalParameters,
  tree .inferredParameters (parens (commas1 ident)) ]

/-- A lambda expression. -/
def lambda : Rules := tree .lambdaExpression (seq [
  field .parameters lambdaParameters, sym .arrow,
  field .body (either (part .block) expr) ])

/-- A cast, to one type or to several at once. -/
def cast (lambdas : Bool) : Rules := tree .castExpression (seq [
  parens (sep1 (field .type_ (part .type)) .amp),
  field .value (part (.unary lambdas)) ])

/-- A primary expression, and what is assigned to it. -/
def assigned (lambdas : Bool) : Rules := onto (part .primary) (either
  (wrap [.identifier, .fieldAccess, .arrayAccess] .assignmentExpression (some .left) (both
    (field .operator (alt (assignments.map sym)))
    (field .right (part (.expression lambdas))))) keep)

/-- A class literal, or a reference to a method of a type. -/
def ofType : Rules := onto (part (.plainType .alone)) (either
  (wrap [] .classLiteral none (both (sym .dot) (key .class_)))
  (wrap [] .methodReference none (seq [
    sym .colonColon, opt (part .typeArguments), either (key .new_) ident ])))

/-- What follows the object of a call or of an access. -/
def member : Rules := name .identifier Words.afterDot

/-- A step from an object to something of it. -/
def access : Rules := alt [
  wrap [] .methodInvocation (some .object) (seq [
    sym .dot, opt (both (word .super_ (.named .super_)) (sym .dot)), typeArgs?,
    field .name member, field .arguments (part .arguments) ]),
  wrap [] .fieldAccess (some .object) (seq [
    opt (both (sym .dot) (word .super_ (.named .super_))), sym .dot,
    field .field_ (either member (word .this_ (.named .this_))) ]) ]

/-- A step from a primary expression to a larger one. -/
def primaryStep : Rules := alt [
  access,
  wrap [] .arrayAccess (some .array) (seq [
    sym .bracketOpen, field .index expr, sym .bracketClose ]),
  wrap [] .objectCreationExpression none (both (sym .dot) (part .creation)),
  wrap [] .templateExpression (some .templateProcessor)
    (both (sym .dot) (field .templateArgument (part .string))),
  wrap [] .methodReference none (seq [
    sym .colonColon, opt (part .typeArguments), either (key .new_) ident ]) ]

/-- What begins with `super`. -/
def ofSuper : Rules := onto (word .super_ (.named .super_)) (either access
  (wrap [] .methodReference none (seq [
    sym .colonColon, opt (part .typeArguments), either (key .new_) ident ])))

/-- Literals. -/
def literal : Rules := alt [
  piece .decimalIntegerLiteral, piece .hexIntegerLiteral, piece .octalIntegerLiteral,
  piece .binaryIntegerLiteral, piece .decimalFloatingPointLiteral,
  piece .hexFloatingPointLiteral, word .true_ (.named .true_), word .false_ (.named .false_),
  piece .characterLiteral, part .string, word .null_ (.named .nullLiteral) ]

/-- A new array. -/
def arrayCreation : Rules := tree .arrayCreationExpression (seq [
  key .new_, part .annotations, field .type_ (part (.simpleType .alone)), either
    (both (field .dimensions (many1 (the .dimensionsExpr)))
      (opt (field .dimensions (part .dimensions))))
    (both (field .dimensions (part .dimensions)) (field .value (the .arrayInitializer))) ])

/-- Expressions that nothing needs to come before. -/
def atom : Rules := alt [
  ofType,
  onto (name .identifier Words.expression) (either
    (wrap [] .methodInvocation (some .name) (field .arguments (part .arguments))) keep),
  literal,
  part .parenthesized,
  word .this_ (.named .this_),
  tree .objectCreationExpression (part .creation),
  arrayCreation,
  ofSuper ]

/-! ## Nodes -/

/-- What a node of a kind consists of. -/
def body : Kind → Rules
  | .program => both (many (part .topLevel)) finish
  -- expressions
  | .parenthesizedExpression => parens expr
  | .argumentList => parens (commas expr)
  | .dimensionsExpr => seq [part .annotations, sym .bracketOpen, expr, sym .bracketClose]
  | .arrayInitializer =>
    braces (both (commas (part .initializer)) (opt (sym .comma)))
  | .stringInterpolation => seq [sym .interpolate, expr, sym .braceClose]
  | .typeArguments =>
    seq [sym .lt, commas (either (the .wildcard) (part .type)), angle]
  | .wildcard => seq [part .annotations, sym .question, opt (either
      (both (key .extends_) (part .type))
      (both (word .super_ (.named .super_)) (part .type))) ]
  | .dimensions =>
    many1 (seq [part .annotations, sym .bracketOpen, sym .bracketClose])
  | .switchExpression => seq [
      key .switch_, field .condition (part .parenthesized), field .body (the .switchBlock) ]
  | .switchBlock => alt [
      braces (many1 (the .switchRule)), braces (many (the .switchBlockStatementGroup)) ]
  | .switchBlockStatementGroup => both
      (many1 (both (part (.switchLabel true)) (sym .colon)))
      (many (both (barring [.word (some .case_), .word (some .default_)]) stmt))
  | .switchRule => seq [part (.switchLabel false), sym .arrow, alt [
      the .expressionStatement, the .throwStatement, part .block ] ]
  | .pattern => either (the .recordPattern) (the .typePattern)
  | .typePattern => both (part (.plainType .alone)) (name .identifier [.when_])
  | .recordPattern =>
    both (either
        (onto (name .typeIdentifier Words.expression)
          (wrap [] .genericType none (part .typeArguments)))
        ident)
      (the .recordPatternBody)
  | .recordPatternBody =>
    parens (commas (either (the .recordPattern) (the .recordPatternComponent)))
  | .recordPatternComponent => either
      (both (part (.plainType .alone)) ident)
      (word .underscore (.named .underscorePattern))
  -- statements
  | .block => braces (many stmt)
  | .expressionStatement => seq [
      barring (Words.notInStatement.map fun k => .word (some k)), expr, sym .semicolon ]
  | .labeledStatement => seq [
      name .identifier (Words.notTypeInStatement), sym .colon, stmt ]
  | .assertStatement => seq [
      key .assert_, expr, opt (both (sym .colon) expr), sym .semicolon ]
  | .doStatement => seq [
      key .do_, field .body stmt, key .while_, field .condition (part .parenthesized),
      sym .semicolon ]
  | .breakStatement => seq [key .break_, opt ident, sym .semicolon]
  | .continueStatement => seq [key .continue_, opt ident, sym .semicolon]
  | .returnStatement => seq [key .return_, opt expr, sym .semicolon]
  | .yieldStatement => seq [key .yield_, expr, sym .semicolon]
  | .synchronizedStatement => seq [
      key .synchronized_, part .parenthesized, field .body (part .block) ]
  | .throwStatement => seq [key .throw_, expr, sym .semicolon]
  | .tryStatement => seq [key .try_, field .body (part .block), either
      (both (many (the .catchClause)) (the .finallyClause))
      (many1 (the .catchClause)) ]
  | .catchClause => seq [
      key .catch_, parens (the .catchFormalParameter), field .body (part .block) ]
  | .catchFormalParameter => seq [mods, the .catchType, part .declaratorId]
  | .catchType => sep1 (part (.plainType .alone)) .bar
  | .finallyClause => both (key .finally_) (part .block)
  | .tryWithResourcesStatement => seq [
      key .try_, field .resources (the .resourceSpecification), field .body (part .block),
      many (the .catchClause), opt (the .finallyClause) ]
  | .resourceSpecification =>
    parens (both (sep1 (the .resource) .semicolon) (opt (sym .semicolon)))
  | .resource => either
      (seq [mods, field .type_ (part (.plainType .alone)), part .declaratorId, sym .assign,
        field .value expr])
      (grow (either (word .this_ (.named .this_)) ident) (wrap [] .fieldAccess (some .object)
        (both (sym .dot) (field .field_ (either member (word .this_ (.named .this_)))))))
  | .ifStatement => seq [
      key .if_, field .condition (part .parenthesized), field .consequence stmt,
      opt (both (key .else_) (field .alternative stmt)) ]
  | .whileStatement => seq [
      key .while_, field .condition (part .parenthesized), field .body stmt ]
  | .forStatement => seq [
      key .for_, sym .parenOpen, either
        (field .init_ (the .localVariableDeclaration))
        (both (commas (field .init_ expr)) (sym .semicolon)),
      opt (field .condition expr), sym .semicolon, commas (field .update expr),
      sym .parenClose, field .body stmt ]
  | .enhancedForStatement => seq [
      key .for_, sym .parenOpen, mods, field .type_ (part (.plainType .statement)),
      part .declaratorId, sym .colon, field .value expr, sym .parenClose, field .body stmt ]
  -- annotations
  | .annotationPlain => both (sym .at) (field .name (part .qualifiedName))
  | .annotationApplied => seq [
      sym .at, field .name (part .qualifiedName),
      field .arguments (the .annotationArgumentList) ]
  | .annotationArgumentList => alt [
      parens (commas1 (the .elementValuePair)), parens (part .elementValue), parens nothing ]
  | .elementValuePair => seq [
      field .key ident, sym .assign, field .value (part .elementValue) ]
  | .elementValueArrayInitializer =>
    braces (both (commas (part .elementValue)) (opt (sym .comma)))
  -- modules and packages
  | .moduleDeclaration => seq [
      part .annotations, opt (key .open_), key .module_, field .name (part .qualifiedName),
      field .body (the .moduleBody) ]
  | .moduleBody => braces (many (alt [
      the .requiresModuleDirective, the .exportsModuleDirective, the .opensModuleDirective,
      the .usesModuleDirective, the .providesModuleDirective ]))
  | .requiresModuleDirective => seq [
      key .requires_, many (field .modifiers (the .requiresModifier)),
      field .module_ (part .qualifiedName), sym .semicolon ]
  | .requiresModifier => either (key .transitive_) (key .static_)
  | .exportsModuleDirective => seq [
      key .exports_, field .package (part .qualifiedName),
      opt (both (key .to_) (commas1 (field .modules (part .qualifiedName)))), sym .semicolon ]
  | .opensModuleDirective => seq [
      key .opens_, field .package (part .qualifiedName),
      opt (both (key .to_) (commas1 (field .modules (part .qualifiedName)))), sym .semicolon ]
  | .usesModuleDirective => seq [
      key .uses_, field .type_ (part .qualifiedName), sym .semicolon ]
  | .providesModuleDirective => seq [
      key .provides_, field .provided (part .qualifiedName), key .with_,
      commas1 (field .provider (part .qualifiedName)), sym .semicolon ]
  | .packageDeclaration => seq [
      part .annotations, key .package_, part .qualifiedName, sym .semicolon ]
  | .importDeclaration => seq [
      key .import_, opt (key .static_), part .qualifiedName,
      opt (both (sym .dot) (mark .star (.named .asterisk))), sym .semicolon ]
  -- types and their members
  | .classDeclaration => seq [
      mods, key .class_, declName, typeParams?, opt (field .superclass (the .superclass)),
      opt (field .interfaces (the .superInterfaces)), opt (field .permits (the .permits)),
      field .body (part .classBody) ]
  | .superclass => both (key .extends_) (part .type)
  | .superInterfaces => both (key .implements_) (the .typeList)
  | .permits => both (key .permits_) (the .typeList)
  | .typeList => commas1 (part .type)
  | .classBody => braces (many (part .member))
  | .staticInitializer => both (key .static_) (part .block)
  | .constructorDeclaration => seq [
      mods, typeParams?, field .name (name .identifier Words.notTypeInBody),
      field .parameters (part .formalParameters), opt (the .throws_),
      field .body (the .constructorBody) ]
  | .compactConstructorDeclaration => seq [
      mods, field .name (name .identifier Words.notTypeInBody), field .body (part .block) ]
  | .constructorBody =>
    braces (both (opt (the .explicitConstructorInvocation)) (many stmt))
  | .explicitConstructorInvocation => seq [
      either
        (both typeArgs? (field .constructor_ (either
          (word .this_ (.named .this_)) (word .super_ (.named .super_)))))
        (seq [field .object (part .primary), sym .dot, typeArgs?,
          field .constructor_ (word .super_ (.named .super_))]),
      field .arguments (part .arguments), sym .semicolon ]
  | .fieldDeclaration => seq [
      mods, field .type_ (part (.plainType .body)), part .declarators, sym .semicolon ]
  | .constantDeclaration => seq [
      mods, field .type_ (part (.plainType .body)), part .declarators, sym .semicolon ]
  | .localVariableDeclaration => seq [
      mods, field .type_ (part (.plainType .statement)), part .declarators, sym .semicolon ]
  | .variableDeclarator => both (part .declaratorId)
      (opt (both (sym .assign) (field .value (part .initializer))))
  | .methodDeclaration => seq [
      mods,
      opt (both (field .typeParameters (the .typeParameters)) (part .annotations)),
      field .type_ (part (.plainType .body)), declName,
      field .parameters (part .formalParameters), opt (field .dimensions (part .dimensions)),
      opt (the .throws_), either (field .body (part .block)) (sym .semicolon) ]
  | .throws_ => both (key .throws_) (commas1 (part .type))
  | .formalParameters => parens (either
      (both (the .receiverParameter) (opt (both (sym .comma)
        (commas (either (the .formalParameter) (the .spreadParameter))))))
      (commas (either (the .formalParameter) (the .spreadParameter))))
  | .formalParameter => seq [
      mods, field .type_ (part (.plainType .body)), part .declaratorId ]
  | .receiverParameter => seq [
      part .annotations, part (.plainType .body), many (both ident (sym .dot)),
      word .this_ (.named .this_) ]
  | .spreadParameter => seq [
      mods, part (.plainType .body), sym .ellipsis, part .annotations,
      the .variableDeclarator ]
  | .typeParameters => seq [sym .lt, commas1 (the .typeParameter), angle]
  | .typeParameter => seq [part .annotations, name .typeIdentifier [], opt (the .typeBound)]
  | .typeBound => both (key .extends_) (sep1 (part .type) .amp)
  | .recordDeclaration => seq [
      mods, key .record_, declName, typeParams?, field .parameters (part .formalParameters),
      opt (field .interfaces (the .superInterfaces)), field .body (part .classBody) ]
  | .enumDeclaration => seq [
      mods, key .enum_, declName, opt (field .interfaces (the .superInterfaces)),
      field .body (the .enumBody) ]
  | .enumBody => braces (seq [
      commas (the .enumConstant), opt (sym .comma), opt (the .enumBodyDeclarations) ])
  | .enumConstant => seq [
      mods, field .name (name .identifier Words.modifiers),
      opt (field .arguments (part .arguments)), opt (field .body (part .classBody)) ]
  | .enumBodyDeclarations => both (sym .semicolon) (many (part .member))
  | .interfaceDeclaration => seq [
      mods, key .interface_, declName, typeParams?, opt (the .extendsInterfaces),
      opt (field .permits (the .permits)), field .body (the .interfaceBody) ]
  | .extendsInterfaces => both (key .extends_) (the .typeList)
  | .interfaceBody => braces (many (alt [
      the .constantDeclaration, the .enumDeclaration, the .methodDeclaration,
      the .classDeclaration, the .interfaceDeclaration, the .recordDeclaration,
      the .annotationTypeDeclaration, sym .semicolon ]))
  | .annotationTypeDeclaration => seq [
      mods, sym .atInterface, declName, field .body (the .annotationTypeBody) ]
  | .annotationTypeBody => braces (many (alt [
      the .annotationTypeElementDeclaration, the .constantDeclaration, the .classDeclaration,
      the .interfaceDeclaration, the .enumDeclaration, the .annotationTypeDeclaration,
      sym .semicolon ]))
  | .annotationTypeElementDeclaration => seq [
      mods, field .type_ (part (.plainType .body)), declName, parens nothing,
      opt (field .dimensions (part .dimensions)),
      opt (both (key .default_) (field .value (part .elementValue))), sym .semicolon ]
  | _ => nothing

/-- **The rules of all parts.** -/
def rules : Part → Rules
  | .node k => tree k (body k)
  -- expressions
  | .expression lambdas => grow (part (.binary lambdas 0))
      (wrap [] .ternaryExpression (some .condition) (seq [
        sym .question, field .consequence expr, sym .colon,
        field .alternative (part (.expression lambdas)) ]))
  | .binary lambdas n => level lambdas n
  | .unary lambdas => alt [
      tree .unaryExpression (both
        (field .operator (alt [sym .plus, sym .minus, sym .bang, sym .tilde]))
        (field .operand (part (.unary lambdas)))),
      tree .updateExpression (both
        (either (sym .increment) (sym .decrement)) (part (.unary lambdas))),
      grow (part (.operand lambdas))
        (wrap [] .updateExpression none (either (sym .increment) (sym .decrement))) ]
  | .operand lambdas => alt ((if lambdas then [lambda] else []) ++ [
      cast lambdas, the .switchExpression, assigned lambdas ])
  | .primary => grow (part .atom) primaryStep
  | .atom => atom
  | .creation => seq [
      key .new_, part .annotations,
      opt (both (field .typeArguments (part .typeArguments)) (part .annotations)),
      field .type_ (part (.simpleType .alone)), field .arguments (part .arguments),
      opt (part .classBody) ]
  | .arguments => the .argumentList
  | .parenthesized => the .parenthesizedExpression
  | .string => tree .stringLiteral (either
      (seq [sym .quote, many (alt [
        piece .stringFragment, piece .escapeSequence, the .stringInterpolation ]), sym .quote])
      (seq [sym .textQuote, many (alt [
        piece .multilineStringFragment, piece .escapeSequence, the .stringInterpolation ]),
        sym .textQuote]))
  | .switchLabel lambdas => tree .switchLabel (either
      (key .default_)
      (seq [key .case_, either
          (both (the .pattern) (barring [.punct .comma]))
          (commas1 (part (.expression lambdas))),
        opt (tree .guard (both (key .when_) (part (.expression lambdas)))) ]))
  -- statements
  | .statement => alt [
      part .block, sym .semicolon, the .ifStatement, the .whileStatement,
      the .enhancedForStatement, the .forStatement, the .assertStatement, the .doStatement,
      the .breakStatement, the .continueStatement, the .returnStatement, the .yieldStatement,
      the .synchronizedStatement, the .throwStatement, the .tryStatement,
      the .tryWithResourcesStatement,
      both (the .switchExpression) (barring [
        .punct .question, .punct .dot, .word (some .instanceof_), .punct .lt, .punct .gt,
        .punct .le, .punct .ge, .punct .eq, .punct .ne, .punct .andAnd, .punct .orOr,
        .punct .star, .punct .slash, .punct .percent, .punct .amp, .punct .bar,
        .punct .caret, .punct .shl, .punct .shr, .punct .ushr ]),
      part .declaration, the .labeledStatement, the .localVariableDeclaration,
      the .expressionStatement ]
  | .declaration => alt [
      the .moduleDeclaration, the .packageDeclaration, the .importDeclaration,
      the .classDeclaration, the .recordDeclaration, the .interfaceDeclaration,
      the .annotationTypeDeclaration, the .enumDeclaration ]
  | .topLevel => either stmt (the .methodDeclaration)
  | .block => the .block
  -- declarations
  | .member => alt [
      the .fieldDeclaration, the .methodDeclaration, the .classDeclaration,
      the .interfaceDeclaration, the .annotationTypeDeclaration, the .enumDeclaration,
      the .recordDeclaration, part .block, the .staticInitializer,
      the .constructorDeclaration, the .compactConstructorDeclaration, sym .semicolon ]
  | .classBody => the .classBody
  | .modifiers => tree .modifiers (many1 (alt
      (part .annotationAny :: sym .nonSealed :: Words.modifiers.map key)))
  | .annotations => many (part .annotationAny)
  | .annotationAny => either (the .annotationApplied) (the .annotationPlain)
  | .qualifiedName => grow ident (wrap [] .scopedIdentifier (some .scope)
      (both (sym .dot) (field .name ident)))
  | .declaratorId => both
      (field .name (either (word .underscore (.named .underscorePattern)) ident))
      (opt (field .dimensions (part .dimensions)))
  | .declarators => commas1 (field .declarator (the .variableDeclarator))
  | .initializer => either expr (the .arrayInitializer)
  | .elementValue => alt [
      expr, the .elementValueArrayInitializer, part .annotationAny ]
  | .formalParameters => the .formalParameters
  -- types
  | .type => either
      (tree .annotatedType (both (many1 (part .annotationAny)) (part (.plainType .alone))))
      (part (.plainType .alone))
  | .plainType place => onto (part (.simpleType place)) (either
      (wrap [] .arrayType (some .element) (field .dimensions (part .dimensions))) keep)
  | .simpleType place => alt [
      tree .integralType (alt [
        key .byte_, key .short_, key .int_, key .long_, key .char_ ]),
      tree .floatingPointType (either (key .float_) (key .double_)),
      word .boolean_ (.named .booleanType),
      word .void_ (.named .voidType),
      grow (name .typeIdentifier place.taken) (either
        (wrap [.typeIdentifier, .scopedTypeIdentifier] .genericType none
          (part .typeArguments))
        (wrap [.typeIdentifier, .scopedTypeIdentifier, .genericType]
          .scopedTypeIdentifier none
          (seq [sym .dot, part .annotations, name .typeIdentifier Words.afterDot]))) ]
  | .typeArguments => the .typeArguments
  | .dimensions => the .dimensions

end Grammar

end JavaMutants.Syntax
