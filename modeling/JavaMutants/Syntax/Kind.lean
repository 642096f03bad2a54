/-!
# Kinds of syntax nodes

The named nodes of a syntax tree, and the names under which a node's
children are found in it.
-/

namespace JavaMutants.Syntax

/-- The kinds of named nodes. -/
inductive Kind where
  | program
  | decimalIntegerLiteral
  | hexIntegerLiteral
  | octalIntegerLiteral
  | binaryIntegerLiteral
  | decimalFloatingPointLiteral
  | hexFloatingPointLiteral
  | true_
  | false_
  | characterLiteral
  | stringLiteral
  | stringFragment
  | multilineStringFragment
  | escapeSequence
  | stringInterpolation
  | nullLiteral
  | castExpression
  | assignmentExpression
  | binaryExpression
  | instanceofExpression
  | lambdaExpression
  | inferredParameters
  | ternaryExpression
  | unaryExpression
  | updateExpression
  | arrayCreationExpression
  | dimensionsExpr
  | parenthesizedExpression
  | classLiteral
  | objectCreationExpression
  | fieldAccess
  | templateExpression
  | arrayAccess
  | methodInvocation
  | argumentList
  | methodReference
  | typeArguments
  | wildcard
  | dimensions
  | switchExpression
  | switchBlock
  | switchBlockStatementGroup
  | switchRule
  | switchLabel
  | pattern
  | typePattern
  | recordPattern
  | recordPatternBody
  | recordPatternComponent
  | underscorePattern
  | guard
  | block
  | expressionStatement
  | labeledStatement
  | assertStatement
  | doStatement
  | breakStatement
  | continueStatement
  | returnStatement
  | yieldStatement
  | synchronizedStatement
  | throwStatement
  | tryStatement
  | catchClause
  | catchFormalParameter
  | catchType
  | finallyClause
  | tryWithResourcesStatement
  | resourceSpecification
  | resource
  | ifStatement
  | whileStatement
  | forStatement
  | enhancedForStatement
  | annotationPlain
  | annotationApplied
  | annotationArgumentList
  | elementValuePair
  | elementValueArrayInitializer
  | moduleDeclaration
  | moduleBody
  | requiresModuleDirective
  | requiresModifier
  | exportsModuleDirective
  | opensModuleDirective
  | usesModuleDirective
  | providesModuleDirective
  | packageDeclaration
  | importDeclaration
  | asterisk
  | enumDeclaration
  | enumBody
  | enumBodyDeclarations
  | enumConstant
  | classDeclaration
  | modifiers
  | typeParameters
  | typeParameter
  | typeBound
  | superclass
  | superInterfaces
  | typeList
  | permits
  | classBody
  | staticInitializer
  | constructorDeclaration
  | constructorBody
  | explicitConstructorInvocation
  | scopedIdentifier
  | fieldDeclaration
  | recordDeclaration
  | annotationTypeDeclaration
  | annotationTypeBody
  | annotationTypeElementDeclaration
  | interfaceDeclaration
  | extendsInterfaces
  | interfaceBody
  | constantDeclaration
  | variableDeclarator
  | arrayInitializer
  | annotatedType
  | scopedTypeIdentifier
  | genericType
  | arrayType
  | integralType
  | floatingPointType
  | booleanType
  | voidType
  | formalParameters
  | formalParameter
  | receiverParameter
  | spreadParameter
  | throws_
  | localVariableDeclaration
  | methodDeclaration
  | compactConstructorDeclaration
  | this_
  | super_
  | identifier
  | typeIdentifier
  | lineComment
  | blockComment
deriving DecidableEq, Repr

/-- The name of a kind. -/
def Kind.text : Kind → String
  | .program => "program"
  | .decimalIntegerLiteral => "decimal_integer_literal"
  | .hexIntegerLiteral => "hex_integer_literal"
  | .octalIntegerLiteral => "octal_integer_literal"
  | .binaryIntegerLiteral => "binary_integer_literal"
  | .decimalFloatingPointLiteral => "decimal_floating_point_literal"
  | .hexFloatingPointLiteral => "hex_floating_point_literal"
  | .true_ => "true"
  | .false_ => "false"
  | .characterLiteral => "character_literal"
  | .stringLiteral => "string_literal"
  | .stringFragment => "string_fragment"
  | .multilineStringFragment => "multiline_string_fragment"
  | .escapeSequence => "escape_sequence"
  | .stringInterpolation => "string_interpolation"
  | .nullLiteral => "null_literal"
  | .castExpression => "cast_expression"
  | .assignmentExpression => "assignment_expression"
  | .binaryExpression => "binary_expression"
  | .instanceofExpression => "instanceof_expression"
  | .lambdaExpression => "lambda_expression"
  | .inferredParameters => "inferred_parameters"
  | .ternaryExpression => "ternary_expression"
  | .unaryExpression => "unary_expression"
  | .updateExpression => "update_expression"
  | .arrayCreationExpression => "array_creation_expression"
  | .dimensionsExpr => "dimensions_expr"
  | .parenthesizedExpression => "parenthesized_expression"
  | .classLiteral => "class_literal"
  | .objectCreationExpression => "object_creation_expression"
  | .fieldAccess => "field_access"
  | .templateExpression => "template_expression"
  | .arrayAccess => "array_access"
  | .methodInvocation => "method_invocation"
  | .argumentList => "argument_list"
  | .methodReference => "method_reference"
  | .typeArguments => "type_arguments"
  | .wildcard => "wildcard"
  | .dimensions => "dimensions"
  | .switchExpression => "switch_expression"
  | .switchBlock => "switch_block"
  | .switchBlockStatementGroup => "switch_block_statement_group"
  | .switchRule => "switch_rule"
  | .switchLabel => "switch_label"
  | .pattern => "pattern"
  | .typePattern => "type_pattern"
  | .recordPattern => "record_pattern"
  | .recordPatternBody => "record_pattern_body"
  | .recordPatternComponent => "record_pattern_component"
  | .underscorePattern => "underscore_pattern"
  | .guard => "guard"
  | .block => "block"
  | .expressionStatement => "expression_statement"
  | .labeledStatement => "labeled_statement"
  | .assertStatement => "assert_statement"
  | .doStatement => "do_statement"
  | .breakStatement => "break_statement"
  | .continueStatement => "continue_statement"
  | .returnStatement => "return_statement"
  | .yieldStatement => "yield_statement"
  | .synchronizedStatement => "synchronized_statement"
  | .throwStatement => "throw_statement"
  | .tryStatement => "try_statement"
  | .catchClause => "catch_clause"
  | .catchFormalParameter => "catch_formal_parameter"
  | .catchType => "catch_type"
  | .finallyClause => "finally_clause"
  | .tryWithResourcesStatement => "try_with_resources_statement"
  | .resourceSpecification => "resource_specification"
  | .resource => "resource"
  | .ifStatement => "if_statement"
  | .whileStatement => "while_statement"
  | .forStatement => "for_statement"
  | .enhancedForStatement => "enhanced_for_statement"
  | .annotationPlain => "marker_annotation"
  | .annotationApplied => "annotation"
  | .annotationArgumentList => "annotation_argument_list"
  | .elementValuePair => "element_value_pair"
  | .elementValueArrayInitializer => "element_value_array_initializer"
  | .moduleDeclaration => "module_declaration"
  | .moduleBody => "module_body"
  | .requiresModuleDirective => "requires_module_directive"
  | .requiresModifier => "requires_modifier"
  | .exportsModuleDirective => "exports_module_directive"
  | .opensModuleDirective => "opens_module_directive"
  | .usesModuleDirective => "uses_module_directive"
  | .providesModuleDirective => "provides_module_directive"
  | .packageDeclaration => "package_declaration"
  | .importDeclaration => "import_declaration"
  | .asterisk => "asterisk"
  | .enumDeclaration => "enum_declaration"
  | .enumBody => "enum_body"
  | .enumBodyDeclarations => "enum_body_declarations"
  | .enumConstant => "enum_constant"
  | .classDeclaration => "class_declaration"
  | .modifiers => "modifiers"
  | .typeParameters => "type_parameters"
  | .typeParameter => "type_parameter"
  | .typeBound => "type_bound"
  | .superclass => "superclass"
  | .superInterfaces => "super_interfaces"
  | .typeList => "type_list"
  | .permits => "permits"
  | .classBody => "class_body"
  | .staticInitializer => "static_initializer"
  | .constructorDeclaration => "constructor_declaration"
  | .constructorBody => "constructor_body"
  | .explicitConstructorInvocation => "explicit_constructor_invocation"
  | .scopedIdentifier => "scoped_identifier"
  | .fieldDeclaration => "field_declaration"
  | .recordDeclaration => "record_declaration"
  | .annotationTypeDeclaration => "annotation_type_declaration"
  | .annotationTypeBody => "annotation_type_body"
  | .annotationTypeElementDeclaration => "annotation_type_element_declaration"
  | .interfaceDeclaration => "interface_declaration"
  | .extendsInterfaces => "extends_interfaces"
  | .interfaceBody => "interface_body"
  | .constantDeclaration => "constant_declaration"
  | .variableDeclarator => "variable_declarator"
  | .arrayInitializer => "array_initializer"
  | .annotatedType => "annotated_type"
  | .scopedTypeIdentifier => "scoped_type_identifier"
  | .genericType => "generic_type"
  | .arrayType => "array_type"
  | .integralType => "integral_type"
  | .floatingPointType => "floating_point_type"
  | .booleanType => "boolean_type"
  | .voidType => "void_type"
  | .formalParameters => "formal_parameters"
  | .formalParameter => "formal_parameter"
  | .receiverParameter => "receiver_parameter"
  | .spreadParameter => "spread_parameter"
  | .throws_ => "throws"
  | .localVariableDeclaration => "local_variable_declaration"
  | .methodDeclaration => "method_declaration"
  | .compactConstructorDeclaration => "compact_constructor_declaration"
  | .this_ => "this"
  | .super_ => "super"
  | .identifier => "identifier"
  | .typeIdentifier => "type_identifier"
  | .lineComment => "line_comment"
  | .blockComment => "block_comment"

/-- The names of children. -/
inductive Field where
  | alternative
  | arguments
  | array
  | body
  | condition
  | consequence
  | constructor_
  | declarator
  | dimensions
  | element
  | field_
  | index
  | init_
  | interfaces
  | key
  | left
  | module_
  | modules
  | name
  | object
  | operand
  | operator
  | package
  | parameters
  | pattern
  | permits
  | provided
  | provider
  | resources
  | right
  | scope
  | superclass
  | templateArgument
  | templateProcessor
  | type_
  | typeArguments
  | typeParameters
  | update
  | value
  | modifiers
deriving DecidableEq, Repr

end JavaMutants.Syntax
