/-!
What the parts of a source are, as its grammar names them.
-/

namespace SourceBlocks

inductive Kind where
  | token
  | hidden
  | module
  | block
  | expressionStatement
  | returnStatement
  | deleteStatement
  | raiseStatement
  | passStatement
  | breakStatement
  | continueStatement
  | globalStatement
  | nonlocalStatement
  | assertStatement
  | printStatement
  | execStatement
  | importStatement
  | importFromStatement
  | futureImportStatement
  | ifStatement
  | forStatement
  | whileStatement
  | tryStatement
  | withStatement
  | functionDefinition
  | classDefinition
  | decoratedDefinition
  | matchStatement
  | typeAliasStatement
  | elifClause
  | elseClause
  | exceptClause
  | finallyClause
  | withClause
  | withItem
  | decorator
  | chevron
  | aliasedImport
  | wildcardImport
  | dottedName
  | relativeImport
  | parameters
  | keywordSeparator
  | positionalSeparator
  | typedParameter
  | defaultParameter
  | typedDefaultParameter
  | argumentList
  | keywordArgument
  | dictionarySplat
  | listSplat
  | identifier
  | number
  | constant
  | ellipsis
  | string
  | concatenatedString
  | parenthesizedExpression
  | type
  | asPattern
  | asPatternTarget
  | tuple
  | expressionList
  | list
  | set
  | dictionary
  | pair
  | listComprehension
  | setComprehension
  | generatorExpression
  | dictionaryComprehension
  | forInClause
  | ifClause
  | binaryOperator
  | unaryOperator
  | notOperator
  | booleanOperator
  | comparisonOperator
  | conditionalExpression
  | namedExpression
  | lambda
  | await
  | yield
  | member
  | subscript
  | slice
  | call
  | assignment
  | augmentedAssignment
  | other (name : String)
deriving DecidableEq, Repr

namespace Kind

def name : Kind → String
  | .token => ""
  | .hidden => ""
  | .module => "module"
  | .block => "block"
  | .expressionStatement => "expression_statement"
  | .returnStatement => "return_statement"
  | .deleteStatement => "delete_statement"
  | .raiseStatement => "raise_statement"
  | .passStatement => "pass_statement"
  | .breakStatement => "break_statement"
  | .continueStatement => "continue_statement"
  | .globalStatement => "global_statement"
  | .nonlocalStatement => "nonlocal_statement"
  | .assertStatement => "assert_statement"
  | .printStatement => "print_statement"
  | .execStatement => "exec_statement"
  | .importStatement => "import_statement"
  | .importFromStatement => "import_from_statement"
  | .futureImportStatement => "future_import_statement"
  | .ifStatement => "if_statement"
  | .forStatement => "for_statement"
  | .whileStatement => "while_statement"
  | .tryStatement => "try_statement"
  | .withStatement => "with_statement"
  | .functionDefinition => "function_definition"
  | .classDefinition => "class_definition"
  | .decoratedDefinition => "decorated_definition"
  | .matchStatement => "match_statement"
  | .typeAliasStatement => "type_alias_statement"
  | .elifClause => "elif_clause"
  | .elseClause => "else_clause"
  | .exceptClause => "except_clause"
  | .finallyClause => "finally_clause"
  | .withClause => "with_clause"
  | .withItem => "with_item"
  | .decorator => "decorator"
  | .chevron => "chevron"
  | .aliasedImport => "aliased_import"
  | .wildcardImport => "wildcard_import"
  | .dottedName => "dotted_name"
  | .relativeImport => "relative_import"
  | .parameters => "parameters"
  | .keywordSeparator => "keyword_separator"
  | .positionalSeparator => "positional_separator"
  | .typedParameter => "typed_parameter"
  | .defaultParameter => "default_parameter"
  | .typedDefaultParameter => "typed_default_parameter"
  | .argumentList => "argument_list"
  | .keywordArgument => "keyword_argument"
  | .dictionarySplat => "dictionary_splat"
  | .listSplat => "list_splat"
  | .identifier => "identifier"
  | .number => "integer"
  | .constant => "none"
  | .ellipsis => "ellipsis"
  | .string => "string"
  | .concatenatedString => "concatenated_string"
  | .parenthesizedExpression => "parenthesized_expression"
  | .type => "type"
  | .asPattern => "as_pattern"
  | .asPatternTarget => "as_pattern_target"
  | .tuple => "tuple"
  | .expressionList => "expression_list"
  | .list => "list"
  | .set => "set"
  | .dictionary => "dictionary"
  | .pair => "pair"
  | .listComprehension => "list_comprehension"
  | .setComprehension => "set_comprehension"
  | .generatorExpression => "generator_expression"
  | .dictionaryComprehension => "dictionary_comprehension"
  | .forInClause => "for_in_clause"
  | .ifClause => "if_clause"
  | .binaryOperator => "binary_operator"
  | .unaryOperator => "unary_operator"
  | .notOperator => "not_operator"
  | .booleanOperator => "boolean_operator"
  | .comparisonOperator => "comparison_operator"
  | .conditionalExpression => "conditional_expression"
  | .namedExpression => "named_expression"
  | .lambda => "lambda"
  | .await => "await"
  | .yield => "yield"
  | .member => "attribute"
  | .subscript => "subscript"
  | .slice => "slice"
  | .call => "call"
  | .assignment => "assignment"
  | .augmentedAssignment => "augmented_assignment"
  | .other name => name

def ofName (name : String) : Kind := match name with
  | "assignment" => assignment
  | "augmented_assignment" => augmentedAssignment
  | "as_pattern" => asPattern
  | "dotted_name" => dottedName
  | "if_clause" => ifClause
  | "match_statement" => matchStatement
  | "type_alias_statement" => typeAliasStatement
  | _ => other name

def statements : List Kind :=
  [expressionStatement, returnStatement, deleteStatement, raiseStatement, passStatement,
    breakStatement, continueStatement, globalStatement, nonlocalStatement, assertStatement,
    printStatement, execStatement, importStatement, importFromStatement, futureImportStatement,
    ifStatement, forStatement, whileStatement, tryStatement, withStatement, functionDefinition,
    classDefinition, decoratedDefinition, matchStatement, typeAliasStatement]

end Kind

end SourceBlocks
