/-!
Node kinds. The kinds that the analysis or the surgery looks at have a constructor; every other
kind of the grammar keeps its name. `name_ofName`: no kind name is lost.
-/

namespace DeadCode

/-- `plainFunction` and `plainClass` are the kinds spelled like their keyword, which grammars use both
for the keyword token and for the expression. -/
inductive Kind where
  | program | statementBlock | switchCase | switchDefault | ifStatement | elseClause
  | whileStatement | doStatement | forStatement | forInStatement | labeledStatement
  | withStatement | switchBody | emptyStatement | expressionStatement | comment | identifier
  | propertyIdentifier | shorthandPropertyIdentifier | shorthandPropertyIdentifierPattern
  | typeIdentifier | number | assignmentExpression | variableDeclarator | variableDeclaration
  | lexicalDeclaration | functionDeclaration | generatorFunctionDeclaration
  | functionExpression | generatorFunction | arrowFunction | methodDefinition
  | classDeclaration | abstractClassDeclaration | catchClause | importStatement | importClause
  | importRequireClause | namespaceImport | namedImports | importSpecifier | exportStatement
  | exportSpecifier | namespaceExport | metaProperty | breakStatement | continueStatement
  | objectPattern | arrayPattern | formalParameters | restPattern | pairPattern
  | assignmentPattern | objectAssignmentPattern | requiredParameter | optionalParameter
  | plainFunction | plainClass | fromWord | comma
  | other (name : String)
  deriving DecidableEq, Inhabited

namespace Kind

def name : Kind → String
  | .program => "program"
  | .statementBlock => "statement_block"
  | .switchCase => "switch_case"
  | .switchDefault => "switch_default"
  | .ifStatement => "if_statement"
  | .elseClause => "else_clause"
  | .whileStatement => "while_statement"
  | .doStatement => "do_statement"
  | .forStatement => "for_statement"
  | .forInStatement => "for_in_statement"
  | .labeledStatement => "labeled_statement"
  | .withStatement => "with_statement"
  | .switchBody => "switch_body"
  | .emptyStatement => "empty_statement"
  | .expressionStatement => "expression_statement"
  | .comment => "comment"
  | .identifier => "identifier"
  | .propertyIdentifier => "property_identifier"
  | .shorthandPropertyIdentifier => "shorthand_property_identifier"
  | .shorthandPropertyIdentifierPattern => "shorthand_property_identifier_pattern"
  | .typeIdentifier => "type_identifier"
  | .number => "number"
  | .assignmentExpression => "assignment_expression"
  | .variableDeclarator => "variable_declarator"
  | .variableDeclaration => "variable_declaration"
  | .lexicalDeclaration => "lexical_declaration"
  | .functionDeclaration => "function_declaration"
  | .generatorFunctionDeclaration => "generator_function_declaration"
  | .functionExpression => "function_expression"
  | .generatorFunction => "generator_function"
  | .arrowFunction => "arrow_function"
  | .methodDefinition => "method_definition"
  | .classDeclaration => "class_declaration"
  | .abstractClassDeclaration => "abstract_class_declaration"
  | .catchClause => "catch_clause"
  | .importStatement => "import_statement"
  | .importClause => "import_clause"
  | .importRequireClause => "import_require_clause"
  | .namespaceImport => "namespace_import"
  | .namedImports => "named_imports"
  | .importSpecifier => "import_specifier"
  | .exportStatement => "export_statement"
  | .exportSpecifier => "export_specifier"
  | .namespaceExport => "namespace_export"
  | .metaProperty => "meta_property"
  | .breakStatement => "break_statement"
  | .continueStatement => "continue_statement"
  | .objectPattern => "object_pattern"
  | .arrayPattern => "array_pattern"
  | .formalParameters => "formal_parameters"
  | .restPattern => "rest_pattern"
  | .pairPattern => "pair_pattern"
  | .assignmentPattern => "assignment_pattern"
  | .objectAssignmentPattern => "object_assignment_pattern"
  | .requiredParameter => "required_parameter"
  | .optionalParameter => "optional_parameter"
  | .plainFunction => "function"
  | .plainClass => "class"
  | .fromWord => "from"
  | .comma => ","
  | .other name => name

def known : List Kind :=
  [.program, .statementBlock, .switchCase, .switchDefault, .ifStatement, .elseClause,
   .whileStatement, .doStatement, .forStatement, .forInStatement, .labeledStatement,
   .withStatement, .switchBody, .emptyStatement, .expressionStatement, .comment, .identifier,
   .propertyIdentifier, .shorthandPropertyIdentifier, .shorthandPropertyIdentifierPattern,
   .typeIdentifier, .number, .assignmentExpression, .variableDeclarator, .variableDeclaration,
   .lexicalDeclaration, .functionDeclaration, .generatorFunctionDeclaration, .functionExpression,
   .generatorFunction, .arrowFunction, .methodDefinition, .classDeclaration,
   .abstractClassDeclaration, .catchClause, .importStatement, .importClause,
   .importRequireClause, .namespaceImport, .namedImports, .importSpecifier, .exportStatement,
   .exportSpecifier, .namespaceExport, .metaProperty, .breakStatement, .continueStatement,
   .objectPattern, .arrayPattern, .formalParameters, .restPattern, .pairPattern,
   .assignmentPattern, .objectAssignmentPattern, .requiredParameter, .optionalParameter,
   .plainFunction, .plainClass, .fromWord, .comma]

def ofName (s : String) : Kind := (known.find? fun k => k.name = s).getD (.other s)

theorem name_ofName (s : String) : (ofName s).name = s := by
  unfold ofName
  cases h : known.find? fun k => k.name = s with
  | none => rfl
  | some k => simpa using List.find?_some h

/-- Kinds that open a function scope. -/
def isFunction : Kind → Bool
  | .functionDeclaration | .generatorFunctionDeclaration | .functionExpression | .plainFunction
  | .generatorFunction | .arrowFunction | .methodDefinition => true
  | _ => false

/-- Kinds that open a class scope. -/
def isClass : Kind → Bool
  | .classDeclaration | .abstractClassDeclaration | .plainClass => true
  | _ => false

/-- Kinds that open a block scope, bodies of functions and catch clauses apart. -/
def isBlock : Kind → Bool
  | .statementBlock | .forStatement | .forInStatement | .switchBody => true
  | _ => false

/-- Kinds that can refer to a binding. -/
def isReference : Kind → Bool
  | .identifier | .shorthandPropertyIdentifier | .typeIdentifier => true
  | _ => false

/-- Parents whose identifiers name something outside the scopes of the program. -/
def namesOutside : Kind → Bool
  | .importSpecifier | .importClause | .namespaceImport | .namespaceExport
  | .importRequireClause | .metaProperty | .labeledStatement | .breakStatement
  | .continueStatement => true
  | _ => false

/-- Kinds that spell a name. Property names count: a property of the global object is the global. -/
def spellsName : Kind → Bool
  | .identifier | .propertyIdentifier | .shorthandPropertyIdentifier
  | .shorthandPropertyIdentifierPattern | .typeIdentifier => true
  | _ => false

/-- Parents whose children are a plain list of statements. -/
def listsStatements : Kind → Bool
  | .program | .statementBlock | .switchCase | .switchDefault => true
  | _ => false

end Kind
end DeadCode
