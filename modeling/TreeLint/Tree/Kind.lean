/-!
# Kinds of syntax nodes

The closed list of syntactic categories that rules can inspect. A kind has two spellings: the one
that front ends write in documents, and a constant-style one; a name in either spelling is
recognised.
-/

namespace TreeLint

/-- A syntactic category. The last one stands for everything a front end emits beyond the rest. -/
inductive Kind where
  | sourceFile
  | functionDeclaration
  | variableStatement
  | variableDeclarationList
  | variableDeclaration
  | enumDeclaration
  | enumMember
  | classDeclaration
  | interfaceDeclaration
  | typeAliasDeclaration
  | methodDeclaration
  | propertyDeclaration
  | propertySignature
  | constructor
  | parameter
  | importDeclaration
  | block
  | returnStatement
  | expressionStatement
  | ifStatement
  | forStatement
  | whileStatement
  | identifier
  | stringLiteral
  | numericLiteral
  | callExpression
  | newExpression
  | propertyAccessExpression
  | binaryExpression
  | arrowFunction
  | objectLiteralExpression
  | typeReference
  | keywordType
  | unionType
  | endOfFileToken
  | unknown
deriving DecidableEq

namespace Kind

/-- All kinds, in order of declaration. -/
def all : List Kind :=
  [.sourceFile, .functionDeclaration, .variableStatement, .variableDeclarationList,
   .variableDeclaration, .enumDeclaration, .enumMember, .classDeclaration,
   .interfaceDeclaration, .typeAliasDeclaration, .methodDeclaration, .propertyDeclaration,
   .propertySignature, .constructor, .parameter, .importDeclaration, .block, .returnStatement,
   .expressionStatement, .ifStatement, .forStatement, .whileStatement, .identifier,
   .stringLiteral, .numericLiteral, .callExpression, .newExpression, .propertyAccessExpression,
   .binaryExpression, .arrowFunction, .objectLiteralExpression, .typeReference, .keywordType,
   .unionType, .endOfFileToken, .unknown]

/-- The spelling used in documents and messages. -/
def label : Kind → String
  | .sourceFile => "SourceFile"
  | .functionDeclaration => "FunctionDeclaration"
  | .variableStatement => "VariableStatement"
  | .variableDeclarationList => "VariableDeclarationList"
  | .variableDeclaration => "VariableDeclaration"
  | .enumDeclaration => "EnumDeclaration"
  | .enumMember => "EnumMember"
  | .classDeclaration => "ClassDeclaration"
  | .interfaceDeclaration => "InterfaceDeclaration"
  | .typeAliasDeclaration => "TypeAliasDeclaration"
  | .methodDeclaration => "MethodDeclaration"
  | .propertyDeclaration => "PropertyDeclaration"
  | .propertySignature => "PropertySignature"
  | .constructor => "Constructor"
  | .parameter => "Parameter"
  | .importDeclaration => "ImportDeclaration"
  | .block => "Block"
  | .returnStatement => "ReturnStatement"
  | .expressionStatement => "ExpressionStatement"
  | .ifStatement => "IfStatement"
  | .forStatement => "ForStatement"
  | .whileStatement => "WhileStatement"
  | .identifier => "Identifier"
  | .stringLiteral => "StringLiteral"
  | .numericLiteral => "NumericLiteral"
  | .callExpression => "CallExpression"
  | .newExpression => "NewExpression"
  | .propertyAccessExpression => "PropertyAccessExpression"
  | .binaryExpression => "BinaryExpression"
  | .arrowFunction => "ArrowFunction"
  | .objectLiteralExpression => "ObjectLiteralExpression"
  | .typeReference => "TypeReference"
  | .keywordType => "KeywordType"
  | .unionType => "UnionType"
  | .endOfFileToken => "EndOfFileToken"
  | .unknown => "Unknown"

/-- The constant-style spelling. -/
def constant : Kind → String
  | .sourceFile => "SOURCE_FILE"
  | .functionDeclaration => "FUNCTION_DECLARATION"
  | .variableStatement => "VARIABLE_STATEMENT"
  | .variableDeclarationList => "VARIABLE_DECLARATION_LIST"
  | .variableDeclaration => "VARIABLE_DECLARATION"
  | .enumDeclaration => "ENUM_DECLARATION"
  | .enumMember => "ENUM_MEMBER"
  | .classDeclaration => "CLASS_DECLARATION"
  | .interfaceDeclaration => "INTERFACE_DECLARATION"
  | .typeAliasDeclaration => "TYPE_ALIAS_DECLARATION"
  | .methodDeclaration => "METHOD_DECLARATION"
  | .propertyDeclaration => "PROPERTY_DECLARATION"
  | .propertySignature => "PROPERTY_SIGNATURE"
  | .constructor => "CONSTRUCTOR"
  | .parameter => "PARAMETER"
  | .importDeclaration => "IMPORT_DECLARATION"
  | .block => "BLOCK"
  | .returnStatement => "RETURN_STATEMENT"
  | .expressionStatement => "EXPRESSION_STATEMENT"
  | .ifStatement => "IF_STATEMENT"
  | .forStatement => "FOR_STATEMENT"
  | .whileStatement => "WHILE_STATEMENT"
  | .identifier => "IDENTIFIER"
  | .stringLiteral => "STRING_LITERAL"
  | .numericLiteral => "NUMERIC_LITERAL"
  | .callExpression => "CALL_EXPRESSION"
  | .newExpression => "NEW_EXPRESSION"
  | .propertyAccessExpression => "PROPERTY_ACCESS_EXPRESSION"
  | .binaryExpression => "BINARY_EXPRESSION"
  | .arrowFunction => "ARROW_FUNCTION"
  | .objectLiteralExpression => "OBJECT_LITERAL_EXPRESSION"
  | .typeReference => "TYPE_REFERENCE"
  | .keywordType => "KEYWORD_TYPE"
  | .unionType => "UNION_TYPE"
  | .endOfFileToken => "END_OF_FILE_TOKEN"
  | .unknown => "UNKNOWN"

/-- The kind with a given name, in either spelling. -/
def ofName? (name : String) : Option Kind :=
  (all.find? (·.label = name)).or (all.find? (·.constant = name))

/-- Every kind is listed. -/
theorem mem_all (kind : Kind) : kind ∈ all := by
  cases kind <;> decide

end Kind

end TreeLint
