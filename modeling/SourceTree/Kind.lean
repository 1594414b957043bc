/-!
The grammar as data. A tree is made of nodes of 53 kinds; each kind has a fixed list of
fields, and each field has one of seven shapes. Tokens and the trivia around them have
kinds of their own. Everything that walks a tree does so through `Kind.fields`.
-/
namespace SourceTree

inductive TokenKind where
  | identifier | keyword | punctuation | operator
  | numericLiteral | stringLiteral | characterLiteral
  | xmlName | xmlText | xmlNewLine
  | endOfDocumentationComment | endOfFile
  deriving DecidableEq, Repr

namespace TokenKind

def all : List TokenKind :=
  [.identifier, .keyword, .punctuation, .operator, .numericLiteral, .stringLiteral,
    .characterLiteral, .xmlName, .xmlText, .xmlNewLine, .endOfDocumentationComment, .endOfFile]

def name : TokenKind → String
  | .identifier => "Identifier"
  | .keyword => "Keyword"
  | .punctuation => "Punctuation"
  | .operator => "Operator"
  | .numericLiteral => "NumericLiteral"
  | .stringLiteral => "StringLiteral"
  | .characterLiteral => "CharacterLiteral"
  | .xmlName => "XmlName"
  | .xmlText => "XmlText"
  | .xmlNewLine => "XmlNewLine"
  | .endOfDocumentationComment => "EndOfDocumentationComment"
  | .endOfFile => "EndOfFile"

def ofName? (text : String) : Option TokenKind := all.find? (·.name == text)

end TokenKind

/-- `documentationExterior` is the `///` that opens a line inside a documentation comment;
`documentationComment` is the trivia that holds the whole comment as a tree. -/
inductive TriviaKind where
  | whitespace | endOfLine
  | singleLineComment | multiLineComment
  | documentationExterior | documentationComment
  | directive
  deriving DecidableEq, Repr

namespace TriviaKind

def all : List TriviaKind :=
  [.whitespace, .endOfLine, .singleLineComment, .multiLineComment, .documentationExterior,
    .documentationComment, .directive]

def name : TriviaKind → String
  | .whitespace => "Whitespace"
  | .endOfLine => "EndOfLine"
  | .singleLineComment => "SingleLineComment"
  | .multiLineComment => "MultiLineComment"
  | .documentationExterior => "DocumentationExterior"
  | .documentationComment => "DocumentationComment"
  | .directive => "Directive"

def ofName? (text : String) : Option TriviaKind := all.find? (·.name == text)

end TriviaKind

/-- What a field can hold. -/
inductive Shape where
  | node | optNode | token | optToken | nodes | tokens | separated
  deriving DecidableEq, Repr

structure Field where
  name : String
  shape : Shape
  deriving DecidableEq, Repr

inductive Kind where
  | compilationUnit | usingDirective | namespaceDeclaration | classDeclaration
  | interfaceDeclaration | enumDeclaration | enumMemberDeclaration | methodDeclaration
  | constructorDeclaration | propertyDeclaration | accessorList | accessorDeclaration
  | fieldDeclaration | variableDeclaration | variableDeclarator | equalsValueClause
  | parameterList | parameter | typeParameterList | typeParameter | baseList | simpleBaseType
  | attributeList | attributeItem | identifierName | qualifiedName | genericName
  | typeArgumentList | predefinedType | block | localDeclarationStatement | expressionStatement
  | returnStatement | ifStatement | elseClause | whileStatement | forEachStatement
  | literalExpression | thisExpression | parenthesizedExpression | binaryExpression
  | prefixUnaryExpression | assignmentExpression | invocationExpression | argumentList
  | argument | memberAccessExpression | objectCreationExpression | documentationComment
  | xmlElement | xmlElementStartTag | xmlElementEndTag | xmlText
  deriving DecidableEq, Repr

namespace Kind

/-- Every kind, in the order of declaration. -/
def all : List Kind := [
  .compilationUnit, .usingDirective, .namespaceDeclaration, .classDeclaration,
  .interfaceDeclaration, .enumDeclaration, .enumMemberDeclaration, .methodDeclaration,
  .constructorDeclaration, .propertyDeclaration, .accessorList, .accessorDeclaration,
  .fieldDeclaration, .variableDeclaration, .variableDeclarator, .equalsValueClause,
  .parameterList, .parameter, .typeParameterList, .typeParameter, .baseList, .simpleBaseType,
  .attributeList, .attributeItem, .identifierName, .qualifiedName, .genericName,
  .typeArgumentList, .predefinedType, .block, .localDeclarationStatement, .expressionStatement,
  .returnStatement, .ifStatement, .elseClause, .whileStatement, .forEachStatement,
  .literalExpression, .thisExpression, .parenthesizedExpression, .binaryExpression,
  .prefixUnaryExpression, .assignmentExpression, .invocationExpression, .argumentList,
  .argument, .memberAccessExpression, .objectCreationExpression, .documentationComment,
  .xmlElement, .xmlElementStartTag, .xmlElementEndTag, .xmlText]

def name : Kind → String
  | .compilationUnit => "CompilationUnit"
  | .usingDirective => "UsingDirective"
  | .namespaceDeclaration => "NamespaceDeclaration"
  | .classDeclaration => "ClassDeclaration"
  | .interfaceDeclaration => "InterfaceDeclaration"
  | .enumDeclaration => "EnumDeclaration"
  | .enumMemberDeclaration => "EnumMemberDeclaration"
  | .methodDeclaration => "MethodDeclaration"
  | .constructorDeclaration => "ConstructorDeclaration"
  | .propertyDeclaration => "PropertyDeclaration"
  | .accessorList => "AccessorList"
  | .accessorDeclaration => "AccessorDeclaration"
  | .fieldDeclaration => "FieldDeclaration"
  | .variableDeclaration => "VariableDeclaration"
  | .variableDeclarator => "VariableDeclarator"
  | .equalsValueClause => "EqualsValueClause"
  | .parameterList => "ParameterList"
  | .parameter => "Parameter"
  | .typeParameterList => "TypeParameterList"
  | .typeParameter => "TypeParameter"
  | .baseList => "BaseList"
  | .simpleBaseType => "SimpleBaseType"
  | .attributeList => "AttributeList"
  | .attributeItem => "Attribute"
  | .identifierName => "IdentifierName"
  | .qualifiedName => "QualifiedName"
  | .genericName => "GenericName"
  | .typeArgumentList => "TypeArgumentList"
  | .predefinedType => "PredefinedType"
  | .block => "Block"
  | .localDeclarationStatement => "LocalDeclarationStatement"
  | .expressionStatement => "ExpressionStatement"
  | .returnStatement => "ReturnStatement"
  | .ifStatement => "IfStatement"
  | .elseClause => "ElseClause"
  | .whileStatement => "WhileStatement"
  | .forEachStatement => "ForEachStatement"
  | .literalExpression => "LiteralExpression"
  | .thisExpression => "ThisExpression"
  | .parenthesizedExpression => "ParenthesizedExpression"
  | .binaryExpression => "BinaryExpression"
  | .prefixUnaryExpression => "PrefixUnaryExpression"
  | .assignmentExpression => "AssignmentExpression"
  | .invocationExpression => "InvocationExpression"
  | .argumentList => "ArgumentList"
  | .argument => "Argument"
  | .memberAccessExpression => "MemberAccessExpression"
  | .objectCreationExpression => "ObjectCreationExpression"
  | .documentationComment => "DocumentationComment"
  | .xmlElement => "XmlElement"
  | .xmlElementStartTag => "XmlElementStartTag"
  | .xmlElementEndTag => "XmlElementEndTag"
  | .xmlText => "XmlText"

def ofName? (text : String) : Option Kind := all.find? (·.name == text)

/-- The fields of a kind, in document order. -/
@[reducible] def fields : Kind → List Field
  | .compilationUnit => [⟨"usings", .nodes⟩, ⟨"members", .nodes⟩, ⟨"end_of_file", .token⟩]
  | .usingDirective => [⟨"using_keyword", .token⟩, ⟨"static_keyword", .optToken⟩,
      ⟨"name", .node⟩, ⟨"semicolon", .token⟩]
  | .namespaceDeclaration => [⟨"namespace_keyword", .token⟩, ⟨"name", .node⟩,
      ⟨"open_brace", .token⟩, ⟨"usings", .nodes⟩, ⟨"members", .nodes⟩, ⟨"close_brace", .token⟩]
  | .classDeclaration => [⟨"attribute_lists", .nodes⟩, ⟨"modifiers", .tokens⟩,
      ⟨"keyword", .token⟩, ⟨"identifier", .token⟩, ⟨"type_parameter_list", .optNode⟩,
      ⟨"base_list", .optNode⟩, ⟨"open_brace", .token⟩, ⟨"members", .nodes⟩,
      ⟨"close_brace", .token⟩]
  | .interfaceDeclaration => [⟨"attribute_lists", .nodes⟩, ⟨"modifiers", .tokens⟩,
      ⟨"keyword", .token⟩, ⟨"identifier", .token⟩, ⟨"type_parameter_list", .optNode⟩,
      ⟨"base_list", .optNode⟩, ⟨"open_brace", .token⟩, ⟨"members", .nodes⟩,
      ⟨"close_brace", .token⟩]
  | .enumDeclaration => [⟨"attribute_lists", .nodes⟩, ⟨"modifiers", .tokens⟩,
      ⟨"enum_keyword", .token⟩, ⟨"identifier", .token⟩, ⟨"base_list", .optNode⟩,
      ⟨"open_brace", .token⟩, ⟨"members", .separated⟩, ⟨"close_brace", .token⟩]
  | .enumMemberDeclaration => [⟨"attribute_lists", .nodes⟩, ⟨"identifier", .token⟩,
      ⟨"equals_value", .optNode⟩]
  | .methodDeclaration => [⟨"attribute_lists", .nodes⟩, ⟨"modifiers", .tokens⟩,
      ⟨"return_type", .node⟩, ⟨"identifier", .token⟩, ⟨"type_parameter_list", .optNode⟩,
      ⟨"parameter_list", .node⟩, ⟨"body", .optNode⟩, ⟨"semicolon", .optToken⟩]
  | .constructorDeclaration => [⟨"attribute_lists", .nodes⟩, ⟨"modifiers", .tokens⟩,
      ⟨"identifier", .token⟩, ⟨"parameter_list", .node⟩, ⟨"body", .optNode⟩,
      ⟨"semicolon", .optToken⟩]
  | .propertyDeclaration => [⟨"attribute_lists", .nodes⟩, ⟨"modifiers", .tokens⟩,
      ⟨"property_type", .node⟩, ⟨"identifier", .token⟩, ⟨"accessor_list", .node⟩]
  | .accessorList => [⟨"open_brace", .token⟩, ⟨"accessors", .nodes⟩, ⟨"close_brace", .token⟩]
  | .accessorDeclaration => [⟨"modifiers", .tokens⟩, ⟨"keyword", .token⟩, ⟨"body", .optNode⟩,
      ⟨"semicolon", .optToken⟩]
  | .fieldDeclaration => [⟨"attribute_lists", .nodes⟩, ⟨"modifiers", .tokens⟩,
      ⟨"declaration", .node⟩, ⟨"semicolon", .token⟩]
  | .variableDeclaration => [⟨"variable_type", .node⟩, ⟨"variables", .separated⟩]
  | .variableDeclarator => [⟨"identifier", .token⟩, ⟨"initializer", .optNode⟩]
  | .equalsValueClause => [⟨"equals", .token⟩, ⟨"value", .node⟩]
  | .parameterList => [⟨"open_paren", .token⟩, ⟨"parameters", .separated⟩,
      ⟨"close_paren", .token⟩]
  | .parameter => [⟨"attribute_lists", .nodes⟩, ⟨"modifiers", .tokens⟩,
      ⟨"parameter_type", .node⟩, ⟨"identifier", .token⟩, ⟨"default_value", .optNode⟩]
  | .typeParameterList => [⟨"less_than", .token⟩, ⟨"parameters", .separated⟩,
      ⟨"greater_than", .token⟩]
  | .typeParameter => [⟨"identifier", .token⟩]
  | .baseList => [⟨"colon", .token⟩, ⟨"types", .separated⟩]
  | .simpleBaseType => [⟨"base_type", .node⟩]
  | .attributeList => [⟨"open_bracket", .token⟩, ⟨"attributes", .separated⟩,
      ⟨"close_bracket", .token⟩]
  | .attributeItem => [⟨"name", .node⟩, ⟨"argument_list", .optNode⟩]
  | .identifierName => [⟨"identifier", .token⟩]
  | .qualifiedName => [⟨"left", .node⟩, ⟨"dot", .token⟩, ⟨"right", .node⟩]
  | .genericName => [⟨"identifier", .token⟩, ⟨"type_argument_list", .node⟩]
  | .typeArgumentList => [⟨"less_than", .token⟩, ⟨"arguments", .separated⟩,
      ⟨"greater_than", .token⟩]
  | .predefinedType => [⟨"keyword", .token⟩]
  | .block => [⟨"open_brace", .token⟩, ⟨"statements", .nodes⟩, ⟨"close_brace", .token⟩]
  | .localDeclarationStatement => [⟨"declaration", .node⟩, ⟨"semicolon", .token⟩]
  | .expressionStatement => [⟨"expression", .node⟩, ⟨"semicolon", .token⟩]
  | .returnStatement => [⟨"return_keyword", .token⟩, ⟨"expression", .optNode⟩,
      ⟨"semicolon", .token⟩]
  | .ifStatement => [⟨"if_keyword", .token⟩, ⟨"open_paren", .token⟩, ⟨"condition", .node⟩,
      ⟨"close_paren", .token⟩, ⟨"statement", .node⟩, ⟨"else_clause", .optNode⟩]
  | .elseClause => [⟨"else_keyword", .token⟩, ⟨"statement", .node⟩]
  | .whileStatement => [⟨"while_keyword", .token⟩, ⟨"open_paren", .token⟩, ⟨"condition", .node⟩,
      ⟨"close_paren", .token⟩, ⟨"statement", .node⟩]
  | .forEachStatement => [⟨"foreach_keyword", .token⟩, ⟨"open_paren", .token⟩,
      ⟨"variable_type", .node⟩, ⟨"identifier", .token⟩, ⟨"in_keyword", .token⟩,
      ⟨"expression", .node⟩, ⟨"close_paren", .token⟩, ⟨"statement", .node⟩]
  | .literalExpression => [⟨"token", .token⟩]
  | .thisExpression => [⟨"this_keyword", .token⟩]
  | .parenthesizedExpression => [⟨"open_paren", .token⟩, ⟨"expression", .node⟩,
      ⟨"close_paren", .token⟩]
  | .binaryExpression => [⟨"left", .node⟩, ⟨"operator", .token⟩, ⟨"right", .node⟩]
  | .prefixUnaryExpression => [⟨"operator", .token⟩, ⟨"operand", .node⟩]
  | .assignmentExpression => [⟨"left", .node⟩, ⟨"operator", .token⟩, ⟨"right", .node⟩]
  | .invocationExpression => [⟨"expression", .node⟩, ⟨"argument_list", .node⟩]
  | .argumentList => [⟨"open_paren", .token⟩, ⟨"arguments", .separated⟩, ⟨"close_paren", .token⟩]
  | .argument => [⟨"ref_kind_keyword", .optToken⟩, ⟨"expression", .node⟩]
  | .memberAccessExpression => [⟨"expression", .node⟩, ⟨"dot", .token⟩, ⟨"name", .node⟩]
  | .objectCreationExpression => [⟨"new_keyword", .token⟩, ⟨"created_type", .node⟩,
      ⟨"argument_list", .optNode⟩]
  | .documentationComment => [⟨"content", .nodes⟩, ⟨"end_of_comment", .token⟩]
  | .xmlElement => [⟨"start_tag", .node⟩, ⟨"content", .nodes⟩, ⟨"end_tag", .node⟩]
  | .xmlElementStartTag => [⟨"less_than", .token⟩, ⟨"name", .token⟩, ⟨"attributes", .tokens⟩,
      ⟨"greater_than", .token⟩]
  | .xmlElementEndTag => [⟨"less_than_slash", .token⟩, ⟨"name", .token⟩, ⟨"greater_than", .token⟩]
  | .xmlText => [⟨"text_tokens", .tokens⟩]

def isTypeDeclaration : Kind → Bool
  | .classDeclaration | .interfaceDeclaration | .enumDeclaration => true
  | _ => false

/-- Methods, constructors and properties. -/
def isMember : Kind → Bool
  | .methodDeclaration | .constructorDeclaration | .propertyDeclaration => true
  | _ => false

/-- The kinds whose field `identifier` is the name that they introduce. -/
def declaresIdentifier : Kind → Bool
  | .classDeclaration | .interfaceDeclaration | .enumDeclaration | .enumMemberDeclaration
  | .methodDeclaration | .constructorDeclaration | .propertyDeclaration | .variableDeclarator
  | .parameter | .typeParameter => true
  | _ => false

def isDeclaration (kind : Kind) : Bool :=
  kind == .namespaceDeclaration || kind.isTypeDeclaration || kind.isMember

end Kind

end SourceTree
