import SourceTree.Tree

/-!
One named form per kind, usable both to build a node and to match on one. A form lists
the contents of the fields in order; `info` comes last and is empty for a new node.
-/
namespace SourceTree.Node

@[match_pattern] abbrev compilationUnit (usings members : List Node) (endOfFile : Token)
    (info : Info := {}) : Node :=
  .mk info .compilationUnit
    (.cons (.nodes usings) (.cons (.nodes members) (.cons (.token endOfFile) .nil)))

@[match_pattern] abbrev usingDirective (usingKeyword : Token) (staticKeyword : Option Token)
    (name : Node) (semicolon : Token) (info : Info := {}) : Node :=
  .mk info .usingDirective
    (.cons (.token usingKeyword) (.cons (.optToken staticKeyword) (.cons (.node name)
      (.cons (.token semicolon) .nil))))

@[match_pattern] abbrev namespaceDeclaration (namespaceKeyword : Token) (name : Node)
    (openBrace : Token) (usings members : List Node) (closeBrace : Token) (info : Info := {}) :
    Node :=
  .mk info .namespaceDeclaration
    (.cons (.token namespaceKeyword) (.cons (.node name) (.cons (.token openBrace)
      (.cons (.nodes usings) (.cons (.nodes members) (.cons (.token closeBrace) .nil))))))

@[match_pattern] abbrev classDeclaration (attributeLists : List Node) (modifiers : List Token)
    (keyword identifier : Token) (typeParameterList baseList : Option Node)
    (openBrace : Token) (members : List Node) (closeBrace : Token) (info : Info := {}) : Node :=
  .mk info .classDeclaration
    (.cons (.nodes attributeLists) (.cons (.tokens modifiers) (.cons (.token keyword)
      (.cons (.token identifier) (.cons (.optNode typeParameterList) (.cons (.optNode baseList)
      (.cons (.token openBrace) (.cons (.nodes members) (.cons (.token closeBrace) .nil)))))))))

@[match_pattern] abbrev interfaceDeclaration (attributeLists : List Node)
    (modifiers : List Token) (keyword identifier : Token)
    (typeParameterList baseList : Option Node) (openBrace : Token) (members : List Node)
    (closeBrace : Token) (info : Info := {}) : Node :=
  .mk info .interfaceDeclaration
    (.cons (.nodes attributeLists) (.cons (.tokens modifiers) (.cons (.token keyword)
      (.cons (.token identifier) (.cons (.optNode typeParameterList) (.cons (.optNode baseList)
      (.cons (.token openBrace) (.cons (.nodes members) (.cons (.token closeBrace) .nil)))))))))

@[match_pattern] abbrev enumDeclaration (attributeLists : List Node) (modifiers : List Token)
    (enumKeyword identifier : Token) (baseList : Option Node) (openBrace : Token)
    (members : Separated Node Token) (closeBrace : Token) (info : Info := {}) : Node :=
  .mk info .enumDeclaration
    (.cons (.nodes attributeLists) (.cons (.tokens modifiers) (.cons (.token enumKeyword)
      (.cons (.token identifier) (.cons (.optNode baseList) (.cons (.token openBrace)
      (.cons (.separated members) (.cons (.token closeBrace) .nil))))))))

@[match_pattern] abbrev enumMemberDeclaration (attributeLists : List Node)
    (identifier : Token) (equalsValue : Option Node) (info : Info := {}) : Node :=
  .mk info .enumMemberDeclaration
    (.cons (.nodes attributeLists) (.cons (.token identifier) (.cons (.optNode equalsValue)
      .nil)))

@[match_pattern] abbrev methodDeclaration (attributeLists : List Node)
    (modifiers : List Token) (returnType : Node) (identifier : Token)
    (typeParameterList : Option Node) (parameterList : Node) (body : Option Node)
    (semicolon : Option Token) (info : Info := {}) : Node :=
  .mk info .methodDeclaration
    (.cons (.nodes attributeLists) (.cons (.tokens modifiers) (.cons (.node returnType)
      (.cons (.token identifier) (.cons (.optNode typeParameterList)
      (.cons (.node parameterList) (.cons (.optNode body) (.cons (.optToken semicolon)
      .nil))))))))

@[match_pattern] abbrev constructorDeclaration (attributeLists : List Node)
    (modifiers : List Token) (identifier : Token) (parameterList : Node) (body : Option Node)
    (semicolon : Option Token) (info : Info := {}) : Node :=
  .mk info .constructorDeclaration
    (.cons (.nodes attributeLists) (.cons (.tokens modifiers) (.cons (.token identifier)
      (.cons (.node parameterList) (.cons (.optNode body) (.cons (.optToken semicolon) .nil))))))

@[match_pattern] abbrev propertyDeclaration (attributeLists : List Node)
    (modifiers : List Token) (propertyType : Node) (identifier : Token) (accessorList : Node)
    (info : Info := {}) : Node :=
  .mk info .propertyDeclaration
    (.cons (.nodes attributeLists) (.cons (.tokens modifiers) (.cons (.node propertyType)
      (.cons (.token identifier) (.cons (.node accessorList) .nil)))))

@[match_pattern] abbrev accessorList (openBrace : Token) (accessors : List Node)
    (closeBrace : Token) (info : Info := {}) : Node :=
  .mk info .accessorList
    (.cons (.token openBrace) (.cons (.nodes accessors) (.cons (.token closeBrace) .nil)))

@[match_pattern] abbrev accessorDeclaration (modifiers : List Token) (keyword : Token)
    (body : Option Node) (semicolon : Option Token) (info : Info := {}) : Node :=
  .mk info .accessorDeclaration
    (.cons (.tokens modifiers) (.cons (.token keyword) (.cons (.optNode body)
      (.cons (.optToken semicolon) .nil))))

@[match_pattern] abbrev fieldDeclaration (attributeLists : List Node) (modifiers : List Token)
    (declaration : Node) (semicolon : Token) (info : Info := {}) : Node :=
  .mk info .fieldDeclaration
    (.cons (.nodes attributeLists) (.cons (.tokens modifiers) (.cons (.node declaration)
      (.cons (.token semicolon) .nil))))

@[match_pattern] abbrev variableDeclaration (variableType : Node)
    (declarators : Separated Node Token) (info : Info := {}) : Node :=
  .mk info .variableDeclaration (.cons (.node variableType) (.cons (.separated declarators) .nil))

@[match_pattern] abbrev variableDeclarator (identifier : Token) (initializer : Option Node)
    (info : Info := {}) : Node :=
  .mk info .variableDeclarator (.cons (.token identifier) (.cons (.optNode initializer) .nil))

@[match_pattern] abbrev equalsValueClause (equals : Token) (value : Node) (info : Info := {}) :
    Node :=
  .mk info .equalsValueClause (.cons (.token equals) (.cons (.node value) .nil))

@[match_pattern] abbrev parameterList (openParen : Token) (parameters : Separated Node Token)
    (closeParen : Token) (info : Info := {}) : Node :=
  .mk info .parameterList
    (.cons (.token openParen) (.cons (.separated parameters) (.cons (.token closeParen) .nil)))

@[match_pattern] abbrev parameter (attributeLists : List Node) (modifiers : List Token)
    (parameterType : Node) (identifier : Token) (defaultValue : Option Node)
    (info : Info := {}) : Node :=
  .mk info .parameter
    (.cons (.nodes attributeLists) (.cons (.tokens modifiers) (.cons (.node parameterType)
      (.cons (.token identifier) (.cons (.optNode defaultValue) .nil)))))

@[match_pattern] abbrev typeParameterList (lessThan : Token)
    (parameters : Separated Node Token) (greaterThan : Token) (info : Info := {}) : Node :=
  .mk info .typeParameterList
    (.cons (.token lessThan) (.cons (.separated parameters) (.cons (.token greaterThan) .nil)))

@[match_pattern] abbrev typeParameter (identifier : Token) (info : Info := {}) : Node :=
  .mk info .typeParameter (.cons (.token identifier) .nil)

@[match_pattern] abbrev baseList (colon : Token) (types : Separated Node Token)
    (info : Info := {}) : Node :=
  .mk info .baseList (.cons (.token colon) (.cons (.separated types) .nil))

@[match_pattern] abbrev simpleBaseType (baseType : Node) (info : Info := {}) : Node :=
  .mk info .simpleBaseType (.cons (.node baseType) .nil)

@[match_pattern] abbrev attributeList (openBracket : Token)
    (attributes : Separated Node Token) (closeBracket : Token) (info : Info := {}) : Node :=
  .mk info .attributeList
    (.cons (.token openBracket) (.cons (.separated attributes) (.cons (.token closeBracket)
      .nil)))

@[match_pattern] abbrev attributeItem (name : Node) (argumentList : Option Node)
    (info : Info := {}) : Node :=
  .mk info .attributeItem (.cons (.node name) (.cons (.optNode argumentList) .nil))

@[match_pattern] abbrev identifierName (identifier : Token) (info : Info := {}) : Node :=
  .mk info .identifierName (.cons (.token identifier) .nil)

@[match_pattern] abbrev qualifiedName (left : Node) (dot : Token) (right : Node)
    (info : Info := {}) : Node :=
  .mk info .qualifiedName (.cons (.node left) (.cons (.token dot) (.cons (.node right) .nil)))

@[match_pattern] abbrev genericName (identifier : Token) (typeArgumentList : Node)
    (info : Info := {}) : Node :=
  .mk info .genericName (.cons (.token identifier) (.cons (.node typeArgumentList) .nil))

@[match_pattern] abbrev typeArgumentList (lessThan : Token) (arguments : Separated Node Token)
    (greaterThan : Token) (info : Info := {}) : Node :=
  .mk info .typeArgumentList
    (.cons (.token lessThan) (.cons (.separated arguments) (.cons (.token greaterThan) .nil)))

@[match_pattern] abbrev predefinedType (keyword : Token) (info : Info := {}) : Node :=
  .mk info .predefinedType (.cons (.token keyword) .nil)

@[match_pattern] abbrev block (openBrace : Token) (statements : List Node)
    (closeBrace : Token) (info : Info := {}) : Node :=
  .mk info .block
    (.cons (.token openBrace) (.cons (.nodes statements) (.cons (.token closeBrace) .nil)))

@[match_pattern] abbrev localDeclarationStatement (declaration : Node) (semicolon : Token)
    (info : Info := {}) : Node :=
  .mk info .localDeclarationStatement (.cons (.node declaration) (.cons (.token semicolon) .nil))

@[match_pattern] abbrev expressionStatement (expression : Node) (semicolon : Token)
    (info : Info := {}) : Node :=
  .mk info .expressionStatement (.cons (.node expression) (.cons (.token semicolon) .nil))

@[match_pattern] abbrev returnStatement (returnKeyword : Token) (expression : Option Node)
    (semicolon : Token) (info : Info := {}) : Node :=
  .mk info .returnStatement
    (.cons (.token returnKeyword) (.cons (.optNode expression) (.cons (.token semicolon) .nil)))

@[match_pattern] abbrev ifStatement (ifKeyword openParen : Token) (condition : Node)
    (closeParen : Token) (statement : Node) (elseClause : Option Node) (info : Info := {}) :
    Node :=
  .mk info .ifStatement
    (.cons (.token ifKeyword) (.cons (.token openParen) (.cons (.node condition)
      (.cons (.token closeParen) (.cons (.node statement) (.cons (.optNode elseClause) .nil))))))

@[match_pattern] abbrev elseClause (elseKeyword : Token) (statement : Node)
    (info : Info := {}) : Node :=
  .mk info .elseClause (.cons (.token elseKeyword) (.cons (.node statement) .nil))

@[match_pattern] abbrev whileStatement (whileKeyword openParen : Token) (condition : Node)
    (closeParen : Token) (statement : Node) (info : Info := {}) : Node :=
  .mk info .whileStatement
    (.cons (.token whileKeyword) (.cons (.token openParen) (.cons (.node condition)
      (.cons (.token closeParen) (.cons (.node statement) .nil)))))

@[match_pattern] abbrev forEachStatement (foreachKeyword openParen : Token)
    (variableType : Node) (identifier inKeyword : Token) (expression : Node)
    (closeParen : Token) (statement : Node) (info : Info := {}) : Node :=
  .mk info .forEachStatement
    (.cons (.token foreachKeyword) (.cons (.token openParen) (.cons (.node variableType)
      (.cons (.token identifier) (.cons (.token inKeyword) (.cons (.node expression)
      (.cons (.token closeParen) (.cons (.node statement) .nil))))))))

@[match_pattern] abbrev literalExpression (token : Token) (info : Info := {}) : Node :=
  .mk info .literalExpression (.cons (.token token) .nil)

@[match_pattern] abbrev thisExpression (thisKeyword : Token) (info : Info := {}) : Node :=
  .mk info .thisExpression (.cons (.token thisKeyword) .nil)

@[match_pattern] abbrev parenthesizedExpression (openParen : Token) (expression : Node)
    (closeParen : Token) (info : Info := {}) : Node :=
  .mk info .parenthesizedExpression
    (.cons (.token openParen) (.cons (.node expression) (.cons (.token closeParen) .nil)))

@[match_pattern] abbrev binaryExpression (left : Node) (operator : Token) (right : Node)
    (info : Info := {}) : Node :=
  .mk info .binaryExpression
    (.cons (.node left) (.cons (.token operator) (.cons (.node right) .nil)))

@[match_pattern] abbrev prefixUnaryExpression (operator : Token) (operand : Node)
    (info : Info := {}) : Node :=
  .mk info .prefixUnaryExpression (.cons (.token operator) (.cons (.node operand) .nil))

@[match_pattern] abbrev assignmentExpression (left : Node) (operator : Token) (right : Node)
    (info : Info := {}) : Node :=
  .mk info .assignmentExpression
    (.cons (.node left) (.cons (.token operator) (.cons (.node right) .nil)))

@[match_pattern] abbrev invocationExpression (expression argumentList : Node)
    (info : Info := {}) : Node :=
  .mk info .invocationExpression (.cons (.node expression) (.cons (.node argumentList) .nil))

@[match_pattern] abbrev argumentList (openParen : Token) (arguments : Separated Node Token)
    (closeParen : Token) (info : Info := {}) : Node :=
  .mk info .argumentList
    (.cons (.token openParen) (.cons (.separated arguments) (.cons (.token closeParen) .nil)))

@[match_pattern] abbrev argument (refKindKeyword : Option Token) (expression : Node)
    (info : Info := {}) : Node :=
  .mk info .argument (.cons (.optToken refKindKeyword) (.cons (.node expression) .nil))

@[match_pattern] abbrev memberAccessExpression (expression : Node) (dot : Token) (name : Node)
    (info : Info := {}) : Node :=
  .mk info .memberAccessExpression
    (.cons (.node expression) (.cons (.token dot) (.cons (.node name) .nil)))

@[match_pattern] abbrev objectCreationExpression (newKeyword : Token) (createdType : Node)
    (argumentList : Option Node) (info : Info := {}) : Node :=
  .mk info .objectCreationExpression
    (.cons (.token newKeyword) (.cons (.node createdType) (.cons (.optNode argumentList) .nil)))

@[match_pattern] abbrev documentationComment (content : List Node) (endOfComment : Token)
    (info : Info := {}) : Node :=
  .mk info .documentationComment (.cons (.nodes content) (.cons (.token endOfComment) .nil))

@[match_pattern] abbrev xmlElement (startTag : Node) (content : List Node) (endTag : Node)
    (info : Info := {}) : Node :=
  .mk info .xmlElement
    (.cons (.node startTag) (.cons (.nodes content) (.cons (.node endTag) .nil)))

@[match_pattern] abbrev xmlElementStartTag (lessThan name : Token) (attributes : List Token)
    (greaterThan : Token) (info : Info := {}) : Node :=
  .mk info .xmlElementStartTag
    (.cons (.token lessThan) (.cons (.token name) (.cons (.tokens attributes)
      (.cons (.token greaterThan) .nil))))

@[match_pattern] abbrev xmlElementEndTag (lessThanSlash name greaterThan : Token)
    (info : Info := {}) : Node :=
  .mk info .xmlElementEndTag
    (.cons (.token lessThanSlash) (.cons (.token name) (.cons (.token greaterThan) .nil)))

@[match_pattern] abbrev xmlText (textTokens : List Token) (info : Info := {}) : Node :=
  .mk info .xmlText (.cons (.tokens textTokens) .nil)

end SourceTree.Node
