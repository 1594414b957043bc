import SourceTree.Build.Name

/-!
New declarations.
-/
namespace SourceTree.Build

def usingDirective (text : String) : Node :=
  .usingDirective (keyword "using") none (name text) (punctuation ";")

def staticUsingDirective (text : String) : Node :=
  .usingDirective (keyword "using") (some (keyword "static")) (name text) (punctuation ";")

def compilationUnit (usings members : List Node) : Node :=
  .compilationUnit usings members endOfFile

def namespaceDeclaration (text : String) (usings members : List Node) : Node :=
  .namespaceDeclaration (keyword "namespace") (name text) (punctuation "\x7b") usings members
    (punctuation "\x7d")

def classDeclaration (keywords : List String) (text : String) (members : List Node) : Node :=
  .classDeclaration [] (modifiers keywords) (keyword "class") (identifier text) none none
    (punctuation "\x7b") members (punctuation "\x7d")

def interfaceDeclaration (keywords : List String) (text : String) (members : List Node) : Node :=
  .interfaceDeclaration [] (modifiers keywords) (keyword "interface") (identifier text) none none
    (punctuation "\x7b") members (punctuation "\x7d")

def enumMember (text : String) : Node := .enumMemberDeclaration [] (identifier text) none

def enumDeclaration (keywords : List String) (text : String) (members : List String) : Node :=
  .enumDeclaration [] (modifiers keywords) (keyword "enum") (identifier text) none
    (punctuation "\x7b") (commaList (members.map enumMember)) (punctuation "\x7d")

/-- `: A, B` -/
def baseList (types : List Node) : Node :=
  .baseList (punctuation ":") (commaList (types.map fun type => .simpleBaseType type))

def parameterList (parameters : List Node) : Node :=
  .parameterList (punctuation "(") (commaList parameters) (punctuation ")")

def parameter (type : Node) (text : String) : Node := .parameter [] [] type (identifier text) none

/-- The semicolon of a declaration that has no body. -/
def closing (body : Option Node) : Option Token :=
  if body.isNone then some (punctuation ";") else none

def methodDeclaration (keywords : List String) (returnType : Node) (text : String)
    (parameters : List Node) (body : Option Node) : Node :=
  .methodDeclaration [] (modifiers keywords) returnType (identifier text) none
    (parameterList parameters) body (closing body)

def constructorDeclaration (keywords : List String) (text : String) (parameters : List Node)
    (body : Node) : Node :=
  .constructorDeclaration [] (modifiers keywords) (identifier text) (parameterList parameters)
    (some body) none

def accessorDeclaration (text : String) (body : Option Node) : Node :=
  .accessorDeclaration [] (keyword text) body (closing body)

/-- A property with the accessors `get` and `set` and no bodies. -/
def propertyDeclaration (keywords : List String) (type : Node) (text : String) : Node :=
  .propertyDeclaration [] (modifiers keywords) type (identifier text)
    (.accessorList (punctuation "\x7b")
      [accessorDeclaration "get" none, accessorDeclaration "set" none] (punctuation "\x7d"))

def variableDeclaration (type : Node) (text : String) (initializer : Option Node) : Node :=
  .variableDeclaration type (commaList [.variableDeclarator (identifier text)
    (initializer.map fun value => .equalsValueClause (operator "=") value)])

def fieldDeclaration (keywords : List String) (type : Node) (text : String)
    (initializer : Option Node) : Node :=
  .fieldDeclaration [] (modifiers keywords) (variableDeclaration type text initializer)
    (punctuation ";")

def attributeList (names : List String) : Node :=
  .attributeList (punctuation "[")
    (commaList (names.map fun text => .attributeItem (name text) none)) (punctuation "]")

end SourceTree.Build
