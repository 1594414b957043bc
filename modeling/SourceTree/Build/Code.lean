import SourceTree.Build.Declaration

/-!
New statements and expressions.
-/
namespace SourceTree.Build

/-! ### Statements -/

def block (statements : List Node) : Node :=
  .block (punctuation "\x7b") statements (punctuation "\x7d")

def expressionStatement (expression : Node) : Node :=
  .expressionStatement expression (punctuation ";")

def returnStatement (expression : Option Node) : Node :=
  .returnStatement (keyword "return") expression (punctuation ";")

def localDeclaration (type : Node) (text : String) (initializer : Option Node) : Node :=
  .localDeclarationStatement (variableDeclaration type text initializer) (punctuation ";")

def ifStatement (condition statement : Node) (otherwise : Option Node) : Node :=
  .ifStatement (keyword "if") (punctuation "(") condition (punctuation ")") statement
    (otherwise.map fun statement => .elseClause (keyword "else") statement)

def whileStatement (condition statement : Node) : Node :=
  .whileStatement (keyword "while") (punctuation "(") condition (punctuation ")") statement

def forEachStatement (type : Node) (text : String) (expression statement : Node) : Node :=
  .forEachStatement (keyword "foreach") (punctuation "(") type (identifier text) (keyword "in")
    expression (punctuation ")") statement

/-! ### Expressions -/

/-- Puts `mark` in front of every occurrence of `target`. -/
def escapeChar (mark target : Char) (cs : List Char) : List Char :=
  cs.flatMap fun c => if c = target then [mark, c] else [c]

/-- Backslashes are escaped first, so that those put before quotes stay single. -/
def quote (value : String) : String :=
  "\"" ++ String.ofList (escapeChar '\\' '"' (escapeChar '\\' '\\' value.toList)) ++ "\""

def stringLiteral (value : String) : Node :=
  .literalExpression (.ofText .stringLiteral (quote value))

def numericLiteral (text : String) : Node := .literalExpression (.ofText .numericLiteral text)

/-- `true`, `false` or `null`. -/
def keywordLiteral (text : String) : Node := .literalExpression (keyword text)

def thisExpression : Node := .thisExpression (keyword "this")

def parenthesized (expression : Node) : Node :=
  .parenthesizedExpression (punctuation "(") expression (punctuation ")")

def binary (left : Node) (text : String) (right : Node) : Node :=
  .binaryExpression left (operator text) right

def prefixUnary (text : String) (operand : Node) : Node :=
  .prefixUnaryExpression (operator text) operand

def assignment (left right : Node) : Node := .assignmentExpression left (operator "=") right

def argument (expression : Node) : Node := .argument none expression

def argumentList (arguments : List Node) : Node :=
  .argumentList (punctuation "(") (commaList (arguments.map argument)) (punctuation ")")

def invocation (expression : Node) (arguments : List Node) : Node :=
  .invocationExpression expression (argumentList arguments)

def memberAccess (expression : Node) (member : String) : Node :=
  .memberAccessExpression expression (punctuation ".") (identifierName member)

/-- `Console.WriteLine` as nested member accesses. -/
def memberAccessPath (text : String) : Node := dotted memberAccess text

def objectCreation (type : Node) (arguments : List Node) : Node :=
  .objectCreationExpression (keyword "new") type (some (argumentList arguments))

end SourceTree.Build
