import SourceTree.Layout.Comment

/-!
How a node looks. The layout of a node is put together from the looks of its children: the
text it has within a line, and the lines it has in each place where it can stand. A kind
without a layout of its own is written as its tokens with single spaces between them.
-/
namespace SourceTree.Layout

structure TokenLook where
  text : String
  /-- The lines kept from the trivia in front of the token. -/
  before : Nat → List Line

/-- Functions of a level give the lines for that level of indentation. -/
structure Look where
  kind : Kind
  /-- Within a line. -/
  inline : String
  /-- The lines kept from the trivia in front of the first token. -/
  before : Nat → List Line
  /-- Among declarations or statements. -/
  item : Nat → List Line
  /-- As the body of a declaration or the statement of another statement. -/
  statement : Nat → List Line
  /-- Directly behind an `else`. -/
  chained : Nat → List Line
  /-- At the end of an `if` statement. -/
  clause : Nat → List Line
  /-- Behind the header of a property. -/
  behind : String → Nat → List Line
  /-- The text of an accessor that has no body. -/
  autoAccessor? : Option String

inductive SlotLook where
  | node (child : Look)
  | optNode (child : Option Look)
  | token (child : TokenLook)
  | optToken (child : Option TokenLook)
  | nodes (children : List Look)
  | tokens (children : List TokenLook)
  | separated (children : List Look) (trailing : Bool)

/-! ### Within a line -/

/-- Each modifier with a space behind it. -/
def modifierText (modifiers : List TokenLook) : String :=
  String.join (modifiers.map fun modifier => modifier.text ++ " ")

def commaText (items : List Look) : String := String.intercalate ", " (items.map Look.inline)

/-- Nothing, or a child behind `lead`. -/
def optText (lead : String) : Option Look → String
  | none => ""
  | some child => lead ++ child.inline

/-- Nothing, or a token with a space behind it. -/
def optToken : Option TokenLook → String
  | none => ""
  | some token => token.text ++ " "

/-- The text of a node within a line; `plain` is that of a kind with no layout of its own. -/
def inlineText (plain : String) : Kind → List SlotLook → String
  | .identifierName, [.token identifier] => identifier.text
  | .qualifiedName, [.node left, _, .node right] => left.inline ++ "." ++ right.inline
  | .genericName, [.token identifier, .node arguments] => identifier.text ++ arguments.inline
  | .typeArgumentList, [_, .separated arguments _, _] => "<" ++ commaText arguments ++ ">"
  | .predefinedType, [.token keyword] => keyword.text
  | .literalExpression, [.token token] => token.text
  | .thisExpression, [.token keyword] => keyword.text
  | .parenthesizedExpression, [_, .node expression, _] => "(" ++ expression.inline ++ ")"
  | .binaryExpression, [.node left, .token operator, .node right] =>
    left.inline ++ " " ++ operator.text ++ " " ++ right.inline
  | .prefixUnaryExpression, [.token operator, .node operand] => operator.text ++ operand.inline
  | .assignmentExpression, [.node left, .token operator, .node right] =>
    left.inline ++ " " ++ operator.text ++ " " ++ right.inline
  | .invocationExpression, [.node expression, .node arguments] =>
    expression.inline ++ arguments.inline
  | .argumentList, [_, .separated arguments _, _] => "(" ++ commaText arguments ++ ")"
  | .argument, [.optToken keyword, .node expression] => optToken keyword ++ expression.inline
  | .memberAccessExpression, [.node expression, _, .node name] =>
    expression.inline ++ "." ++ name.inline
  | .objectCreationExpression, [_, .node type, .optNode arguments] =>
    "new " ++ type.inline ++ optText "" arguments
  | .variableDeclaration, [.node type, .separated declarators _] =>
    type.inline ++ " " ++ commaText declarators
  | .variableDeclarator, [.token identifier, .optNode initializer] =>
    identifier.text ++ optText " " initializer
  | .equalsValueClause, [.token equals, .node value] => equals.text ++ " " ++ value.inline
  | .parameterList, [_, .separated parameters _, _] => "(" ++ commaText parameters ++ ")"
  | .parameter,
      [.nodes attributes, .tokens modifiers, .node type, .token identifier, .optNode value] =>
    String.join (attributes.map fun list => list.inline ++ " ") ++ modifierText modifiers ++
      type.inline ++ " " ++ identifier.text ++ optText " " value
  | .typeParameterList, [_, .separated parameters _, _] => "<" ++ commaText parameters ++ ">"
  | .typeParameter, [.token identifier] => identifier.text
  | .baseList, [_, .separated types _] => ": " ++ commaText types
  | .simpleBaseType, [.node type] => type.inline
  | .attributeList, [_, .separated attributes _, _] => "[" ++ commaText attributes ++ "]"
  | .attributeItem, [.node name, .optNode arguments] => name.inline ++ optText "" arguments
  | .usingDirective, [_, .optToken keyword, .node name, _] =>
    "using " ++ optToken keyword ++ name.inline ++ ";"
  | .enumMemberDeclaration, [_, .token identifier, .optNode value] =>
    identifier.text ++ optText " " value
  | _, _ => plain

/-! ### In lines -/

/-- A block stands at the level of its owner, another statement one level deeper. -/
def embedded (child : Look) (level : Nat) : List Line :=
  child.statement (if child.kind = .block then level else level + 1)

def attributeLines (attributes : List Look) (level : Nat) : List Line :=
  attributes.map fun list => ⟨level, list.inline⟩

def typeHeader (modifiers : List TokenLook) (keyword identifier : TokenLook)
    (typeParameters baseList : Option Look) : String :=
  modifierText modifiers ++ keyword.text ++ " " ++ identifier.text ++ optText "" typeParameters ++
    optText " " baseList

def braced (level : Nat) (header : String) (body : List Line) : List Line :=
  ⟨level, header⟩ :: ⟨level, "\x7b"⟩ :: body ++ [⟨level, "\x7d"⟩]

def itemLines (items : List Look) (level : Nat) : List Line :=
  items.flatMap fun item => item.item level

/-- One blank line between members. -/
def memberLines (members : List Look) (level : Nat) : List Line :=
  List.intercalate [Line.blank] (members.map fun member => member.item level)

/-- Usings, then members, with a blank line between where both are present. -/
def unitLines (usings members : List Look) (level : Nat) : List Line :=
  itemLines usings level ++
    (if usings.isEmpty || members.isEmpty then [] else [Line.blank]) ++ memberLines members level

/-- The members of an enumeration, each with the comma that follows it. -/
def enumLines (trailing : Bool) (level : Nat) : List Look → List Line
  | [] => []
  | [member] => member.before level ++ [⟨level, member.inline ++ if trailing then "," else ""⟩]
  | member :: next :: rest =>
    member.before level ++ ⟨level, member.inline ++ ","⟩ :: enumLines trailing level (next :: rest)

/-- A header with a body, or closed by a semicolon. -/
def bodyLines (level : Nat) (header : String) : Option Look → List Line
  | none => [⟨level, header ++ ";"⟩]
  | some body => ⟨level, header⟩ :: embedded body level

/-- A declaration as an item; `other` are the lines of anything else. -/
def itemOf (level : Nat) (before other : List Line) : Kind → List SlotLook → List Line
  | .compilationUnit, [.nodes usings, .nodes members, .token endOfFile] =>
    unitLines usings members level ++ endOfFile.before level
  | .namespaceDeclaration, [_, .node name, _, .nodes usings, .nodes members, _] =>
    before ++ braced level ("namespace " ++ name.inline) (unitLines usings members (level + 1))
  | .classDeclaration, [.nodes attributes, .tokens modifiers, .token keyword, .token identifier,
      .optNode typeParameters, .optNode baseList, _, .nodes members, _] =>
    before ++ attributeLines attributes level ++
      braced level (typeHeader modifiers keyword identifier typeParameters baseList)
        (memberLines members (level + 1))
  | .interfaceDeclaration, [.nodes attributes, .tokens modifiers, .token keyword,
      .token identifier, .optNode typeParameters, .optNode baseList, _, .nodes members, _] =>
    before ++ attributeLines attributes level ++
      braced level (typeHeader modifiers keyword identifier typeParameters baseList)
        (memberLines members (level + 1))
  | .enumDeclaration, [.nodes attributes, .tokens modifiers, .token keyword, .token identifier,
      .optNode baseList, _, .separated members trailing, _] =>
    before ++ attributeLines attributes level ++
      braced level (typeHeader modifiers keyword identifier none baseList)
        (enumLines trailing (level + 1) members)
  | .methodDeclaration, [.nodes attributes, .tokens modifiers, .node returnType,
      .token identifier, .optNode typeParameters, .node parameters, .optNode body, _] =>
    before ++ attributeLines attributes level ++
      bodyLines level (modifierText modifiers ++ returnType.inline ++ " " ++ identifier.text ++
        optText "" typeParameters ++ parameters.inline) body
  | .constructorDeclaration, [.nodes attributes, .tokens modifiers, .token identifier,
      .node parameters, .optNode body, _] =>
    before ++ attributeLines attributes level ++
      bodyLines level (modifierText modifiers ++ identifier.text ++ parameters.inline) body
  | .propertyDeclaration, [.nodes attributes, .tokens modifiers, .node type, .token identifier,
      .node accessors] =>
    before ++ attributeLines attributes level ++
      accessors.behind (modifierText modifiers ++ type.inline ++ " " ++ identifier.text) level
  | .accessorDeclaration, [.tokens modifiers, .token keyword, .optNode body, _] =>
    before ++ bodyLines level (modifierText modifiers ++ keyword.text) body
  | .fieldDeclaration, [.nodes attributes, .tokens modifiers, .node declaration, _] =>
    before ++ attributeLines attributes level ++
      [⟨level, modifierText modifiers ++ declaration.inline ++ ";"⟩]
  | _, _ => other

/-- An `if` statement from its first word on. -/
def ifLines (level : Nat) (opening : String) (condition statement : Look)
    (otherwise : Option Look) : List Line :=
  ⟨level, opening ++ condition.inline ++ ")"⟩ :: embedded statement level ++
    match otherwise with
    | some clause => clause.clause level
    | none => []

/-- A statement without the lines before it. -/
def statementOf (level : Nat) (inline : String) : Kind → List SlotLook → List Line
  | .block, [_, .nodes statements, _] =>
    ⟨level, "\x7b"⟩ :: itemLines statements (level + 1) ++ [⟨level, "\x7d"⟩]
  | .localDeclarationStatement, [.node declaration, _] => [⟨level, declaration.inline ++ ";"⟩]
  | .expressionStatement, [.node expression, _] => [⟨level, expression.inline ++ ";"⟩]
  | .returnStatement, [_, .optNode expression, _] =>
    [⟨level, "return" ++ optText " " expression ++ ";"⟩]
  | .ifStatement, [_, _, .node condition, _, .node statement, .optNode otherwise] =>
    ifLines level "if (" condition statement otherwise
  | .whileStatement, [_, _, .node condition, _, .node statement] =>
    ⟨level, "while (" ++ condition.inline ++ ")"⟩ :: embedded statement level
  | .forEachStatement, [_, _, .node type, .token identifier, _, .node expression, _,
      .node statement] =>
    ⟨level, "foreach (" ++ type.inline ++ " " ++ identifier.text ++ " in " ++ expression.inline ++
      ")"⟩ :: embedded statement level
  | _, _ => [⟨level, inline⟩]

/-- Only an `if` continues the line of an `else`. -/
def chainedOf (level : Nat) : Kind → List SlotLook → List Line
  | .ifStatement, [_, _, .node condition, _, .node statement, .optNode otherwise] =>
    ifLines level "else if (" condition statement otherwise
  | _, _ => []

def clauseOf (level : Nat) : Kind → List SlotLook → List Line
  | .elseClause, [_, .node statement] =>
    if statement.kind = .ifStatement then statement.chained level
    else ⟨level, "else"⟩ :: embedded statement level
  | _, _ => []

/-- The texts of accessors that all lack a body. -/
def autoAccessors? : List Look → Option (List String)
  | [] => some []
  | accessor :: rest =>
    match accessor.autoAccessor?, autoAccessors? rest with
    | some text, some texts => some (text :: texts)
    | _, _ => none

/-- Accessors without bodies stay within the line of the property. -/
def behindOf (level : Nat) (inline header : String) : Kind → List SlotLook → List Line
  | .accessorList, [_, .nodes accessors, _] =>
    match autoAccessors? accessors with
    | some texts => [⟨level, header ++ " \x7b " ++ String.intercalate " " texts ++ " \x7d"⟩]
    | none => braced level header (itemLines accessors (level + 1))
  | _, _ => [⟨level, header ++ " " ++ inline⟩]

def autoAccessorOf? : Kind → List SlotLook → Option String
  | .accessorDeclaration, [.tokens modifiers, .token keyword, .optNode none, _] =>
    some (modifierText modifiers ++ keyword.text ++ ";")
  | _, _ => none

/-- The look of a node of a given kind from the looks of its slots. -/
def Look.ofSlots (kind : Kind) (slots : List SlotLook) (plain : String)
    (before : Nat → List Line) : Look :=
  let inline := inlineText plain kind slots
  let statement := fun level => before level ++ statementOf level inline kind slots
  { kind
    inline
    before
    statement
    item := fun level => itemOf level (before level) (statement level) kind slots
    chained := fun level => chainedOf level kind slots
    clause := fun level => clauseOf level kind slots
    behind := fun header level => behindOf level inline header kind slots
    autoAccessor? := autoAccessorOf? kind slots }

/-! ### Whole trees -/

/-- The tokens that have a text, one space apart. -/
def spaced (node : Node) : String :=
  String.intercalate " " ((node.tokens.map Token.text).filter fun text => !text.isEmpty)

def tokenLook (token : Token) : TokenLook := { text := token.text, before := commentLines token }

mutual

def look : Node → Look
  | .mk info kind slots =>
    .ofSlots kind (slotLooks slots) (spaced (.mk info kind slots))
      (leadingLines (.mk info kind slots))

def slotLooks : {fields : List Field} → Slots fields → List SlotLook
  | _, .nil => []
  | _, .cons slot rest => slotLook slot :: slotLooks rest

def slotLook : {shape : Shape} → Slot shape → SlotLook
  | _, .node child => .node (look child)
  | _, .optNode none => .optNode none
  | _, .optNode (some child) => .optNode (some (look child))
  | _, .token child => .token (tokenLook child)
  | _, .optToken child => .optToken (child.map tokenLook)
  | _, .nodes children => .nodes (looks children)
  | _, .tokens children => .tokens (children.map tokenLook)
  | _, .separated ⟨elements, separators⟩ =>
    .separated (looks elements) (Separated.hasTrailing ⟨elements, separators⟩)

def looks : List Node → List Look
  | [] => []
  | node :: rest => look node :: looks rest

end

theorem looks_eq_map (nodes : List Node) : looks nodes = nodes.map look := by
  induction nodes with
  | nil => rfl
  | cons node nodes ih => rw [looks, ih, List.map_cons]

@[simp] theorem text_tokenLook (token : Token) : (tokenLook token).text = token.text := rfl

@[simp] theorem slotLook_node (child : Node) : slotLook (.node child) = .node (look child) := rfl

@[simp] theorem slotLook_optNode (child : Option Node) :
    slotLook (.optNode child) = .optNode (child.map look) := by
  cases child <;> rfl

@[simp] theorem slotLook_token (child : Token) :
    slotLook (.token child) = .token (tokenLook child) := rfl

@[simp] theorem slotLook_optToken (child : Option Token) :
    slotLook (.optToken child) = .optToken (child.map tokenLook) := rfl

@[simp] theorem slotLook_nodes (children : List Node) :
    slotLook (.nodes children) = .nodes (looks children) := rfl

@[simp] theorem slotLook_tokens (children : List Token) :
    slotLook (.tokens children) = .tokens (children.map tokenLook) := rfl

theorem kind_look (node : Node) : (look node).kind = node.kind := by
  cases node
  rfl

/-- The lines of a tree. They do not depend on any option. -/
def lines (node : Node) : List Line := (look node).item 0

end SourceTree.Layout
