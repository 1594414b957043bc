import SourceTree.Layout.Look
import SourceTree.Layout.Sheet

/-!
Writing a tree on a sheet. Each node has a writer, which is put together from the writers of its
children; what a node writes depends on the place where it stands. Texts within a line are those
of `Look`.
-/
namespace SourceTree.Layout

/-- Functions of a level write for that level of indentation. -/
structure Writer where
  node : Node
  /-- Among declarations or statements. -/
  item : Nat → Sheet → Sheet
  /-- As the body of a declaration or the statement of another statement. -/
  statement : Nat → Sheet → Sheet
  /-- From the first word of an `if` on, with a text in front of it. -/
  chain : String → Nat → Sheet → Sheet
  /-- At the end of an `if` statement. -/
  clause : Nat → Sheet → Sheet
  /-- Behind the header of a property. -/
  behind : String → Nat → Sheet → Sheet

inductive SlotWriter where
  | node (child : Writer)
  | optNode (child : Option Writer)
  | token (child : Token)
  | optToken (child : Option Token)
  | nodes (children : List Writer)
  | tokens (children : List Token)
  | separated (children : List Writer) (trailing : Bool)

namespace Writer

def look (writer : Writer) : Look := Layout.look writer.node

def inline (writer : Writer) : String := writer.look.inline

/-- A block stands at the level of its owner, another statement one level deeper. -/
def embedded (child : Writer) (level : Nat) : Sheet → Sheet :=
  if child.node.kind = .block then child.statement level else child.statement (level + 1)

end Writer

namespace Sheet

def items (items : List Writer) (level : Nat) : Sheet → Sheet :=
  each items fun item => item.item level

/-- A blank line before every member but the first. -/
def members (members : List Writer) (level : Nat) : Sheet → Sheet :=
  each members.zipIdx fun entry sheet =>
    entry.1.item level (if 0 < entry.2 then sheet.blank else sheet)

def usingsThenMembers (usings members : List Writer) (level : Nat) (sheet : Sheet) : Sheet :=
  let sheet := sheet.items usings level
  let sheet := if !usings.isEmpty && !members.isEmpty then sheet.blank else sheet
  sheet.members members level

def braced (header : String) (level : Nat) (body : Sheet → Sheet) (sheet : Sheet) : Sheet :=
  (body ((sheet.line level header).line level "\x7b")).line level "\x7d"

def attributes (lists : List Writer) (level : Nat) : Sheet → Sheet :=
  each lists fun list => line level list.inline

/-- Each member on a line, with a comma behind it unless it is the last and none follows it. -/
def enumMembers (members : List Writer) (trailing : Bool) (level : Nat) : Sheet → Sheet :=
  each members.zipIdx fun entry sheet =>
    let last := entry.2 + 1 == members.length
    let comma := if !last || trailing then "," else ""
    (sheet.leadingComments entry.1.node level).line level (entry.1.inline ++ comma)

/-- A header with a body, or closed by a semicolon. -/
def body (header : String) (level : Nat) (body : Option Writer) (sheet : Sheet) : Sheet :=
  match body with
  | some body => body.embedded level (sheet.line level header)
  | none => sheet.line level (header ++ ";")

/-- A declaration as an item; `other` writes anything else. -/
def itemOf (node : Node) (level : Nat) (other : Sheet → Sheet) :
    Kind → List SlotWriter → Sheet → Sheet
  | .compilationUnit, [.nodes usings, .nodes members, .token endOfFile], sheet =>
    (sheet.usingsThenMembers usings members level).comments endOfFile level
  | .namespaceDeclaration, [_, .node name, _, .nodes usings, .nodes members, _], sheet =>
    (sheet.leadingComments node level).braced ("namespace " ++ name.inline) level
      (usingsThenMembers usings members (level + 1))
  | .classDeclaration, [.nodes lists, .tokens modifiers, .token keyword, .token identifier,
      .optNode typeParameters, .optNode baseList, _, .nodes members, _], sheet
  | .interfaceDeclaration, [.nodes lists, .tokens modifiers, .token keyword, .token identifier,
      .optNode typeParameters, .optNode baseList, _, .nodes members, _], sheet =>
    let header := typeHeader (modifiers.map tokenLook) (tokenLook keyword) (tokenLook identifier)
      (typeParameters.map Writer.look) (baseList.map Writer.look)
    ((sheet.leadingComments node level).attributes lists level).braced header level
      (Sheet.members members (level + 1))
  | .enumDeclaration, [.nodes lists, .tokens modifiers, .token keyword, .token identifier,
      .optNode baseList, _, .separated members trailing, _], sheet =>
    let header := typeHeader (modifiers.map tokenLook) (tokenLook keyword) (tokenLook identifier)
      none (baseList.map Writer.look)
    ((sheet.leadingComments node level).attributes lists level).braced header level
      (enumMembers members trailing (level + 1))
  | .methodDeclaration, [.nodes lists, .tokens modifiers, .node returnType, .token identifier,
      .optNode typeParameters, .node parameters, .optNode body, _], sheet =>
    let header := modifierText (modifiers.map tokenLook) ++ returnType.inline ++ " " ++
      identifier.text ++ optText "" (typeParameters.map Writer.look) ++ parameters.inline
    ((sheet.leadingComments node level).attributes lists level).body header level body
  | .constructorDeclaration, [.nodes lists, .tokens modifiers, .token identifier,
      .node parameters, .optNode body, _], sheet =>
    let header := modifierText (modifiers.map tokenLook) ++ identifier.text ++ parameters.inline
    ((sheet.leadingComments node level).attributes lists level).body header level body
  | .propertyDeclaration, [.nodes lists, .tokens modifiers, .node type, .token identifier,
      .node accessors], sheet =>
    let header := modifierText (modifiers.map tokenLook) ++ type.inline ++ " " ++ identifier.text
    accessors.behind header level ((sheet.leadingComments node level).attributes lists level)
  | .accessorDeclaration, [.tokens modifiers, .token keyword, .optNode body, _], sheet =>
    let header := modifierText (modifiers.map tokenLook) ++ keyword.text
    (sheet.leadingComments node level).body header level body
  | .fieldDeclaration, [.nodes lists, .tokens modifiers, .node declaration, _], sheet =>
    ((sheet.leadingComments node level).attributes lists level).line level
      (modifierText (modifiers.map tokenLook) ++ declaration.inline ++ ";")
  | _, _, sheet => other sheet

/-- An `if` statement from its first word on; `other` writes anything else. -/
def chainOf (lead : String) (level : Nat) (other : Sheet → Sheet) :
    Kind → List SlotWriter → Sheet → Sheet
  | .ifStatement, [_, _, .node condition, _, .node statement, .optNode otherwise], sheet =>
    let sheet := sheet.line level (lead ++ "if (" ++ condition.inline ++ ")")
    let sheet := statement.embedded level sheet
    match otherwise with
    | some clause => clause.clause level sheet
    | none => sheet
  | _, _, sheet => other sheet

/-- Only an `else` has something to write at the end of an `if` statement. -/
def clauseOf (level : Nat) : Kind → List SlotWriter → Sheet → Sheet
  | .elseClause, [_, .node statement], sheet =>
    if statement.node.kind = .ifStatement then statement.chain "else " level sheet
    else statement.embedded level (sheet.line level "else")
  | _, _, sheet => sheet

/-- A statement behind what is kept from in front of it; `chain` writes an `if`. -/
def statementOf (inline : String) (level : Nat) (chain : Sheet → Sheet) :
    Kind → List SlotWriter → Sheet → Sheet
  | .block, [_, .nodes statements, _], sheet =>
    ((sheet.line level "\x7b").items statements (level + 1)).line level "\x7d"
  | .localDeclarationStatement, [.node declaration, _], sheet =>
    sheet.line level (declaration.inline ++ ";")
  | .expressionStatement, [.node expression, _], sheet =>
    sheet.line level (expression.inline ++ ";")
  | .returnStatement, [_, .optNode expression, _], sheet =>
    match expression with
    | some value => sheet.line level ("return " ++ value.inline ++ ";")
    | none => sheet.line level "return;"
  | .ifStatement, _, sheet => chain sheet
  | .whileStatement, [_, _, .node condition, _, .node statement], sheet =>
    statement.embedded level (sheet.line level ("while (" ++ condition.inline ++ ")"))
  | .forEachStatement, [_, _, .node type, .token identifier, _, .node expression, _,
      .node statement], sheet =>
    statement.embedded level (sheet.line level ("foreach (" ++ type.inline ++ " " ++
      identifier.text ++ " in " ++ expression.inline ++ ")"))
  | _, _, sheet => sheet.line level inline

/-- Accessors without bodies stay within the line of the property. -/
def behindOf (inline header : String) (level : Nat) : Kind → List SlotWriter → Sheet → Sheet
  | .accessorList, [_, .nodes accessors, _], sheet =>
    match autoAccessors? (accessors.map Writer.look) with
    | some texts => sheet.line level (header ++ " \x7b " ++ String.intercalate " " texts ++ " \x7d")
    | none => sheet.braced header level (items accessors (level + 1))
  | _, _, sheet => sheet.line level (header ++ " " ++ inline)

end Sheet

/-- The writer of a node from those of its slots. -/
def Writer.ofSlots (node : Node) (slots : List SlotWriter) : Writer :=
  -- an `if` is written as a chain, and a chain that starts with anything else is a statement
  let inline := (Layout.look node).inline
  let link := fun lead level => Sheet.chainOf lead level id node.kind slots
  let statement := fun level sheet =>
    (sheet.leadingComments node level).statementOf inline level (link "" level) node.kind slots
  { node
    statement
    item := fun level => Sheet.itemOf node level (statement level) node.kind slots
    chain := fun lead level => Sheet.chainOf lead level (statement level) node.kind slots
    clause := fun level => Sheet.clauseOf level node.kind slots
    behind := fun header level => Sheet.behindOf inline header level node.kind slots }

mutual

def writer : Node → Writer
  | .mk info kind slots => .ofSlots (.mk info kind slots) (slotWriters slots)

def slotWriters : {fields : List Field} → Slots fields → List SlotWriter
  | _, .nil => []
  | _, .cons slot rest => slotWriter slot :: slotWriters rest

def slotWriter : {shape : Shape} → Slot shape → SlotWriter
  | _, .node child => .node (writer child)
  | _, .optNode none => .optNode none
  | _, .optNode (some child) => .optNode (some (writer child))
  | _, .token child => .token child
  | _, .optToken child => .optToken child
  | _, .nodes children => .nodes (writers children)
  | _, .tokens children => .tokens children
  | _, .separated ⟨elements, separators⟩ =>
    .separated (writers elements) (Separated.hasTrailing ⟨elements, separators⟩)

def writers : List Node → List Writer
  | [] => []
  | node :: rest => writer node :: writers rest

end

end SourceTree.Layout
