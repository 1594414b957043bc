import SourceTree.Proofs.Layout.Agreement
import SourceTree.Proofs.Layout.Sheet

/-!
Trees built from scratch. A built tree comes from the functions of `SourceTree.Build` alone; any
built node may stand wherever one of them asks for a node, and any text wherever it asks for a
text. Main result: up to blanks, the layout of a built tree is its text.
-/
namespace SourceTree

namespace Build

/-- The nodes that the functions for names, types, declarations, statements and expressions make
out of each other. -/
inductive Built : Node → Prop where
  | identifierName (text : String) : Built (identifierName text)
  | name (text : String) : Built (name text)
  | predefinedType (text : String) : Built (predefinedType text)
  | genericName (text : String) {arguments : List Node} :
    (∀ node ∈ arguments, Built node) → Built (genericName text arguments)
  | typeName (text : String) : Built (typeName text)
  | usingDirective (text : String) : Built (usingDirective text)
  | staticUsingDirective (text : String) : Built (staticUsingDirective text)
  | compilationUnit {usings members : List Node} : (∀ node ∈ usings, Built node) →
    (∀ node ∈ members, Built node) → Built (compilationUnit usings members)
  | namespaceDeclaration (text : String) {usings members : List Node} :
    (∀ node ∈ usings, Built node) → (∀ node ∈ members, Built node) →
    Built (namespaceDeclaration text usings members)
  | classDeclaration (keywords : List String) (text : String) {members : List Node} :
    (∀ node ∈ members, Built node) → Built (classDeclaration keywords text members)
  | interfaceDeclaration (keywords : List String) (text : String) {members : List Node} :
    (∀ node ∈ members, Built node) → Built (interfaceDeclaration keywords text members)
  | enumDeclaration (keywords : List String) (text : String) (members : List String) :
    Built (enumDeclaration keywords text members)
  | baseList {types : List Node} : (∀ node ∈ types, Built node) → Built (baseList types)
  | methodDeclaration (keywords : List String) {type : Node} (text : String)
    {parameters : List Node} {body : Option Node} : Built type →
    (∀ node ∈ parameters, Built node) → (∀ node ∈ body, Built node) →
    Built (methodDeclaration keywords type text parameters body)
  | constructorDeclaration (keywords : List String) (text : String) {parameters : List Node}
    {body : Node} : (∀ node ∈ parameters, Built node) → Built body →
    Built (constructorDeclaration keywords text parameters body)
  | parameterList {parameters : List Node} :
    (∀ node ∈ parameters, Built node) → Built (parameterList parameters)
  | parameter {type : Node} (text : String) : Built type → Built (parameter type text)
  | propertyDeclaration (keywords : List String) {type : Node} (text : String) :
    Built type → Built (propertyDeclaration keywords type text)
  | accessorDeclaration (text : String) {body : Option Node} :
    (∀ node ∈ body, Built node) → Built (accessorDeclaration text body)
  | fieldDeclaration (keywords : List String) {type : Node} (text : String)
    {initializer : Option Node} : Built type → (∀ node ∈ initializer, Built node) →
    Built (fieldDeclaration keywords type text initializer)
  | variableDeclaration {type : Node} (text : String) {initializer : Option Node} :
    Built type → (∀ node ∈ initializer, Built node) →
    Built (variableDeclaration type text initializer)
  | attributeList (names : List String) : Built (attributeList names)
  | block {statements : List Node} : (∀ node ∈ statements, Built node) → Built (block statements)
  | expressionStatement {expression : Node} :
    Built expression → Built (expressionStatement expression)
  | returnStatement {expression : Option Node} :
    (∀ node ∈ expression, Built node) → Built (returnStatement expression)
  | localDeclaration {type : Node} (text : String) {initializer : Option Node} :
    Built type → (∀ node ∈ initializer, Built node) →
    Built (localDeclaration type text initializer)
  | ifStatement {condition statement : Node} {otherwise : Option Node} : Built condition →
    Built statement → (∀ node ∈ otherwise, Built node) →
    Built (ifStatement condition statement otherwise)
  | whileStatement {condition statement : Node} :
    Built condition → Built statement → Built (whileStatement condition statement)
  | forEachStatement {type : Node} (text : String) {expression statement : Node} : Built type →
    Built expression → Built statement →
    Built (forEachStatement type text expression statement)
  | stringLiteral (value : String) : Built (stringLiteral value)
  | numericLiteral (text : String) : Built (numericLiteral text)
  | keywordLiteral (text : String) : Built (keywordLiteral text)
  | thisExpression : Built thisExpression
  | parenthesized {expression : Node} : Built expression → Built (parenthesized expression)
  | binary {left right : Node} (text : String) :
    Built left → Built right → Built (binary left text right)
  | prefixUnary (text : String) {operand : Node} :
    Built operand → Built (prefixUnary text operand)
  | assignment {left right : Node} : Built left → Built right → Built (assignment left right)
  | argument {expression : Node} : Built expression → Built (argument expression)
  | argumentList {arguments : List Node} :
    (∀ node ∈ arguments, Built node) → Built (argumentList arguments)
  | invocation {expression : Node} {arguments : List Node} : Built expression →
    (∀ node ∈ arguments, Built node) → Built (invocation expression arguments)
  | memberAccess {expression : Node} (member : String) :
    Built expression → Built (memberAccess expression member)
  | memberAccessPath (text : String) : Built (memberAccessPath text)
  | objectCreation {type : Node} {arguments : List Node} : Built type →
    (∀ node ∈ arguments, Built node) → Built (objectCreation type arguments)

end Build

namespace Layout

open Build

/-! ### Parts that several functions share -/

theorem isBare_modifiers (keywords : List String) : ∀ token ∈ modifiers keywords, token.IsBare := by
  intro token h
  obtain ⟨text, -, rfl⟩ := List.mem_map.1 h
  exact Token.isBare_ofText

theorem agrees_identifierName (text : String) : Agrees (identifierName text) :=
  .identifierName Token.isBare_ofText

/-- Joining parts to a name from the left, one after the other. -/
theorem agrees_foldl {join : Node → String → Node}
    (hjoin : ∀ left part, Agrees left → Agrees (join left part)) (parts : List String)
    {left : Node} (h : Agrees left) : Agrees (parts.foldl join left) := by
  induction parts generalizing left with
  | nil => exact h
  | cons part parts ih => exact ih (hjoin left part h)

theorem agrees_dotted {join : Node → String → Node}
    (hjoin : ∀ left part, Agrees left → Agrees (join left part)) (text : String) :
    Agrees (dotted join text) := by
  unfold dotted
  split
  case h_1 => exact agrees_identifierName ""
  case h_2 first rest _ => exact agrees_foldl hjoin rest (agrees_identifierName first)

theorem agrees_memberAccess {expression : Node} (h : Agrees expression) (member : String) :
    Agrees (memberAccess expression member) :=
  .memberAccessExpression h Token.spells_ofText (agrees_identifierName member)

theorem agrees_name (text : String) : Agrees (name text) :=
  agrees_dotted (fun _ part h =>
    .qualifiedName h Token.spells_ofText (agrees_identifierName part)) text

theorem agrees_predefinedType (text : String) : Agrees (predefinedType text) :=
  .predefinedType Token.isBare_ofText

theorem agrees_parameterList {parameters : List Node} (h : ∀ node ∈ parameters, Agrees node) :
    Agrees (parameterList parameters) :=
  .parameterList Token.spells_ofText h Token.spells_ofText

theorem agrees_accessorDeclaration (text : String) {body : Option Node}
    (h : ∀ node ∈ body, Agrees node) : Agrees (accessorDeclaration text body) :=
  .accessorDeclaration nofun Token.isBare_ofText h

theorem agrees_variableDeclaration {type : Node} (text : String) {initializer : Option Node}
    (htype : Agrees type) (hinitializer : ∀ node ∈ initializer, Agrees node) :
    Agrees (variableDeclaration type text initializer) := by
  refine .variableDeclaration htype fun declarator hdeclarator => ?_
  obtain rfl := List.mem_singleton.1 hdeclarator
  refine .variableDeclarator Token.isBare_ofText fun clause hclause => ?_
  obtain ⟨value, hvalue, rfl⟩ := Option.map_eq_some_iff.1 hclause
  exact .equalsValueClause Token.isBare_ofText (hinitializer value hvalue)

theorem agrees_argument {expression : Node} (h : Agrees expression) :
    Agrees (argument expression) := .argument nofun h

theorem agrees_argumentList {arguments : List Node} (h : ∀ node ∈ arguments, Agrees node) :
    Agrees (argumentList arguments) := by
  refine .argumentList Token.spells_ofText (fun node hnode => ?_) Token.spells_ofText
  obtain ⟨expression, hexpression, rfl⟩ := List.mem_map.1 hnode
  exact agrees_argument (h expression hexpression)

/-- Both accessors lack a body, so the property stays within one line. -/
theorem agrees_propertyDeclaration (keywords : List String) {type : Node} (text : String)
    (h : Agrees type) : Agrees (propertyDeclaration keywords type text) := by
  have hwords : ∀ node ∈ [accessorDeclaration "get" none, accessorDeclaration "set" none],
      ∃ word, node = accessorDeclaration word none :=
    List.forall_mem_cons.2 ⟨⟨"get", rfl⟩, List.forall_mem_singleton.2 ⟨"set", rfl⟩⟩
  refine .propertyDeclaration nofun (isBare_modifiers keywords) h Token.isBare_ofText
    (Agrees.accessorList Token.spells_ofText (fun node hnode => ?_) (fun node hnode => ?_)
      Token.spells_ofText)
  · obtain ⟨word, rfl⟩ := hwords node hnode
    exact agrees_accessorDeclaration word nofun
  · obtain ⟨word, rfl⟩ := hwords node hnode
    exact Agrees.autoAccessor none nofun Token.isBare_ofText

theorem agrees_ifStatement {condition statement : Node} {otherwise : Option Node}
    (hcondition : Agrees condition) (hstatement : Agrees statement)
    (hotherwise : ∀ node ∈ otherwise, Agrees node) :
    Agrees (ifStatement condition statement otherwise) := by
  refine .ifStatement Token.spells_ofText Token.spells_ofText hcondition Token.spells_ofText
    hstatement fun clause hclause => ?_
  obtain ⟨node, hnode, rfl⟩ := Option.map_eq_some_iff.1 hclause
  exact Agrees.elseClause Token.spells_ofText (hotherwise node hnode)

/-- One case for each function that builds a node. -/
theorem agrees_of_built {tree : Node} (h : Built tree) : Agrees tree := by
  induction h with
  | identifierName text => exact agrees_identifierName text
  | name text => exact agrees_name text
  | predefinedType text => exact agrees_predefinedType text
  | genericName text _ ih =>
    exact .genericName Token.isBare_ofText
      (.typeArgumentList Token.spells_ofText ih Token.spells_ofText)
  | typeName text =>
    unfold typeName
    split
    · exact agrees_predefinedType text
    · exact agrees_name text
  | usingDirective text =>
    exact .usingDirective Token.spells_ofText nofun (agrees_name text) Token.spells_ofText
  | staticUsingDirective text =>
    refine .usingDirective Token.spells_ofText ?_ (agrees_name text) Token.spells_ofText
    rintro token ⟨⟩
    exact Token.isBare_ofText
  | compilationUnit _ _ husings hmembers =>
    exact .compilationUnit husings hmembers Token.spells_ofText
  | namespaceDeclaration text _ _ husings hmembers =>
    exact .namespaceDeclaration Token.spells_ofText (agrees_name text) Token.spells_ofText husings
      hmembers Token.spells_ofText
  | classDeclaration keywords text _ ih =>
    exact .classDeclaration nofun (isBare_modifiers keywords) Token.isBare_ofText
      Token.isBare_ofText nofun nofun Token.spells_ofText ih Token.spells_ofText
  | interfaceDeclaration keywords text _ ih =>
    exact .interfaceDeclaration nofun (isBare_modifiers keywords) Token.isBare_ofText
      Token.isBare_ofText nofun nofun Token.spells_ofText ih Token.spells_ofText
  | enumDeclaration keywords text members =>
    refine .enumDeclaration nofun (isBare_modifiers keywords) Token.isBare_ofText
      Token.isBare_ofText nofun Token.spells_ofText (fun node hnode => ?_) Token.spells_ofText
    obtain ⟨member, -, rfl⟩ := List.mem_map.1 hnode
    exact .enumMemberDeclaration Token.isBare_ofText nofun
  | baseList _ ih =>
    refine .baseList Token.spells_ofText fun node hnode => ?_
    obtain ⟨type, htype, rfl⟩ := List.mem_map.1 hnode
    exact .simpleBaseType (ih type htype)
  | methodDeclaration keywords text _ _ _ htype hparameters hbody =>
    exact .methodDeclaration nofun (isBare_modifiers keywords) htype Token.isBare_ofText nofun
      (agrees_parameterList hparameters) hbody
  | constructorDeclaration keywords text _ _ hparameters hbody =>
    refine .constructorDeclaration nofun (isBare_modifiers keywords) Token.isBare_ofText
      (agrees_parameterList hparameters) ?_
    rintro node ⟨⟩
    exact hbody
  | parameterList _ ih => exact agrees_parameterList ih
  | parameter text _ ih => exact .parameter nofun nofun ih Token.isBare_ofText nofun
  | propertyDeclaration keywords text _ ih => exact agrees_propertyDeclaration keywords text ih
  | accessorDeclaration text _ ih => exact agrees_accessorDeclaration text ih
  | fieldDeclaration keywords text _ _ htype hinitializer =>
    exact .fieldDeclaration nofun (isBare_modifiers keywords)
      (agrees_variableDeclaration text htype hinitializer) Token.spells_ofText
  | variableDeclaration text _ _ htype hinitializer =>
    exact agrees_variableDeclaration text htype hinitializer
  | attributeList names =>
    refine .attributeList Token.spells_ofText (fun node hnode => ?_) Token.spells_ofText
    obtain ⟨text, -, rfl⟩ := List.mem_map.1 hnode
    exact .attributeItem (agrees_name text) nofun
  | block _ ih => exact .block Token.spells_ofText ih Token.spells_ofText
  | expressionStatement _ ih => exact .expressionStatement ih Token.spells_ofText
  | returnStatement _ ih => exact .returnStatement Token.spells_ofText ih Token.spells_ofText
  | localDeclaration text _ _ htype hinitializer =>
    exact .localDeclarationStatement (agrees_variableDeclaration text htype hinitializer)
      Token.spells_ofText
  | ifStatement _ _ _ hcondition hstatement hotherwise =>
    exact agrees_ifStatement hcondition hstatement hotherwise
  | whileStatement _ _ hcondition hstatement =>
    exact .whileStatement Token.spells_ofText Token.spells_ofText hcondition Token.spells_ofText
      hstatement
  | forEachStatement text _ _ _ htype hexpression hstatement =>
    exact .forEachStatement Token.spells_ofText Token.spells_ofText htype Token.isBare_ofText
      Token.spells_ofText hexpression Token.spells_ofText hstatement
  | stringLiteral | numericLiteral | keywordLiteral =>
    exact .literalExpression Token.isBare_ofText
  | thisExpression => exact .thisExpression Token.isBare_ofText
  | parenthesized _ ih =>
    exact .parenthesizedExpression Token.spells_ofText ih Token.spells_ofText
  | binary text _ _ hleft hright => exact .binaryExpression hleft Token.isBare_ofText hright
  | prefixUnary text _ ih => exact .prefixUnaryExpression Token.isBare_ofText ih
  | assignment _ _ hleft hright => exact .assignmentExpression hleft Token.isBare_ofText hright
  | argument _ ih => exact agrees_argument ih
  | argumentList _ ih => exact agrees_argumentList ih
  | invocation _ _ hexpression harguments =>
    exact .invocationExpression hexpression (agrees_argumentList harguments)
  | memberAccess member _ ih => exact agrees_memberAccess ih member
  | memberAccessPath text => exact agrees_dotted (fun _ part h => agrees_memberAccess h part) text
  | objectCreation _ _ htype harguments =>
    refine .objectCreationExpression Token.spells_ofText htype ?_
    rintro node ⟨⟩
    exact agrees_argumentList harguments

/-- Up to blanks, the layout of a built tree is its text, whatever the indentation and whatever
blanks end the lines: no token is lost, doubled, moved or made up. -/
theorem ink_format {tree : Node} (h : Built tree) {options : Options}
    (hnewline : ∀ c ∈ options.newline.toList, c ∈ blanks) :
    ink (format tree options) = ink tree.text := by
  rw [format_eq_render, ink_render ((ink_eq_nil_iff _).2 hnewline)]
  exact (agrees_of_built h).item 0

/-- An `else` that continues with an `if`, and declarations in the places of statements. -/
def misplaced : Node :=
  ifStatement (keywordLiteral "true") (propertyDeclaration ["public"] (typeName "int") "Size")
    (some (ifStatement (memberAccessPath "this.open") (block [])
      (some (enumDeclaration [] "Color" ["Red", "Blue"]))))

theorem ink_format_misplaced :
    Built misplaced ∧ ink (format misplaced ⟨.tabs, "\r\n"⟩) = ink misplaced.text := by
  have hinner : Built (ifStatement (memberAccessPath "this.open") (block [])
      (some (enumDeclaration [] "Color" ["Red", "Blue"]))) := by
    refine .ifStatement (.memberAccessPath _) (.block nofun) ?_
    simpa using .enumDeclaration [] "Color" ["Red", "Blue"]
  have h : Built misplaced := by
    refine .ifStatement (.keywordLiteral _) (.propertyDeclaration _ _ (.typeName _)) ?_
    simpa using hinner
  exact ⟨h, ink_format h ((ink_eq_nil_iff "\r\n").1 rfl)⟩

end Layout

end SourceTree
