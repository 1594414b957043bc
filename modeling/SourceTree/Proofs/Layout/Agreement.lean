import Mathlib.Data.List.Basic
import SourceTree.Build.Code
import SourceTree.Proofs.Layout.Ink

/-!
Layout and text, kind by kind. A layout writes most keywords and all punctuation on its own and
takes the rest from the tree, in another way for each place where a node can stand. So the two
agree on a node, up to blanks, when they agree on its children and the tokens that the layout
does not look at spell what it writes in their stead.
-/
namespace SourceTree.Layout

open Build

/-- The layout of a tree has the ink of its text in every place where the tree can stand. -/
structure Agrees (node : Node) : Prop where
  bare : node.IsBare
  inline : ink (look node).inline = ink node.text
  statement (level : Nat) : lineInk ((look node).statement level) = ink node.text
  item (level : Nat) : lineInk ((look node).item level) = ink node.text
  /-- What stands behind an `else` writes that word too. -/
  chained (level : Nat) : node.kind = .ifStatement →
    lineInk ((look node).chained level) = ink "else" ++ ink node.text

/-! ### The place of a kind -/

/-- Where a kind has a layout of its own: within a line, in the lines of a statement or in those
of an item. -/
inductive Place where
  | line
  | statement
  | item

/-- In a later place a node looks as in the one before, in an earlier one as its plain tokens. -/
def place : Kind → Place
  | .block | .localDeclarationStatement | .expressionStatement | .returnStatement | .ifStatement
  | .whileStatement | .forEachStatement => .statement
  | .compilationUnit | .namespaceDeclaration | .classDeclaration | .interfaceDeclaration
  | .enumDeclaration | .methodDeclaration | .constructorDeclaration | .propertyDeclaration
  | .accessorDeclaration | .fieldDeclaration => .item
  | _ => .line

section Places

variable {info : Info} {kind : Kind} {slots : Slots kind.fields}

theorem inlineText_of_place (h : place kind ≠ .line) (plain : String) (pieces : List SlotLook) :
    inlineText plain kind pieces = plain := by
  cases kind
  -- The kinds of that place are excluded, and the others all come to the last branch.
  all_goals try exact absurd rfl h
  all_goals rfl

theorem statementOf_of_place (h : place kind ≠ .statement) (level : Nat) (text : String)
    (pieces : List SlotLook) : statementOf level text kind pieces = [⟨level, text⟩] := by
  cases kind
  all_goals try exact absurd rfl h
  all_goals rfl

theorem itemOf_of_place (h : place kind ≠ .item) (level : Nat) (before other : List Line)
    (pieces : List SlotLook) : itemOf level before other kind pieces = other := by
  cases kind
  all_goals try exact absurd rfl h
  all_goals rfl

/-- Nothing is kept in front of a bare node, so each of its looks is decided by its slots. -/
theorem Agrees.of_slots (bare : slots.IsBare)
    (inline : ink (look (.mk info kind slots)).inline = ink slots.text)
    (statement : ∀ level,
      lineInk (statementOf level (look (.mk info kind slots)).inline kind (slotLooks slots)) =
        ink slots.text)
    (item : ∀ level other, lineInk other = ink slots.text →
      lineInk (itemOf level [] other kind (slotLooks slots)) = ink slots.text)
    (chained : ∀ level, kind = .ifStatement →
      lineInk (chainedOf level kind (slotLooks slots)) = ink "else" ++ ink slots.text) :
    Agrees (.mk info kind slots) := by
  have hbefore : ∀ level, leadingLines (.mk info kind slots) level = [] :=
    Node.IsBare.leadingLines_eq bare
  have hstatement : ∀ level,
      lineInk ((look (.mk info kind slots)).statement level) = ink slots.text := by
    intro level
    rw [← statement level]
    simp only [look, Look.ofSlots, hbefore, List.nil_append]
  have hitem : ∀ level, lineInk ((look (.mk info kind slots)).item level) = ink slots.text := by
    intro level
    have h := item level _ (hstatement level)
    rw [← hbefore level] at h
    exact h
  exact ⟨bare, inline, hstatement, hitem, chained⟩

theorem ink_inline_of_place (bare : slots.IsBare) (h : place kind ≠ .line) :
    ink (look (.mk info kind slots)).inline = ink slots.text := by
  simp only [look, Look.ofSlots, inlineText_of_place h]
  exact Node.IsBare.ink_spaced bare

theorem lineInk_statement_of_place {text : String} (h : place kind ≠ .statement)
    (htext : ink text = ink slots.text) (level : Nat) :
    lineInk (statementOf level text kind (slotLooks slots)) = ink slots.text := by
  rw [statementOf_of_place h, lineInk_cons, lineInk_nil, List.append_nil, htext]

/-- A kind that is laid out within a line has that line in every other place too. -/
theorem Agrees.of_inline (h : place kind = .line) (bare : slots.IsBare)
    (inline : ∀ plain, ink (inlineText plain kind (slotLooks slots)) = ink slots.text) :
    Agrees (.mk info kind slots) := by
  refine .of_slots bare (inline _) (lineInk_statement_of_place (by simp [h]) (inline _)) ?_ ?_
  · intro level other hother
    rw [itemOf_of_place (by simp [h]), hother]
  · rintro level rfl
    cases h

/-- Only statements can stand behind an `else`, so only they say what they look like there. -/
theorem Agrees.of_statement (h : place kind = .statement) (bare : slots.IsBare)
    (statement : ∀ level text,
      lineInk (statementOf level text kind (slotLooks slots)) = ink slots.text)
    (chained : ∀ level, kind = .ifStatement →
      lineInk (chainedOf level kind (slotLooks slots)) = ink "else" ++ ink slots.text) :
    Agrees (.mk info kind slots) := by
  refine .of_slots bare (ink_inline_of_place bare (by simp [h])) (fun level => statement level _)
    ?_ chained
  intro level other hother
  rw [itemOf_of_place (by simp [h]), hother]

theorem Agrees.of_item (h : place kind = .item) (bare : slots.IsBare)
    (item : ∀ level other,
      lineInk (itemOf level [] other kind (slotLooks slots)) = ink slots.text) :
    Agrees (.mk info kind slots) := by
  have inline : ink (look (.mk info kind slots)).inline = ink slots.text :=
    ink_inline_of_place bare (by simp [h])
  refine .of_slots bare inline (lineInk_statement_of_place (by simp [h]) inline)
    (fun level other _ => item level other) ?_
  rintro level rfl
  cases h

end Places

/-! ### What a slot holds -/

@[simp] theorem slotLook_commaList (elements : List Node) :
    slotLook (.separated (commaList elements)) = .separated (looks elements) false := by
  have htrailing : (commaList elements).hasTrailing = false := by
    cases elements with
    | nil => rfl
    | cons element elements =>
      simp [commaList, separatedBy, Separated.joined, Separated.hasTrailing]
  rw [← htrailing]
  rfl

@[simp] theorem text_node (child : Node) : (Slot.node child).text = child.text := rfl

@[simp] theorem text_optNode_none : (Slot.optNode none).text = "" := rfl

@[simp] theorem text_optNode_some (child : Node) :
    (Slot.optNode (some child)).text = child.text := rfl

@[simp] theorem text_nodes_nil : (Slot.nodes []).text = "" := rfl

@[simp] theorem text_token (child : Token) : (Slot.token child).text = child.fullText := rfl

theorem join_weave_replicate (texts : List String) (separator : String) :
    String.join (Separated.weave texts (List.replicate (texts.length - 1) separator)) =
      String.intercalate separator texts := by
  induction texts with
  | nil => rfl
  | cons text texts ih =>
    cases texts with
    | nil => simp [Separated.weave]
    | cons next rest =>
      have hlength : (text :: next :: rest).length - 1 = ((next :: rest).length - 1) + 1 := rfl
      rw [hlength, List.replicate_succ, Separated.weave, String.join_cons, String.join_cons, ih,
        String.intercalate_cons_cons, String.append_assoc]

theorem text_commaList (elements : List Node) :
    (Slot.separated (commaList elements)).text =
      String.intercalate "," (elements.map Node.text) := by
  simp only [commaList, separatedBy, Separated.joined, Slot.text, nodeTexts_eq_map,
    tokenTexts_eq_map, List.map_replicate]
  rw [← join_weave_replicate, List.length_map]
  rfl

@[simp] theorem optText_none (lead : String) : optText lead none = "" := rfl

theorem ink_optText {child : Option Node} (h : ∀ node ∈ child, Agrees node) (lead : String)
    (hlead : ink lead = []) :
    ink (optText lead (child.map look)) = ink (Slot.optNode child).text := by
  cases child with
  | none => rfl
  | some node => simp [optText, hlead, (h node rfl).inline]

theorem ink_optToken {child : Option Token} (h : ∀ token ∈ child, token.IsBare) :
    ink (optToken (child.map tokenLook)) = ink (Slot.optToken child).text := by
  cases child with
  | none => rfl
  | some token => simp [optToken, Slot.text, tokenLook, (h token rfl).fullText_eq]

theorem ink_modifierText {tokens : List Token} (h : ∀ token ∈ tokens, token.IsBare) :
    ink (modifierText (tokens.map tokenLook)) = ink (Slot.tokens tokens).text := by
  simp only [modifierText, Slot.text, tokenTexts_eq_map, ink_join, List.flatMap_map, ink_append,
    ink_space, List.append_nil]
  exact List.flatMap_congr fun token htoken => by rw [tokenLook, (h token htoken).fullText_eq]

theorem isBare_optNode {child : Option Node} (h : ∀ node ∈ child, Agrees node) :
    (Slot.optNode child).IsBare :=
  Slot.isBare_optNode.2 fun node hnode => (h node hnode).bare

section Lists

variable {nodes : List Node} (h : ∀ node ∈ nodes, Agrees node)

include h

theorem isBare_nodes : (Slot.nodes nodes).IsBare :=
  Slot.isBare_nodes.2 fun node hnode => (h node hnode).bare

theorem isBare_commaList : (Slot.separated (commaList nodes)).IsBare := by
  refine Slot.isBare_separated (fun node hnode => (h node hnode).bare) fun token htoken => ?_
  rw [List.eq_of_mem_replicate htoken]
  exact Token.isBare_ofText

theorem ink_commaText :
    ink (commaText (looks nodes)) = ink (Slot.separated (commaList nodes)).text := by
  have hinks : nodes.map ((ink ∘ Look.inline) ∘ look) = nodes.map (ink ∘ Node.text) :=
    List.map_congr_left fun node hnode => (h node hnode).inline
  rw [text_commaList, commaText, looks_eq_map, ink_intercalate, ink_intercalate, List.map_map,
    List.map_map, hinks, List.map_map]
  rfl

/-- Nodes one after the other, each laid out in the same way. -/
theorem ink_nodes {layout : Node → List Char}
    (hlayout : ∀ node, Agrees node → layout node = ink node.text) :
    nodes.flatMap layout = ink (Slot.nodes nodes).text := by
  rw [Slot.text, ink_join, nodeTexts_eq_map, List.flatMap_map]
  exact List.flatMap_congr fun node hnode => hlayout node (h node hnode)

theorem lineInk_itemLines (level : Nat) :
    lineInk (itemLines (looks nodes) level) = ink (Slot.nodes nodes).text := by
  rw [← ink_nodes h fun _ hnode => hnode.item level, itemLines, looks_eq_map, lineInk,
    List.flatMap_map, List.flatMap_assoc]
  rfl

theorem lineInk_memberLines (level : Nat) :
    lineInk (memberLines (looks nodes) level) = ink (Slot.nodes nodes).text := by
  rw [← ink_nodes h fun _ hnode => hnode.item level, memberLines, looks_eq_map,
    lineInk_intercalate_blank, List.flatMap_map, List.flatMap_map]

theorem lineInk_attributeLines (level : Nat) :
    lineInk (attributeLines (looks nodes) level) = ink (Slot.nodes nodes).text := by
  rw [← ink_nodes h fun _ hnode => hnode.inline, attributeLines, looks_eq_map, lineInk,
    List.flatMap_map, List.flatMap_map]

end Lists

theorem lineInk_unitLines {usings members : List Node} (husings : ∀ node ∈ usings, Agrees node)
    (hmembers : ∀ node ∈ members, Agrees node) (level : Nat) :
    lineInk (unitLines (looks usings) (looks members) level) =
      ink (Slot.nodes usings).text ++ ink (Slot.nodes members).text := by
  have hblank : lineInk (if (looks usings).isEmpty || (looks members).isEmpty then []
      else [Line.blank]) = [] := by
    split <;> rfl
  rw [unitLines, lineInk_append, lineInk_append, hblank, lineInk_itemLines husings,
    lineInk_memberLines hmembers, List.append_nil]

theorem lineInk_enumLines {members : List Node} (h : ∀ node ∈ members, Agrees node) (level : Nat) :
    lineInk (enumLines false level (looks members)) =
      ink (Slot.separated (commaList members)).text := by
  rw [text_commaList]
  induction members with
  | nil => rfl
  | cons member members ih =>
    have hmember := h member (by simp)
    have hbefore : (look member).before level = [] := by
      cases member
      exact hmember.bare.leadingLines_eq level
    have ih := ih fun node hnode => h node (by simp [hnode])
    cases members with
    | nil => simp [looks, enumLines, hbefore, hmember.inline]
    | cons next rest =>
      simp only [looks, List.map_cons, String.intercalate_cons_cons] at ih ⊢
      simp [enumLines, hbefore, hmember.inline, ih]

theorem Agrees.embedded {node : Node} (h : Agrees node) (level : Nat) :
    lineInk (embedded (look node) level) = ink node.text := h.statement _

theorem isBare_closing (body : Option Node) : (Slot.optToken (closing body)).IsBare := by
  cases body with
  | none => exact Slot.isBare_optToken.2 fun token h => Option.some.inj h ▸ Token.isBare_ofText
  | some node => exact Slot.isBare_optToken.2 nofun

@[simp] theorem text_closing_none : (Slot.optToken (closing none)).text = ";" :=
  (Token.spells_ofText : (punctuation ";").Spells ";").fullText_eq

@[simp] theorem text_closing_some (node : Node) :
    (Slot.optToken (closing (some node))).text = "" := rfl

/-- A declaration without a body ends in the semicolon that the layout writes. -/
theorem lineInk_bodyLines {body : Option Node} (h : ∀ node ∈ body, Agrees node) (level : Nat)
    (header : String) :
    lineInk (bodyLines level header (body.map look)) =
      ink header ++ (ink (Slot.optNode body).text ++ ink (Slot.optToken (closing body)).text) := by
  cases body with
  | none => simp [bodyLines]
  | some node => simp [bodyLines, (h node rfl).embedded]

/-! ### Words with blanks around them -/

@[simp] theorem ink_new : ink "new " = ink "new" := rfl

@[simp] theorem ink_using : ink "using " = ink "using" := rfl

@[simp] theorem ink_namespace : ink "namespace " = ink "namespace" := rfl

@[simp] theorem ink_colon : ink ": " = ink ":" := rfl

@[simp] theorem ink_in : ink " in " = ink "in" := rfl

@[simp] theorem ink_if : ink "if (" = ink "if" ++ ink "(" := rfl

@[simp] theorem ink_else_if : ink "else if (" = ink "else" ++ (ink "if" ++ ink "(") := rfl

@[simp] theorem ink_while : ink "while (" = ink "while" ++ ink "(" := rfl

@[simp] theorem ink_foreach : ink "foreach (" = ink "foreach" ++ ink "(" := rfl

@[simp] theorem ink_open_brace : ink " \x7b " = ink "\x7b" := rfl

@[simp] theorem ink_close_brace : ink " \x7d" = ink "\x7d" := rfl

namespace Agrees

-- The layouts are opened as a whole: their equations one by one are many and slow to derive.
attribute [local simp] slotLooks Slots.text inlineText.eq_def statementOf.eq_def itemOf.eq_def

/-! ### Names and types -/

theorem identifierName {identifier : Token} (h : identifier.IsBare) :
    Agrees (.identifierName identifier) :=
  .of_inline rfl (by simp [h]) (by simp [h.fullText_eq])

theorem qualifiedName {left right : Node} {dot : Token} (hleft : Agrees left)
    (hdot : dot.Spells ".") (hright : Agrees right) : Agrees (.qualifiedName left dot right) :=
  .of_inline rfl (by simp [hleft.bare, hdot.bare, hright.bare])
    (by simp [hleft.inline, hdot.fullText_eq, hright.inline])

theorem predefinedType {keyword : Token} (h : keyword.IsBare) : Agrees (.predefinedType keyword) :=
  .of_inline rfl (by simp [h]) (by simp [h.fullText_eq])

theorem genericName {identifier : Token} {arguments : Node} (hidentifier : identifier.IsBare)
    (harguments : Agrees arguments) : Agrees (.genericName identifier arguments) :=
  .of_inline rfl (by simp [hidentifier, harguments.bare])
    (by simp [hidentifier.fullText_eq, harguments.inline])

theorem typeArgumentList {less greater : Token} {arguments : List Node} (hless : less.Spells "<")
    (harguments : ∀ node ∈ arguments, Agrees node) (hgreater : greater.Spells ">") :
    Agrees (.typeArgumentList less (commaList arguments) greater) :=
  .of_inline rfl (by simp [hless.bare, isBare_commaList harguments, hgreater.bare])
    (by simp [hless.fullText_eq, ink_commaText harguments, hgreater.fullText_eq])

/-! ### Expressions -/

theorem literalExpression {token : Token} (h : token.IsBare) : Agrees (.literalExpression token) :=
  .of_inline rfl (by simp [h]) (by simp [h.fullText_eq])

theorem thisExpression {keyword : Token} (h : keyword.IsBare) : Agrees (.thisExpression keyword) :=
  .of_inline rfl (by simp [h]) (by simp [h.fullText_eq])

theorem parenthesizedExpression {opening closing : Token} {expression : Node}
    (hopening : opening.Spells "(") (hexpression : Agrees expression)
    (hclosing : closing.Spells ")") :
    Agrees (.parenthesizedExpression opening expression closing) :=
  .of_inline rfl (by simp [hopening.bare, hexpression.bare, hclosing.bare])
    (by simp [hopening.fullText_eq, hexpression.inline, hclosing.fullText_eq])

theorem binaryExpression {left right : Node} {operator : Token} (hleft : Agrees left)
    (hoperator : operator.IsBare) (hright : Agrees right) :
    Agrees (.binaryExpression left operator right) :=
  .of_inline rfl (by simp [hleft.bare, hoperator, hright.bare])
    (by simp [hleft.inline, hoperator.fullText_eq, hright.inline])

theorem prefixUnaryExpression {operator : Token} {operand : Node} (hoperator : operator.IsBare)
    (hoperand : Agrees operand) : Agrees (.prefixUnaryExpression operator operand) :=
  .of_inline rfl (by simp [hoperator, hoperand.bare])
    (by simp [hoperator.fullText_eq, hoperand.inline])

theorem assignmentExpression {left right : Node} {operator : Token} (hleft : Agrees left)
    (hoperator : operator.IsBare) (hright : Agrees right) :
    Agrees (.assignmentExpression left operator right) :=
  .of_inline rfl (by simp [hleft.bare, hoperator, hright.bare])
    (by simp [hleft.inline, hoperator.fullText_eq, hright.inline])

theorem argument {keyword : Option Token} {expression : Node}
    (hkeyword : ∀ token ∈ keyword, token.IsBare) (hexpression : Agrees expression) :
    Agrees (.argument keyword expression) :=
  .of_inline rfl (by simp [Slot.isBare_optToken.2 hkeyword, hexpression.bare])
    (by simp [ink_optToken hkeyword, hexpression.inline])

theorem argumentList {opening closing : Token} {arguments : List Node}
    (hopening : opening.Spells "(") (harguments : ∀ node ∈ arguments, Agrees node)
    (hclosing : closing.Spells ")") :
    Agrees (.argumentList opening (commaList arguments) closing) :=
  .of_inline rfl (by simp [hopening.bare, isBare_commaList harguments, hclosing.bare])
    (by simp [hopening.fullText_eq, ink_commaText harguments, hclosing.fullText_eq])

theorem invocationExpression {expression arguments : Node} (hexpression : Agrees expression)
    (harguments : Agrees arguments) : Agrees (.invocationExpression expression arguments) :=
  .of_inline rfl (by simp [hexpression.bare, harguments.bare])
    (by simp [hexpression.inline, harguments.inline])

theorem memberAccessExpression {expression name : Node} {dot : Token}
    (hexpression : Agrees expression) (hdot : dot.Spells ".") (hname : Agrees name) :
    Agrees (.memberAccessExpression expression dot name) :=
  .of_inline rfl (by simp [hexpression.bare, hdot.bare, hname.bare])
    (by simp [hexpression.inline, hdot.fullText_eq, hname.inline])

theorem objectCreationExpression {keyword : Token} {type : Node} {arguments : Option Node}
    (hkeyword : keyword.Spells "new") (htype : Agrees type)
    (harguments : ∀ node ∈ arguments, Agrees node) :
    Agrees (.objectCreationExpression keyword type arguments) :=
  .of_inline rfl (by simp [hkeyword.bare, htype.bare, isBare_optNode harguments])
    (by simp [hkeyword.fullText_eq, htype.inline, ink_optText harguments "" rfl])

/-! ### Statements -/

theorem block {opening closing : Token} {statements : List Node}
    (hopening : opening.Spells "\x7b") (hstatements : ∀ node ∈ statements, Agrees node)
    (hclosing : closing.Spells "\x7d") : Agrees (.block opening statements closing) :=
  .of_statement rfl (by simp [hopening.bare, isBare_nodes hstatements, hclosing.bare])
    (by simp [hopening.fullText_eq, lineInk_itemLines hstatements, hclosing.fullText_eq]) nofun

theorem expressionStatement {expression : Node} {semicolon : Token}
    (hexpression : Agrees expression) (hsemicolon : semicolon.Spells ";") :
    Agrees (.expressionStatement expression semicolon) :=
  .of_statement rfl (by simp [hexpression.bare, hsemicolon.bare])
    (by simp [hexpression.inline, hsemicolon.fullText_eq]) nofun

theorem localDeclarationStatement {declaration : Node} {semicolon : Token}
    (hdeclaration : Agrees declaration) (hsemicolon : semicolon.Spells ";") :
    Agrees (.localDeclarationStatement declaration semicolon) :=
  .of_statement rfl (by simp [hdeclaration.bare, hsemicolon.bare])
    (by simp [hdeclaration.inline, hsemicolon.fullText_eq]) nofun

theorem returnStatement {keyword semicolon : Token} {expression : Option Node}
    (hkeyword : keyword.Spells "return") (hexpression : ∀ node ∈ expression, Agrees node)
    (hsemicolon : semicolon.Spells ";") :
    Agrees (.returnStatement keyword expression semicolon) :=
  .of_statement rfl (by simp [hkeyword.bare, isBare_optNode hexpression, hsemicolon.bare])
    (by simp [hkeyword.fullText_eq, ink_optText hexpression " " rfl, hsemicolon.fullText_eq]) nofun

theorem whileStatement {keyword opening closing : Token} {condition statement : Node}
    (hkeyword : keyword.Spells "while") (hopening : opening.Spells "(")
    (hcondition : Agrees condition) (hclosing : closing.Spells ")")
    (hstatement : Agrees statement) :
    Agrees (.whileStatement keyword opening condition closing statement) :=
  .of_statement rfl
    (by simp [hkeyword.bare, hopening.bare, hcondition.bare, hclosing.bare, hstatement.bare])
    (by simp [hkeyword.fullText_eq, hopening.fullText_eq, hcondition.inline,
      hclosing.fullText_eq, hstatement.embedded]) nofun

theorem forEachStatement {keyword opening identifier inKeyword closing : Token}
    {type expression statement : Node} (hkeyword : keyword.Spells "foreach")
    (hopening : opening.Spells "(") (htype : Agrees type) (hidentifier : identifier.IsBare)
    (hin : inKeyword.Spells "in") (hexpression : Agrees expression)
    (hclosing : closing.Spells ")") (hstatement : Agrees statement) :
    Agrees (.forEachStatement keyword opening type identifier inKeyword expression closing
      statement) :=
  .of_statement rfl
    (by simp [hkeyword.bare, hopening.bare, htype.bare, hidentifier, hin.bare, hexpression.bare,
      hclosing.bare, hstatement.bare])
    (by simp [hkeyword.fullText_eq, hopening.fullText_eq, htype.inline, hidentifier.fullText_eq,
      hin.fullText_eq, hexpression.inline, hclosing.fullText_eq, hstatement.embedded]) nofun

/-- Behind an `else`, an `if` goes on in the same line and any other statement in the next. -/
theorem elseClause {statement : Node} {keyword : Token} (hkeyword : keyword.Spells "else")
    (h : Agrees statement) :
    (Node.elseClause keyword statement).IsBare ∧
      ∀ level, lineInk ((look (.elseClause keyword statement)).clause level) =
        ink (Node.elseClause keyword statement).text := by
  refine ⟨by simp [Node.isBare_mk, hkeyword.bare, h.bare], fun level => ?_⟩
  have htext : ink (Node.elseClause keyword statement).text = ink "else" ++ ink statement.text := by
    simp [Node.text, hkeyword.fullText_eq]
  have hclause : (look (.elseClause keyword statement)).clause level =
      if (look statement).kind = .ifStatement then (look statement).chained level
      else ⟨level, "else"⟩ :: Layout.embedded (look statement) level := rfl
  rw [hclause, htext, kind_look]
  split
  · exact h.chained level ‹_›
  · rw [lineInk_cons, h.embedded]

theorem ifLines {condition statement : Node} {otherwise : Option Node}
    (hcondition : Agrees condition) (hstatement : Agrees statement)
    (hotherwise : ∀ node ∈ otherwise, ∀ level,
      lineInk ((look node).clause level) = ink node.text) (level : Nat) (opening : String) :
    lineInk (ifLines level opening (look condition) (look statement) (otherwise.map look)) =
      ink opening ++ ink condition.text ++ ink ")" ++ ink statement.text ++
        ink (Slot.optNode otherwise).text := by
  cases otherwise with
  | none => simp [Layout.ifLines, hcondition.inline, hstatement.embedded]
  | some node =>
    simp [Layout.ifLines, hcondition.inline, hstatement.embedded, hotherwise node rfl]

theorem ifStatement {keyword opening closing : Token} {condition statement : Node}
    {otherwise : Option Node} (hkeyword : keyword.Spells "if") (hopening : opening.Spells "(")
    (hcondition : Agrees condition) (hclosing : closing.Spells ")")
    (hstatement : Agrees statement)
    (hotherwise : ∀ node ∈ otherwise, node.IsBare ∧
      ∀ level, lineInk ((look node).clause level) = ink node.text) :
    Agrees (.ifStatement keyword opening condition closing statement otherwise) := by
  have hlines := ifLines hcondition hstatement fun node h => (hotherwise node h).2
  have hbare := Slot.isBare_optNode.2 fun node h => (hotherwise node h).1
  refine .of_statement rfl ?_ ?_ ?_
  · simp [hkeyword.bare, hopening.bare, hcondition.bare, hclosing.bare, hstatement.bare, hbare]
  · simp [hkeyword.fullText_eq, hopening.fullText_eq, hclosing.fullText_eq, hlines]
  · simp [hkeyword.fullText_eq, hopening.fullText_eq, hclosing.fullText_eq, hlines,
      chainedOf.eq_def]

/-! ### Parts of declarations -/

theorem equalsValueClause {equals : Token} {value : Node} (hequals : equals.IsBare)
    (hvalue : Agrees value) : Agrees (.equalsValueClause equals value) :=
  .of_inline rfl (by simp [hequals, hvalue.bare]) (by simp [hequals.fullText_eq, hvalue.inline])

theorem variableDeclarator {identifier : Token} {initializer : Option Node}
    (hidentifier : identifier.IsBare) (hinitializer : ∀ node ∈ initializer, Agrees node) :
    Agrees (.variableDeclarator identifier initializer) :=
  .of_inline rfl (by simp [hidentifier, isBare_optNode hinitializer])
    (by simp [hidentifier.fullText_eq, ink_optText hinitializer " " rfl])

theorem variableDeclaration {type : Node} {declarators : List Node} (htype : Agrees type)
    (hdeclarators : ∀ node ∈ declarators, Agrees node) :
    Agrees (.variableDeclaration type (commaList declarators)) :=
  .of_inline rfl (by simp [htype.bare, isBare_commaList hdeclarators])
    (by simp [htype.inline, ink_commaText hdeclarators])

theorem parameter {attributes : List Node} {modifiers : List Token} {type : Node}
    {identifier : Token} {value : Option Node} (hattributes : ∀ node ∈ attributes, Agrees node)
    (hmodifiers : ∀ token ∈ modifiers, token.IsBare) (htype : Agrees type)
    (hidentifier : identifier.IsBare) (hvalue : ∀ node ∈ value, Agrees node) :
    Agrees (.parameter attributes modifiers type identifier value) :=
  .of_inline rfl
    (by simp [isBare_nodes hattributes, Slot.isBare_tokens.2 hmodifiers, htype.bare, hidentifier,
      isBare_optNode hvalue])
    (by simp [looks_eq_map, List.flatMap_map, ink_nodes hattributes fun _ h => h.inline,
      ink_modifierText hmodifiers, htype.inline, hidentifier.fullText_eq,
      ink_optText hvalue " " rfl])

theorem parameterList {opening closing : Token} {parameters : List Node}
    (hopening : opening.Spells "(") (hparameters : ∀ node ∈ parameters, Agrees node)
    (hclosing : closing.Spells ")") :
    Agrees (.parameterList opening (commaList parameters) closing) :=
  .of_inline rfl (by simp [hopening.bare, isBare_commaList hparameters, hclosing.bare])
    (by simp [hopening.fullText_eq, ink_commaText hparameters, hclosing.fullText_eq])

theorem simpleBaseType {type : Node} (h : Agrees type) : Agrees (.simpleBaseType type) :=
  .of_inline rfl (by simp [h.bare]) (by simp [h.inline])

theorem baseList {colon : Token} {types : List Node} (hcolon : colon.Spells ":")
    (htypes : ∀ node ∈ types, Agrees node) : Agrees (.baseList colon (commaList types)) :=
  .of_inline rfl (by simp [hcolon.bare, isBare_commaList htypes])
    (by simp [hcolon.fullText_eq, ink_commaText htypes])

theorem attributeItem {name : Node} {arguments : Option Node} (hname : Agrees name)
    (harguments : ∀ node ∈ arguments, Agrees node) : Agrees (.attributeItem name arguments) :=
  .of_inline rfl (by simp [hname.bare, isBare_optNode harguments])
    (by simp [hname.inline, ink_optText harguments "" rfl])

theorem attributeList {opening closing : Token} {attributes : List Node}
    (hopening : opening.Spells "[") (hattributes : ∀ node ∈ attributes, Agrees node)
    (hclosing : closing.Spells "]") :
    Agrees (.attributeList opening (commaList attributes) closing) :=
  .of_inline rfl (by simp [hopening.bare, isBare_commaList hattributes, hclosing.bare])
    (by simp [hopening.fullText_eq, ink_commaText hattributes, hclosing.fullText_eq])

/-- The layout of a member has no place for attributes, so there must be none. -/
theorem enumMemberDeclaration {identifier : Token} {value : Option Node}
    (hidentifier : identifier.IsBare) (hvalue : ∀ node ∈ value, Agrees node) :
    Agrees (.enumMemberDeclaration [] identifier value) :=
  .of_inline rfl (by simp [isBare_nodes, hidentifier, isBare_optNode hvalue])
    (by simp [hidentifier.fullText_eq, ink_optText hvalue " " rfl])

theorem usingDirective {keyword semicolon : Token} {static : Option Token} {name : Node}
    (hkeyword : keyword.Spells "using") (hstatic : ∀ token ∈ static, token.IsBare)
    (hname : Agrees name) (hsemicolon : semicolon.Spells ";") :
    Agrees (.usingDirective keyword static name semicolon) :=
  .of_inline rfl
    (by simp [hkeyword.bare, Slot.isBare_optToken.2 hstatic, hname.bare, hsemicolon.bare])
    (by simp [hkeyword.fullText_eq, ink_optToken hstatic, hname.inline, hsemicolon.fullText_eq])

/-! ### Declarations -/

theorem compilationUnit {usings members : List Node} {endOfFile : Token}
    (husings : ∀ node ∈ usings, Agrees node) (hmembers : ∀ node ∈ members, Agrees node)
    (hend : endOfFile.Spells "") : Agrees (.compilationUnit usings members endOfFile) :=
  .of_item rfl (by simp [isBare_nodes husings, isBare_nodes hmembers, hend.bare])
    (by simp [lineInk_unitLines husings hmembers, tokenLook, commentLines, hend.bare.1,
      hend.fullText_eq])

theorem namespaceDeclaration {keyword opening closing : Token} {name : Node}
    {usings members : List Node} (hkeyword : keyword.Spells "namespace") (hname : Agrees name)
    (hopening : opening.Spells "\x7b") (husings : ∀ node ∈ usings, Agrees node)
    (hmembers : ∀ node ∈ members, Agrees node) (hclosing : closing.Spells "\x7d") :
    Agrees (.namespaceDeclaration keyword name opening usings members closing) :=
  .of_item rfl
    (by simp [hkeyword.bare, hname.bare, hopening.bare, isBare_nodes husings,
      isBare_nodes hmembers, hclosing.bare])
    (by simp [braced, hkeyword.fullText_eq, hname.inline, hopening.fullText_eq,
      lineInk_unitLines husings hmembers, hclosing.fullText_eq])

section Types

variable {attributes members : List Node} {modifiers : List Token}
  {keyword identifier opening closing : Token} {typeParameters baseList : Option Node}
  (hattributes : ∀ node ∈ attributes, Agrees node)
  (hmodifiers : ∀ token ∈ modifiers, token.IsBare) (hkeyword : keyword.IsBare)
  (hidentifier : identifier.IsBare) (htypeParameters : ∀ node ∈ typeParameters, Agrees node)
  (hbaseList : ∀ node ∈ baseList, Agrees node) (hopening : opening.Spells "\x7b")
  (hmembers : ∀ node ∈ members, Agrees node) (hclosing : closing.Spells "\x7d")

include hattributes hmodifiers hkeyword hidentifier htypeParameters hbaseList hopening hmembers
  hclosing

theorem classDeclaration :
    Agrees (.classDeclaration attributes modifiers keyword identifier typeParameters baseList
      opening members closing) :=
  .of_item rfl
    (by simp [isBare_nodes hattributes, Slot.isBare_tokens.2 hmodifiers, hkeyword, hidentifier,
      isBare_optNode htypeParameters, isBare_optNode hbaseList, hopening.bare,
      isBare_nodes hmembers, hclosing.bare])
    (by simp [braced, typeHeader, lineInk_attributeLines hattributes, ink_modifierText hmodifiers,
      hkeyword.fullText_eq, hidentifier.fullText_eq, ink_optText htypeParameters "" rfl,
      ink_optText hbaseList " " rfl, hopening.fullText_eq, lineInk_memberLines hmembers,
      hclosing.fullText_eq])

theorem interfaceDeclaration :
    Agrees (.interfaceDeclaration attributes modifiers keyword identifier typeParameters baseList
      opening members closing) :=
  .of_item rfl
    (by simp [isBare_nodes hattributes, Slot.isBare_tokens.2 hmodifiers, hkeyword, hidentifier,
      isBare_optNode htypeParameters, isBare_optNode hbaseList, hopening.bare,
      isBare_nodes hmembers, hclosing.bare])
    (by simp [braced, typeHeader, lineInk_attributeLines hattributes, ink_modifierText hmodifiers,
      hkeyword.fullText_eq, hidentifier.fullText_eq, ink_optText htypeParameters "" rfl,
      ink_optText hbaseList " " rfl, hopening.fullText_eq, lineInk_memberLines hmembers,
      hclosing.fullText_eq])

end Types

theorem enumDeclaration {attributes members : List Node} {modifiers : List Token}
    {keyword identifier opening closing : Token} {baseList : Option Node}
    (hattributes : ∀ node ∈ attributes, Agrees node)
    (hmodifiers : ∀ token ∈ modifiers, token.IsBare) (hkeyword : keyword.IsBare)
    (hidentifier : identifier.IsBare) (hbaseList : ∀ node ∈ baseList, Agrees node)
    (hopening : opening.Spells "\x7b") (hmembers : ∀ node ∈ members, Agrees node)
    (hclosing : closing.Spells "\x7d") :
    Agrees (.enumDeclaration attributes modifiers keyword identifier baseList opening
      (commaList members) closing) :=
  .of_item rfl
    (by simp [isBare_nodes hattributes, Slot.isBare_tokens.2 hmodifiers, hkeyword, hidentifier,
      isBare_optNode hbaseList, hopening.bare, isBare_commaList hmembers, hclosing.bare])
    (by simp [braced, typeHeader, lineInk_attributeLines hattributes, ink_modifierText hmodifiers,
      hkeyword.fullText_eq, hidentifier.fullText_eq, ink_optText hbaseList " " rfl,
      hopening.fullText_eq, lineInk_enumLines hmembers, hclosing.fullText_eq])

theorem methodDeclaration {attributes : List Node} {modifiers : List Token} {type : Node}
    {identifier : Token} {typeParameters body : Option Node} {parameters : Node}
    (hattributes : ∀ node ∈ attributes, Agrees node)
    (hmodifiers : ∀ token ∈ modifiers, token.IsBare) (htype : Agrees type)
    (hidentifier : identifier.IsBare) (htypeParameters : ∀ node ∈ typeParameters, Agrees node)
    (hparameters : Agrees parameters) (hbody : ∀ node ∈ body, Agrees node) :
    Agrees (.methodDeclaration attributes modifiers type identifier typeParameters parameters body
      (closing body)) :=
  .of_item rfl
    (by simp [isBare_nodes hattributes, Slot.isBare_tokens.2 hmodifiers, htype.bare, hidentifier,
      isBare_optNode htypeParameters, hparameters.bare, isBare_optNode hbody, isBare_closing])
    (by simp [lineInk_attributeLines hattributes, ink_modifierText hmodifiers, htype.inline,
      hidentifier.fullText_eq, ink_optText htypeParameters "" rfl, hparameters.inline,
      lineInk_bodyLines hbody])

theorem constructorDeclaration {attributes : List Node} {modifiers : List Token}
    {identifier : Token} {parameters : Node} {body : Option Node}
    (hattributes : ∀ node ∈ attributes, Agrees node)
    (hmodifiers : ∀ token ∈ modifiers, token.IsBare) (hidentifier : identifier.IsBare)
    (hparameters : Agrees parameters) (hbody : ∀ node ∈ body, Agrees node) :
    Agrees (.constructorDeclaration attributes modifiers identifier parameters body
      (closing body)) :=
  .of_item rfl
    (by simp [isBare_nodes hattributes, Slot.isBare_tokens.2 hmodifiers, hidentifier,
      hparameters.bare, isBare_optNode hbody, isBare_closing])
    (by simp [lineInk_attributeLines hattributes, ink_modifierText hmodifiers,
      hidentifier.fullText_eq, hparameters.inline, lineInk_bodyLines hbody])

theorem accessorDeclaration {modifiers : List Token} {keyword : Token} {body : Option Node}
    (hmodifiers : ∀ token ∈ modifiers, token.IsBare) (hkeyword : keyword.IsBare)
    (hbody : ∀ node ∈ body, Agrees node) :
    Agrees (.accessorDeclaration modifiers keyword body (closing body)) :=
  .of_item rfl
    (by simp [Slot.isBare_tokens.2 hmodifiers, hkeyword, isBare_optNode hbody, isBare_closing])
    (by simp [ink_modifierText hmodifiers, hkeyword.fullText_eq, lineInk_bodyLines hbody])

theorem fieldDeclaration {attributes : List Node} {modifiers : List Token} {declaration : Node}
    {semicolon : Token} (hattributes : ∀ node ∈ attributes, Agrees node)
    (hmodifiers : ∀ token ∈ modifiers, token.IsBare) (hdeclaration : Agrees declaration)
    (hsemicolon : semicolon.Spells ";") :
    Agrees (.fieldDeclaration attributes modifiers declaration semicolon) :=
  .of_item rfl
    (by simp [isBare_nodes hattributes, Slot.isBare_tokens.2 hmodifiers, hdeclaration.bare,
      hsemicolon.bare])
    (by simp [lineInk_attributeLines hattributes, ink_modifierText hmodifiers,
      hdeclaration.inline, hsemicolon.fullText_eq])

/-! ### Properties -/

/-- The text of an accessor without a body is the whole accessor. -/
theorem autoAccessor {modifiers : List Token} {keyword : Token} (body : Option Node)
    (hmodifiers : ∀ token ∈ modifiers, token.IsBare) (hkeyword : keyword.IsBare) :
    ∀ text ∈ (look (.accessorDeclaration modifiers keyword body (closing body))).autoAccessor?,
      ink text = ink (Node.accessorDeclaration modifiers keyword body (closing body)).text := by
  intro text htext
  cases body with
  | none =>
    obtain rfl : modifierText (modifiers.map tokenLook) ++ keyword.text ++ ";" = text :=
      Option.some.inj htext
    simp [Node.text, ink_modifierText hmodifiers, hkeyword.fullText_eq]
  | some node => cases htext

theorem flatMap_autoAccessors {accessors : List Node} {texts : List String}
    (h : ∀ node ∈ accessors, ∀ text ∈ (look node).autoAccessor?, ink text = ink node.text)
    (htexts : autoAccessors? (looks accessors) = some texts) :
    texts.flatMap ink = ink (Slot.nodes accessors).text := by
  induction accessors generalizing texts with
  | nil =>
    obtain rfl : [] = texts := Option.some.inj htexts
    rfl
  | cons accessor accessors ih =>
    rw [looks, autoAccessors?] at htexts
    split at htexts
    case h_1 text rest htext hrest =>
      obtain rfl := Option.some.inj htexts
      have ih := ih (fun node hnode => h node (by simp [hnode])) hrest
      have hink := h accessor (by simp) text htext
      simp only [Slot.text, nodeTexts, String.join_cons, ink_append] at ih ⊢
      rw [List.flatMap_cons, hink, ih]
    case h_2 => cases htexts

/-- A list of accessors goes behind the header of its property, within the line or below it. -/
theorem accessorList {opening closing : Token} {accessors : List Node}
    (hopening : opening.Spells "\x7b") (haccessors : ∀ node ∈ accessors, Agrees node)
    (hauto : ∀ node ∈ accessors, ∀ text ∈ (look node).autoAccessor?, ink text = ink node.text)
    (hclosing : closing.Spells "\x7d") :
    (Node.accessorList opening accessors closing).IsBare ∧ ∀ header level,
      lineInk ((look (.accessorList opening accessors closing)).behind header level) =
        ink header ++ ink (Node.accessorList opening accessors closing).text := by
  refine ⟨by simp [Node.isBare_mk, hopening.bare, isBare_nodes haccessors, hclosing.bare],
    fun header level => ?_⟩
  have htext : ink (Node.accessorList opening accessors closing).text =
      ink "\x7b" ++ (ink (Slot.nodes accessors).text ++ ink "\x7d") := by
    simp [Node.text, hopening.fullText_eq, hclosing.fullText_eq]
  rw [htext]
  cases htexts : autoAccessors? (looks accessors) with
  | some texts =>
    simp [look, Look.ofSlots, behindOf.eq_def, htexts, ink_words,
      flatMap_autoAccessors hauto htexts]
  | none =>
    simp [look, Look.ofSlots, behindOf.eq_def, htexts, braced, lineInk_itemLines haccessors]

theorem propertyDeclaration {attributes : List Node} {modifiers : List Token} {type : Node}
    {identifier : Token} {accessors : Node} (hattributes : ∀ node ∈ attributes, Agrees node)
    (hmodifiers : ∀ token ∈ modifiers, token.IsBare) (htype : Agrees type)
    (hidentifier : identifier.IsBare)
    (haccessors : accessors.IsBare ∧ ∀ header level,
      lineInk ((look accessors).behind header level) = ink header ++ ink accessors.text) :
    Agrees (.propertyDeclaration attributes modifiers type identifier accessors) :=
  .of_item rfl
    (by simp [isBare_nodes hattributes, Slot.isBare_tokens.2 hmodifiers, htype.bare, hidentifier,
      haccessors.1])
    (by simp [lineInk_attributeLines hattributes, ink_modifierText hmodifiers, htype.inline,
      hidentifier.fullText_eq, haccessors.2])

end Agrees

end SourceTree.Layout
