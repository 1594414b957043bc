import Mathlib.Data.List.DropRight
import SourceTree.Proofs.Layout.Inline
import SourceTree.Proofs.Layout.Post

/-!
The comments that a layout keeps. The lines of a tree are the lines of the tree without its
trivia, with the comments of the tokens in `keptTokens` put in between, in document order.
-/
namespace SourceTree

namespace Text

theorem lines_of_not_mem {text : String} (h : '\n' ∉ text.toList) (nonempty : text ≠ "") :
    lines text = [text] := by
  have hlist : text.toList.isEmpty = false := by
    rw [List.isEmpty_eq_false_iff]
    simpa using nonempty
  rw [lines, splitChars_of_not_mem h, closeLines, hlist]
  simp

theorem trimChars_append {front : List Char} (h : ∀ c ∈ front, isBlank c = true)
    (cs : List Char) : trimChars (front ++ cs) = trimChars cs := by
  rw [trimChars, List.dropWhile_append_of_pos h]
  rfl

theorem trimChars_trimChars (cs : List Char) : trimChars (trimChars cs) = trimChars cs := by
  have heq : ∀ cs, trimChars cs = (cs.dropWhile isBlank).rdropWhile isBlank := fun _ => rfl
  have hfront : (trimChars cs).dropWhile isBlank = trimChars cs := by
    rw [heq]
    obtain ⟨back, hback⟩ := List.rdropWhile_prefix isBlank (cs.dropWhile isBlank)
    cases hkept : (cs.dropWhile isBlank).rdropWhile isBlank with
    | nil => rfl
    | cons c rest =>
      -- the first character that is left is not blank
      have hc := List.head?_dropWhile_not isBlank cs
      rw [← hback, hkept] at hc
      exact List.dropWhile_cons_of_neg (Bool.eq_false_iff.mp hc)
  rw [heq (trimChars cs), hfront, heq, List.rdropWhile_idempotent]

theorem trim_trim (text : String) : trim (trim text) = trim text := by
  rw [trim, trim, String.toList_ofList, trimChars_trimChars]

end Text

namespace Layout

/-! ### Lists put into one -/

/-- The last list holds the two others, each in its own order, and nothing else. -/
inductive Merges {α : Type} : List α → List α → List α → Prop where
  | nil : Merges [] [] []
  | left {as bs cs : List α} (a : α) (h : Merges as bs cs) : Merges (a :: as) bs (a :: cs)
  | right {as bs cs : List α} (b : α) (h : Merges as bs cs) : Merges as (b :: bs) (b :: cs)

namespace Merges

variable {α : Type} {as bs cs : List α}

theorem all_left (as : List α) : Merges as [] as := by
  induction as with
  | nil => exact .nil
  | cons a as ih => exact .left a ih

theorem all_right (bs : List α) : Merges [] bs bs := by
  induction bs with
  | nil => exact .nil
  | cons b bs ih => exact .right b ih

theorem append {as' bs' cs' : List α} (h : Merges as bs cs) (h' : Merges as' bs' cs') :
    Merges (as ++ as') (bs ++ bs') (cs ++ cs') := by
  induction h with
  | nil => exact h'
  | left a _ ih => exact .left a ih
  | right b _ ih => exact .right b ih

theorem sublist (h : Merges as bs cs) : as.Sublist cs := by
  induction h with
  | nil => exact .slnil
  | left a _ ih => exact ih.cons_cons a
  | right b _ ih => exact ih.cons b

end Merges

/-! ### The tree without trivia -/

def plainToken (token : Token) : Token := .ofText token.kind token.text

theorem text_plainToken (token : Token) : (plainToken token).text = token.text := rfl

/-- The tree without any trivia. -/
def plainTree (node : Node) : Node := node.mapTokens plainToken

theorem leadingLines_plainTree (node : Node) (level : Nat) :
    leadingLines (plainTree node) level = [] := by
  rw [leadingLines, plainTree, node.firstToken?_mapTokens]
  cases node.firstToken? <;> rfl

/-! ### Lines with comments in between -/

def texts (lines : List Line) : List String := lines.map Line.text

/-- The texts of the lines kept from the trivia in front of a token. -/
def notes (token : Token) : List String := texts (commentLines token 0)

theorem texts_triviaLines (level : Nat) (trivia : Trivia) :
    texts (triviaLines level trivia) = texts (triviaLines 0 trivia) := by
  simp only [texts, triviaLines]
  cases trivia.kind with
  | documentationComment => cases trivia.inner <;> simp
  | singleLineComment | multiLineComment => simp
  | directive | whitespace | endOfLine | documentationExterior => rfl

theorem texts_commentLines (token : Token) (level : Nat) :
    texts (commentLines token level) = notes token := by
  simp only [notes, texts, commentLines, List.map_flatMap]
  exact List.flatMap_congr fun trivia _ => texts_triviaLines level trivia

/-- The second lines are the first with the comments of some tokens put in between. -/
def Joins (tokens : List Token) (plain full : List Line) : Prop :=
  Merges (tokens.flatMap notes) (texts plain) (texts full)

namespace Joins

variable {tokens others : List Token} {plain full plain' full' : List Line}

theorem of_texts (h : texts plain = texts full) : Joins [] plain full := by
  rw [Joins, h]
  exact .all_right _

theorem append (h : Joins tokens plain full) (h' : Joins others plain' full') :
    Joins (tokens ++ others) (plain ++ plain') (full ++ full') := by
  simp only [Joins, texts, List.flatMap_append, List.map_append]
  exact Merges.append h h'

/-- A line that both have. -/
theorem cons {text text' : String} (level : Nat) (htext : text = text')
    (h : Joins tokens plain full) :
    Joins tokens (⟨level, text⟩ :: plain) (⟨level, text'⟩ :: full) := by
  rw [htext]
  exact Merges.right _ h

theorem line {text text' : String} (level : Nat) (htext : text = text') :
    Joins [] [⟨level, text⟩] [⟨level, text'⟩] :=
  cons level htext .nil

theorem comments (token : Token) (level : Nat) :
    Joins [token] [] (commentLines token level) := by
  rw [Joins, texts_commentLines, List.flatMap_singleton]
  exact .all_left _

theorem leading (node : Node) (level : Nat) :
    Joins node.firstToken?.toList (leadingLines (plainTree node) level)
      (leadingLines node level) := by
  rw [leadingLines_plainTree, leadingLines]
  cases node.firstToken? with
  | none => exact .nil
  | some token => exact comments token level

theorem braced {header header' : String} (level : Nat) (hheader : header = header')
    (h : Joins tokens plain full) :
    Joins tokens (braced level header plain) (braced level header' full) := by
  have hbody := h.append (line level (rfl : "\x7d" = "\x7d"))
  rw [List.append_nil] at hbody
  exact cons level hheader (cons level rfl hbody)

end Joins

/-- Wherever a node stands, its lines are those of the node without trivia and the comments that
are kept there. -/
structure Echoes (node : Node) : Prop where
  item (level : Nat) :
    Joins (keptTokens .item node) ((look (plainTree node)).item level) ((look node).item level)
  statement (level : Nat) : Joins (keptTokens .statement node)
    ((look (plainTree node)).statement level) ((look node).statement level)
  chained (level : Nat) : node.kind = .ifStatement → Joins (keptTokens .branch node)
    ((look (plainTree node)).chained level) ((look node).chained level)
  clause (level : Nat) : Joins (keptTokens .clause node)
    ((look (plainTree node)).clause level) ((look node).clause level)
  behind (header : String) (level : Nat) : Joins (keptTokens .behind node)
    ((look (plainTree node)).behind header level) ((look node).behind header level)

theorem kind_plainTree (node : Node) : (plainTree node).kind = node.kind := by
  cases node
  rfl

theorem inline_plainTree (node : Node) : (look (plainTree node)).inline = (look node).inline :=
  inline_mapTokens text_plainToken node

/-! ### Several nodes -/

section Nodes

variable {nodes : List Node}

theorem joins_items (h : ∀ node ∈ nodes, Echoes node) (level : Nat) :
    Joins (keptAmong .item nodes) (itemLines (looks (mapTokensAll plainToken nodes)) level)
      (itemLines (looks nodes) level) := by
  induction nodes with
  | nil => exact .of_texts rfl
  | cons node rest ih =>
    obtain ⟨hnode, hrest⟩ := List.forall_mem_cons.mp h
    exact (hnode.item level).append (ih hrest)

theorem joins_members (h : ∀ node ∈ nodes, Echoes node) (level : Nat) :
    Joins (keptAmong .item nodes) (memberLines (looks (mapTokensAll plainToken nodes)) level)
      (memberLines (looks nodes) level) := by
  induction nodes with
  | nil => exact .of_texts rfl
  | cons node rest ih =>
    obtain ⟨hnode, hrest⟩ := List.forall_mem_cons.mp h
    cases rest with
    | nil =>
      simp only [mapTokensAll, looks, memberLines, List.map_cons, List.map_nil,
        List.intercalate_singleton, keptAmong, List.append_nil]
      exact hnode.item level
    | cons next rest =>
      have hblank : Joins [] [Line.blank] [Line.blank] := .of_texts rfl
      have hall := ((hnode.item level).append hblank).append (ih hrest)
      rw [List.append_nil] at hall
      simp only [mapTokensAll, looks, memberLines, List.map_cons,
        List.intercalate_cons_cons] at hall ⊢
      exact hall

theorem joins_entry (node : Node) (level : Nat) :
    Joins (keptTokens .entry node) ((look (plainTree node)).before level)
      ((look node).before level) := by
  cases node with
  | mk info kind slots =>
    have hkept : keptTokens .entry (.mk info kind slots) =
        (Node.mk info kind slots).firstToken?.toList := by
      rw [keptTokens, below_of_fields rfl, keptInSlots_within, List.append_nil]
      rfl
    rw [hkept]
    exact .leading (.mk info kind slots) level

theorem joins_entries (nodes : List Node) (trailing : Bool) (level : Nat) :
    Joins (keptAmong .entry nodes)
      (enumLines trailing level (looks (mapTokensAll plainToken nodes)))
      (enumLines trailing level (looks nodes)) := by
  induction nodes with
  | nil => exact .of_texts rfl
  | cons node rest ih =>
    have hinline := inline_plainTree node
    cases rest with
    | nil =>
      refine (joins_entry node level).append (.line level ?_)
      rw [← hinline]
      rfl
    | cons next rest =>
      refine (joins_entry node level).append (.cons level ?_ ih)
      rw [← hinline]
      rfl

/-- Usings, then members. -/
theorem joins_unit {usings members : List Node} (husings : ∀ node ∈ usings, Echoes node)
    (hmembers : ∀ node ∈ members, Echoes node) (level : Nat) :
    Joins (keptAmong .item usings ++ keptAmong .item members)
      (unitLines (looks (mapTokensAll plainToken usings)) (looks (mapTokensAll plainToken members))
        level)
      (unitLines (looks usings) (looks members) level) := by
  have hblank : Joins []
      (if (looks (mapTokensAll plainToken usings)).isEmpty ||
        (looks (mapTokensAll plainToken members)).isEmpty then [] else [Line.blank])
      (if (looks usings).isEmpty || (looks members).isEmpty then [] else [Line.blank]) := by
    cases usings <;> cases members <;> exact .of_texts rfl
  have hall := ((joins_items husings level).append hblank).append (joins_members hmembers level)
  rw [List.append_nil] at hall
  exact hall

theorem joins_embedded {node : Node} (h : Echoes node) (level : Nat) :
    Joins (keptTokens .statement node) (embedded (look (plainTree node)) level)
      (embedded (look node) level) := by
  rw [embedded, embedded, kind_look, kind_look, kind_plainTree]
  exact h.statement _

/-- A header with a body, or closed by a semicolon. -/
theorem joins_body {body : Option Node} (h : ∀ node ∈ body, Echoes node) {header header' : String}
    (hheader : header = header') (level : Nat) :
    Joins (keptInSlot .statement (.optNode body))
      (bodyLines level header ((body.map plainTree).map look))
      (bodyLines level header' (body.map look)) := by
  cases body with
  | none => exact .line level (by rw [hheader])
  | some node => exact .cons level hheader (joins_embedded (h node rfl) level)

theorem joins_behind {node : Node} (h : Echoes node) {header header' : String}
    (hheader : header = header') (level : Nat) :
    Joins (keptTokens .behind node) ((look (plainTree node)).behind header level)
      ((look node).behind header' level) := by
  rw [hheader]
  exact h.behind header' level

end Nodes

/-- An `if` statement from its first word on. -/
theorem joins_if {condition statement : Node} {otherwise : Option Node}
    (hstatement : Echoes statement) (hotherwise : ∀ node ∈ otherwise, Echoes node)
    (opening : String) (level : Nat) :
    Joins (keptTokens .statement statement ++ keptInSlot .clause (.optNode otherwise))
      (ifLines level opening (look (plainTree condition)) (look (plainTree statement))
        ((otherwise.map plainTree).map look))
      (ifLines level opening (look condition) (look statement) (otherwise.map look)) := by
  refine .cons level (by rw [inline_plainTree]) (.append (joins_embedded hstatement level) ?_)
  cases otherwise with
  | none => exact .of_texts rfl
  | some clause => exact (hotherwise clause rfl).clause level

/-! ### Kind by kind -/

theorem joins_attributes (attributes : List Node) (level : Nat) :
    Joins [] (attributeLines (looks (mapTokensAll plainToken attributes)) level)
      (attributeLines (looks attributes) level) := by
  apply Joins.of_texts
  simp only [texts, attributeLines, List.map_map]
  exact map_inline_mapTokens text_plainToken attributes

theorem joins_front {post : Post} {node : Node} (hopens : post.opens node.kind = true)
    (level : Nat) :
    Joins (front post node) (leadingLines (plainTree node) level) (leadingLines node level) := by
  rw [front, if_pos hopens]
  exact .leading node level

/-- What holds of the nodes that fields hold. -/
def InSlot (P : Node → Prop) : {shape : Shape} → Slot shape → Prop
  | _, .node child => P child
  | _, .optNode child => ∀ node ∈ child, P node
  | _, .nodes children => ∀ node ∈ children, P node
  | _, .separated children => ∀ node ∈ children.elements, P node
  | _, .token _ | _, .optToken _ | _, .tokens _ => True

def InSlots (P : Node → Prop) : {fields : List Field} → Slots fields → Prop
  | _, .nil => True
  | _, .cons slot rest => InSlot P slot ∧ InSlots P rest

/-- The tokens kept in the fields of a node, given where the nodes of each field stand. -/
def keptBy : List Post → {fields : List Field} → Slots fields → List Token
  | post :: posts, _, .cons slot rest => keptInSlot post slot ++ keptBy posts rest
  | _, _, _ => []

theorem keptInSlots_eq (post : String → Post) {fields : List Field} (slots : Slots fields) :
    keptInSlots post slots = keptBy (fields.map fun field => post field.name) slots := by
  cases slots with
  | nil => rfl
  | cons slot rest => rw [keptInSlots, keptInSlots_eq post rest, List.map_cons, keptBy]

section Kinds

variable {info : Info} {kind : Kind} {slots : Slots kind.fields}

/-- Where the nodes of each field stand. -/
def Post.all (post : Post) (node : Node) : List Post :=
  node.kind.fields.map fun field => post.below node field.name

theorem keptInSlots_below (post : Post) (posts : List Post) (info : Info)
    (slots : Slots kind.fields) (h : post.all (.mk info kind slots) = posts) :
    keptInSlots (post.below (.mk info kind slots)) slots = keptBy posts slots := by
  rw [keptInSlots_eq, ← h]
  rfl

theorem statementPosts_of_place (h : place kind ≠ .statement) : statementPosts kind = [] := by
  cases kind
  all_goals try exact absurd rfl h
  all_goals rfl

theorem joins_statementOf (h : InSlots Echoes slots) {text text' : String} (htext : text = text')
    (level : Nat) :
    Joins (keptInSlots (Post.below .statement (.mk info kind slots)) slots)
      (statementOf level text kind (slotLooks (slots.mapTokens plainToken)))
      (statementOf level text' kind (slotLooks slots)) := by
  by_cases hplace : place kind = .statement
  · -- Where the parts of a kind stand is a table: it is written out in each case and computed.
    cases kind with
    | block =>
      rw [keptInSlots_below .statement [.within, .item, .within] info slots rfl]
      cases_type* Slots Slot
      obtain ⟨-, hstatements, -⟩ := h
      simp only [keptBy, keptInSlot_within, List.nil_append]
      exact .cons level rfl (.append (joins_items hstatements _) (.line level rfl))
    | ifStatement =>
      rw [keptInSlots_below .statement
        [.within, .within, .within, .within, .statement, .clause] info slots rfl]
      cases_type* Slots Slot
      obtain ⟨-, -, -, -, hstatement, hotherwise, -⟩ := h
      simp only [keptBy, keptInSlot_within, List.nil_append, List.append_nil, Slots.mapTokens,
        slotLooks, slotLook_optNode, slotLook_mapTokens_optNode]
      exact joins_if hstatement hotherwise _ level
    | whileStatement =>
      rw [keptInSlots_below .statement
        [.within, .within, .within, .within, .statement] info slots rfl]
      cases_type* Slots Slot
      obtain ⟨-, -, -, -, hstatement, -⟩ := h
      simp only [keptBy, keptInSlot_within, List.nil_append, List.append_nil]
      refine .cons level ?_ (joins_embedded hstatement level)
      exact congrArg (fun text => "while (" ++ text ++ ")") (inline_plainTree _)
    | forEachStatement =>
      rw [keptInSlots_below .statement
        [.within, .within, .within, .within, .within, .within, .within, .statement] info slots rfl]
      cases_type* Slots Slot
      obtain ⟨-, -, -, -, -, -, -, hstatement, -⟩ := h
      simp only [keptBy, keptInSlot_within, List.nil_append, List.append_nil]
      refine .cons level ?_ (joins_embedded hstatement level)
      exact congrArg₂ (fun type text => "foreach (" ++ type ++ " " ++ _ ++ " in " ++ text ++ ")")
        (inline_plainTree _) (inline_plainTree _)
    | returnStatement =>
      rw [below_of_fields rfl, keptInSlots_within]
      cases_type* Slots Slot
      simp only [Slots.mapTokens, slotLooks, slotLook_optNode, slotLook_mapTokens_optNode]
      exact .line level (congrArg (fun text => "return" ++ text ++ ";")
        (optText_mapTokens text_plainToken _ _))
    | expressionStatement | localDeclarationStatement =>
      rw [below_of_fields rfl, keptInSlots_within]
      cases_type* Slots Slot
      exact .line level (congrArg (· ++ ";") (inline_plainTree _))
    | _ => cases hplace
  · have hfields : Post.fields .statement (.mk info kind slots) = [] :=
      statementPosts_of_place hplace
    rw [statementOf_of_place hplace, statementOf_of_place hplace, below_of_fields hfields,
      keptInSlots_within]
    exact .line level htext

/-- A declaration behind its comments and attributes. -/
theorem joins_declaration {post : Post} {node : Node} (hopens : post.opens node.kind = true)
    {tokens : List Token} {plain full : List Line} (attributes : List Node) (level : Nat)
    (h : Joins tokens plain full) :
    Joins (front post node ++ tokens)
      (leadingLines (plainTree node) level ++
        attributeLines (looks (mapTokensAll plainToken attributes)) level ++ plain)
      (leadingLines node level ++ attributeLines (looks attributes) level ++ full) := by
  have hall := ((joins_front hopens level).append (joins_attributes attributes level)).append h
  rw [List.append_nil] at hall
  exact hall

theorem joins_itemOf (h : InSlots Echoes slots) (hplace : place kind = .item) (level : Nat)
    (other other' : List Line) :
    Joins (keptTokens .item (.mk info kind slots))
      (itemOf level (leadingLines (plainTree (.mk info kind slots)) level) other kind
        (slotLooks (slots.mapTokens plainToken)))
      (itemOf level (leadingLines (.mk info kind slots) level) other' kind (slotLooks slots)) := by
  rw [keptTokens]
  cases kind with
  | compilationUnit =>
    rw [keptInSlots_below .item [.item, .item, .last] info slots rfl]
    cases_type* Slots Slot
    obtain ⟨husings, hmembers, -⟩ := h
    simp only [keptBy, List.append_nil, ← List.append_assoc]
    -- The comments in front of a unit are those of its first part, or of the end of the file.
    exact (joins_unit husings hmembers level).append (.comments _ level)
  | namespaceDeclaration =>
    rw [keptInSlots_below .item [.within, .within, .within, .item, .item, .within] info slots rfl]
    cases_type* Slots Slot
    obtain ⟨-, -, -, husings, hmembers, -⟩ := h
    simp only [keptBy, keptInSlot_within, List.nil_append, List.append_nil]
    refine .append (joins_front rfl level) (.braced level ?_ (joins_unit husings hmembers _))
    exact congrArg ("namespace " ++ ·) (inline_plainTree _)
  | classDeclaration | interfaceDeclaration =>
    rw [keptInSlots_below .item [.within, .within, .within, .within, .within, .within, .within,
      .item, .within] info slots rfl]
    cases_type* Slots Slot
    obtain ⟨-, -, -, -, -, -, -, hmembers, -⟩ := h
    simp only [keptBy, keptInSlot_within, List.nil_append, List.append_nil, Slots.mapTokens,
      slotLooks, slotLook_optNode, slotLook_mapTokens_optNode]
    exact joins_declaration rfl _ level
      (.braced level (typeHeader_mapTokens text_plainToken _ _ _ _ _) (joins_members hmembers _))
  | enumDeclaration =>
    rw [keptInSlots_below .item [.within, .within, .within, .within, .within, .within, .entry,
      .within] info slots rfl]
    cases_type* Slots Slot
    simp only [keptBy, keptInSlot_within, List.nil_append, List.append_nil, Slots.mapTokens,
      slotLooks, slotLook_optNode, slotLook_mapTokens_optNode, slotLook_separated,
      slotLook_mapTokens_separated]
    exact joins_declaration rfl _ level
      (.braced level (typeHeader_mapTokens text_plainToken _ _ _ none _) (joins_entries _ _ _))
  | methodDeclaration =>
    rw [keptInSlots_below .item [.within, .within, .within, .within, .within, .within, .statement,
      .within] info slots rfl]
    cases_type* Slots Slot
    obtain ⟨-, -, -, -, -, -, hbody, -⟩ := h
    simp only [keptBy, keptInSlot_within, List.nil_append, List.append_nil, Slots.mapTokens,
      slotLooks, slotLook_optNode, slotLook_mapTokens_optNode]
    refine joins_declaration rfl _ level (joins_body hbody ?_ level)
    rw [modifierText_mapTokens text_plainToken, inline_mapTokens text_plainToken,
      optText_mapTokens text_plainToken, inline_mapTokens text_plainToken]
    rfl
  | constructorDeclaration =>
    rw [keptInSlots_below .item [.within, .within, .within, .within, .statement, .within] info slots
      rfl]
    cases_type* Slots Slot
    obtain ⟨-, -, -, -, hbody, -⟩ := h
    simp only [keptBy, keptInSlot_within, List.nil_append, List.append_nil, Slots.mapTokens,
      slotLooks, slotLook_optNode, slotLook_mapTokens_optNode]
    refine joins_declaration rfl _ level (joins_body hbody ?_ level)
    rw [modifierText_mapTokens text_plainToken, inline_mapTokens text_plainToken]
    rfl
  | propertyDeclaration =>
    rw [keptInSlots_below .item [.within, .within, .within, .within, .behind] info slots rfl]
    cases_type* Slots Slot
    obtain ⟨-, -, -, -, haccessors, -⟩ := h
    simp only [keptBy, keptInSlot_within, List.nil_append, List.append_nil]
    refine joins_declaration rfl _ level (joins_behind haccessors ?_ level)
    rw [modifierText_mapTokens text_plainToken, inline_mapTokens text_plainToken]
    rfl
  | accessorDeclaration =>
    rw [keptInSlots_below .item [.within, .within, .statement, .within] info slots rfl]
    cases_type* Slots Slot
    obtain ⟨-, -, hbody, -⟩ := h
    simp only [keptBy, keptInSlot_within, List.nil_append, List.append_nil, Slots.mapTokens,
      slotLooks, slotLook_optNode, slotLook_mapTokens_optNode]
    refine .append (joins_front rfl level) (joins_body hbody ?_ level)
    rw [modifierText_mapTokens text_plainToken]
    rfl
  | fieldDeclaration =>
    rw [below_of_fields rfl, keptInSlots_within]
    cases_type* Slots Slot
    refine joins_declaration rfl _ level (.line level ?_)
    rw [modifierText_mapTokens text_plainToken, inline_mapTokens text_plainToken]
  | _ => cases hplace

theorem keptTokens_item_of_place (h : place kind ≠ .item) :
    keptTokens .item (.mk info kind slots) = keptTokens .statement (.mk info kind slots) := by
  cases kind
  all_goals try exact absurd rfl h
  all_goals rfl

theorem keptTokens_branch {node : Node} (h : node.kind ≠ .ifStatement) :
    keptTokens .branch node = keptTokens .statement node := by
  have hopens : Post.opens .branch node.kind = true := bne_iff_ne.mpr h
  obtain ⟨info, kind, slots⟩ := node
  rw [keptTokens, keptTokens, front, if_pos hopens]
  rfl

theorem joins_chainedOf (h : InSlots Echoes slots) (hkind : kind = .ifStatement) (level : Nat) :
    Joins (keptTokens .branch (.mk info kind slots))
      (chainedOf level kind (slotLooks (slots.mapTokens plainToken)))
      (chainedOf level kind (slotLooks slots)) := by
  subst hkind
  rw [keptTokens, keptInSlots_below .branch
    [.within, .within, .within, .within, .statement, .clause] info slots rfl]
  cases_type* Slots Slot
  obtain ⟨-, -, -, -, hstatement, hotherwise, -⟩ := h
  simp only [keptBy, keptInSlot_within, List.nil_append, List.append_nil, Slots.mapTokens,
    slotLooks, slotLook_optNode, slotLook_mapTokens_optNode]
  exact joins_if hstatement hotherwise _ level

/-- What stands behind an `else`: another `if`, or any other statement. -/
theorem joins_branch {node : Node} (h : Echoes node) (level : Nat) :
    Joins (keptTokens .branch node)
      (if (look (plainTree node)).kind = .ifStatement then (look (plainTree node)).chained level
        else ⟨level, "else"⟩ :: embedded (look (plainTree node)) level)
      (if (look node).kind = .ifStatement then (look node).chained level
        else ⟨level, "else"⟩ :: embedded (look node) level) := by
  rw [kind_look, kind_look, kind_plainTree]
  by_cases hkind : node.kind = .ifStatement
  · rw [if_pos hkind, if_pos hkind]
    exact h.chained level hkind
  · rw [if_neg hkind, if_neg hkind]
    rw [keptTokens_branch hkind]
    exact .cons level rfl (joins_embedded h level)

theorem joins_clauseOf (h : InSlots Echoes slots) (level : Nat) :
    Joins (keptTokens .clause (.mk info kind slots))
      (clauseOf level kind (slotLooks (slots.mapTokens plainToken)))
      (clauseOf level kind (slotLooks slots)) := by
  rw [keptTokens]
  by_cases hkind : kind = .elseClause
  · subst hkind
    rw [keptInSlots_below .clause [.within, .branch] info slots rfl]
    cases_type* Slots Slot
    obtain ⟨-, hstatement, -⟩ := h
    simp only [keptBy, keptInSlot_within, List.nil_append, List.append_nil]
    exact joins_branch hstatement level
  · have hnone : ∀ pieces, clauseOf level kind pieces = [] := by
      intro pieces
      cases kind
      all_goals try exact absurd rfl hkind
      all_goals rfl
    have hfields : Post.fields .clause (.mk info kind slots) = [] := if_neg hkind
    rw [hnone, hnone, below_of_fields hfields, keptInSlots_within]
    exact .of_texts rfl

theorem autoAccessor?_plainTree (node : Node) :
    (look (node.mapTokens plainToken)).autoAccessor? = (look node).autoAccessor? := by
  obtain ⟨info, kind, slots⟩ := node
  by_cases hkind : kind = .accessorDeclaration
  · subst hkind
    cases_type* Slots Slot Option
    all_goals try rfl
    all_goals
      refine congrArg (fun text => some (text ++ _ ++ ";")) ?_
      exact modifierText_mapTokens text_plainToken _
  · cases kind
    all_goals try exact absurd rfl hkind
    all_goals rfl

theorem isSome_autoAccessor? (node : Node) :
    (look node).autoAccessor?.isSome = isAutoAccessor node := by
  obtain ⟨info, kind, slots⟩ := node
  by_cases hkind : kind = .accessorDeclaration
  · subst hkind
    cases_type* Slots Slot Option
    all_goals rfl
  · cases kind
    all_goals try exact absurd rfl hkind
    all_goals rfl

theorem autoAccessors?_plainTree (nodes : List Node) :
    autoAccessors? (looks (mapTokensAll plainToken nodes)) = autoAccessors? (looks nodes) := by
  induction nodes with
  | nil => rfl
  | cons node rest ih =>
    rw [mapTokensAll, looks, looks, autoAccessors?, autoAccessors?, ih, autoAccessor?_plainTree]

theorem isSome_autoAccessors? (nodes : List Node) :
    (autoAccessors? (looks nodes)).isSome = nodes.all isAutoAccessor := by
  induction nodes with
  | nil => rfl
  | cons node rest ih =>
    rw [looks, autoAccessors?, List.all_cons, ← ih, ← isSome_autoAccessor? node]
    cases (look node).autoAccessor? <;> cases autoAccessors? (looks rest) <;> rfl

theorem children_accessorList (info : Info) (opening closing : Token) (accessors : List Node) :
    (Node.accessorList opening accessors closing info).children = accessors := by
  simp only [Node.children, Node.elements, Node.slots, Slots.elements, Slot.elements,
    List.filterMap_append, filterMap_node?_map_node]
  exact List.append_nil accessors

theorem keptTokens_behind (info : Info) (opening closing : Token) (accessors : List Node) :
    keptTokens .behind (.accessorList opening accessors closing info) =
      if accessors.all isAutoAccessor then [] else keptAmong .item accessors := by
  have hchildren := children_accessorList info opening closing accessors
  by_cases hall : accessors.all isAutoAccessor = true
  · rw [if_pos hall, keptTokens, below_of_fields, keptInSlots_within]
    · rfl
    · rw [Post.fields, hchildren, hall]
      rfl
  · rw [if_neg hall, keptTokens, keptInSlots_below .behind [.within, .item, .within]]
    · simp only [keptBy, keptInSlot_within, List.nil_append, List.append_nil]
      rfl
    · rw [Bool.not_eq_true] at hall
      simp only [Post.all, Post.below, Post.fields, hchildren, hall]
      rfl

theorem joins_behindOf (h : InSlots Echoes slots) {text text' : String} (htext : text = text')
    (header : String) (level : Nat) :
    Joins (keptTokens .behind (.mk info kind slots))
      (behindOf level text header kind (slotLooks (slots.mapTokens plainToken)))
      (behindOf level text' header kind (slotLooks slots)) := by
  by_cases hkind : kind = .accessorList
  · subst hkind
    cases_type* Slots Slot
    rename_i opening accessors closing
    obtain ⟨-, haccessors, -⟩ := h
    simp only [Slots.mapTokens, Slot.mapTokens, slotLooks, slotLook_nodes, behindOf,
      autoAccessors?_plainTree, keptTokens_behind, ← isSome_autoAccessors?]
    cases autoAccessors? (looks accessors) with
    | some texts => exact .line level rfl
    | none => exact .braced level rfl (joins_items haccessors _)
  · have hone : ∀ text pieces, behindOf level text header kind pieces =
        [⟨level, header ++ " " ++ text⟩] := by
      intro text pieces
      cases kind
      all_goals try exact absurd rfl hkind
      all_goals rfl
    have hfields : Post.fields .behind (.mk info kind slots) = [] := if_neg fun h => hkind h.1
    rw [hone, hone, keptTokens, below_of_fields hfields, keptInSlots_within]
    exact .line level (by rw [htext])

theorem Echoes.of_slots (h : InSlots Echoes slots) : Echoes (.mk info kind slots) := by
  have hinline := inline_plainTree (.mk info kind slots)
  have hstatement : ∀ level, Joins (keptTokens .statement (.mk info kind slots))
      ((look (plainTree (.mk info kind slots))).statement level)
      ((look (.mk info kind slots)).statement level) := by
    intro level
    exact (joins_front rfl level).append (joins_statementOf h hinline level)
  refine ⟨fun level => ?_, hstatement, fun level hkind => joins_chainedOf h hkind level,
    joins_clauseOf h, joins_behindOf h hinline⟩
  by_cases hplace : place kind = .item
  · exact joins_itemOf h hplace level _ _
  · rw [keptTokens_item_of_place hplace]
    simp only [plainTree, Node.mapTokens, look, Look.ofSlots, itemOf_of_place hplace]
    exact hstatement level

end Kinds

/-! ### Whole trees -/

mutual

theorem echoes : (node : Node) → Echoes node
  | .mk _ _ slots => .of_slots (echoes_slots slots)

theorem echoes_slots : {fields : List Field} → (slots : Slots fields) → InSlots Echoes slots
  | _, .nil => trivial
  | _, .cons slot rest => ⟨echoes_slot slot, echoes_slots rest⟩

theorem echoes_slot : {shape : Shape} → (slot : Slot shape) → InSlot Echoes slot
  | _, .node child => echoes child
  | _, .optNode none => by
    intro node hnode
    cases hnode
  | _, .optNode (some child) => by
    intro node hnode
    cases hnode
    exact echoes child
  | _, .token _ | _, .optToken _ | _, .tokens _ => trivial
  | _, .nodes children => echoes_among children
  | _, .separated ⟨elements, _⟩ => echoes_among elements

theorem echoes_among : (nodes : List Node) → ∀ node ∈ nodes, Echoes node
  | [] => by
    intro node hnode
    cases hnode
  | node :: rest => List.forall_mem_cons.mpr ⟨echoes node, echoes_among rest⟩

end

/-! ### Comments in one line -/

/-- A comment up to the end of its line. -/
def isLineComment (trivia : Trivia) : Bool :=
  trivia.kind == .singleLineComment && trivia.text != "" && !trivia.text.toList.contains '\n'

/-- The texts of such comments in front of a token. -/
def lineComments (token : Token) : List String :=
  (token.leading.filter isLineComment).map Trivia.text

theorem texts_triviaLines_of_isLineComment {trivia : Trivia} (h : isLineComment trivia = true)
    (level : Nat) : texts (triviaLines level trivia) = [Text.trim trivia.text] := by
  simp only [isLineComment, Bool.and_eq_true, beq_iff_eq, bne_iff_ne, Bool.not_eq_true',
    List.contains_eq_mem, decide_eq_false_iff_not] at h
  obtain ⟨⟨hkind, hne⟩, hbreak⟩ := h
  simp only [triviaLines, hkind, Text.lines_of_not_mem hbreak hne]
  rfl

theorem trim_lineComments_sublist (token : Token) :
    ((lineComments token).map Text.trim).Sublist (notes token) := by
  simp only [lineComments, notes, texts, commentLines, List.map_flatMap]
  induction token.leading with
  | nil => exact .slnil
  | cons trivia rest ih =>
    rw [List.flatMap_cons]
    by_cases h : isLineComment trivia = true
    · have htexts := texts_triviaLines_of_isLineComment h 0
      rw [texts] at htexts
      rw [List.filter_cons_of_pos h, htexts]
      exact ih.cons_cons _
    · rw [List.filter_cons_of_neg h]
      exact ih.trans (List.sublist_append_right _ _)

/-! ### Rows of the layout -/

/-- A line behind its indentation. -/
def Line.row (options : Options) (line : Line) : String :=
  String.join (List.replicate line.level options.indent.unit) ++ line.text

theorem render_eq_rows (options : Options) (lines : List Line) :
    render options lines =
      String.join ((lines.map (Line.row options)).map (· ++ options.newline)) := by
  rw [render, List.map_map]
  rfl

theorem isBlank_unit (indent : Indent) : ∀ c ∈ indent.unit.toList, Text.isBlank c = true := by
  cases indent with
  | spaces width =>
    intro c hc
    rw [Indent.unit, String.toList_ofList] at hc
    rw [List.eq_of_mem_replicate hc]
    rfl
  | tabs =>
    intro c hc
    have hunit : Indent.tabs.unit.toList = ['\t'] := rfl
    rw [hunit] at hc
    rw [List.mem_singleton.mp hc]
    rfl

theorem isBlank_indentation (indent : Indent) (level : Nat) :
    ∀ c ∈ (String.join (List.replicate level indent.unit)).toList, Text.isBlank c = true := by
  induction level with
  | zero =>
    intro c hc
    cases hc
  | succ level ih =>
    intro c hc
    rw [List.replicate_succ, String.join_cons, String.toList_append, List.mem_append] at hc
    exact hc.elim (isBlank_unit indent c) (ih c)

theorem trim_row (options : Options) (line : Line) :
    Text.trim (line.row options) = Text.trim line.text := by
  rw [Line.row, Text.trim, String.toList_append,
    Text.trimChars_append (isBlank_indentation options.indent line.level)]
  rfl

/-- The comments in front of some tokens stand among the lines that keep them. -/
theorem Joins.lineComments_sublist {tokens : List Token} {plain full : List Line}
    (h : Joins tokens plain full) :
    ((tokens.flatMap lineComments).map Text.trim).Sublist (texts full) := by
  refine List.Sublist.trans ?_ (Merges.sublist h)
  rw [List.map_flatMap]
  clear h
  induction tokens with
  | nil => exact .slnil
  | cons token tokens ih => exact (trim_lineComments_sublist token).append ih

/-! ### What is kept -/

/-- Each comment in front of a declaration or statement that has lines of its own stands in a row
of its own, in document order, and no other comment is kept. -/
theorem format_keeps_comments (root : Node) (options : Options) :
    (keptTokens .item root).Sublist root.tokens ∧
      (∀ post node token, Stands root post node → post.opens node.kind = true →
        node.firstToken? = some token → token ∈ keptTokens .item root) ∧
      (∃ rows : List String, format root options = String.join (rows.map (· ++ options.newline)) ∧
        (((keptTokens .item root).flatMap lineComments).map Text.trim).Sublist
          (rows.map Text.trim)) ∧
      Joins (keptTokens .item root) (lines (plainTree root)) (lines root) := by
  have hjoins : Joins (keptTokens .item root) (lines (plainTree root)) (lines root) :=
    (echoes root).item 0
  refine ⟨keptTokens_sublist .item root, fun post node token h hopens => h.mem hopens,
    ⟨(lines root).map (Line.row options), ?_, ?_⟩, hjoins⟩
  · exact (format_eq_render root options).trans (render_eq_rows options (lines root))
  · have htrimmed := hjoins.lineComments_sublist.map Text.trim
    simp only [texts, List.map_map, Function.comp_def, Text.trim_trim, trim_row] at htrimmed ⊢
    exact htrimmed

/-- `if (name) return;` with a comment in front of both statements. -/
def commentedIf (name outer inner : String) (otherwise : Option Node) : Node :=
  let word (text note : String) : Token :=
    (Build.keyword text).withLeading [Build.singleLineComment note]
  .ifStatement (word "if" outer) (Build.punctuation "(") (Build.identifierName name)
    (Build.punctuation ")") (.returnStatement (word "return" inner) none (Build.punctuation ";"))
    otherwise

def chainedIf : Node := commentedIf "y" "c" "d" none

/-- The same with another such statement behind an `else`. -/
def commentedChain : Node :=
  commentedIf "x" "a" "b" (some (.elseClause (Build.keyword "else") chainedIf))

/-- An `if` directly behind an `else` loses the comment in front of it. -/
theorem format_commentedChain :
    Stands commentedChain .branch chainedIf ∧
      chainedIf.firstToken?.map lineComments = some ["// c"] ∧
      format commentedChain .standard =
        "// a\nif (x)\n    // b\n    return;\nelse if (y)\n    // d\n    return;\n" := by
  refine ⟨?_, by decide, by decide⟩
  have hclause : Node.elseClause (Build.keyword "else") chainedIf ∈
      nodesOf "else_clause" commentedChain.slots := List.mem_cons_self
  have hchained : chainedIf ∈
      nodesOf "statement" (Node.elseClause (Build.keyword "else") chainedIf).slots :=
    List.mem_cons_self
  exact .child (.child .root hclause) hchained

end Layout

end SourceTree
