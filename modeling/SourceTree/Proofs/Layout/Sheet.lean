import Mathlib.Tactic.CasesM
import SourceTree.Layout.Format
import SourceTree.Proofs.View

/-!
What is written on a sheet. Each writer appends lines to what the sheet holds, and which lines
these are depends neither on the sheet nor on the unit of indentation and the newline that it
knows: they are the lines of the look of the node. So the text on an empty sheet is these lines,
rendered.
-/
namespace SourceTree.Layout

/-! ### Appending lines -/

theorem render_append (options : Options) (first second : List Line) :
    render options (first ++ second) = render options first ++ render options second := by
  rw [render, render, render, List.map_append, String.join_append]

/-- Whatever a sheet holds and whatever the options are, these lines are appended. -/
def Writes (write : Sheet → Sheet) (lines : List Line) : Prop :=
  ∀ (options : Options) (out : String),
    write ⟨options.indent.unit, options.newline, out⟩ =
      ⟨options.indent.unit, options.newline, out ++ render options lines⟩

namespace Writes

variable {α : Type} {first second : Sheet → Sheet} {before behind : List Line}

theorem nothing : Writes id [] := by
  intro options out
  simp [render]

theorem comp (h : Writes first before) (h' : Writes second behind) :
    Writes (fun sheet => second (first sheet)) (before ++ behind) := by
  intro options out
  show second (first _) = _
  rw [h options out, h' options, render_append, String.append_assoc]

theorem each_cons {item : α} {items : List α} {write : α → Sheet → Sheet}
    (h : Writes (write item) before) (h' : Writes (Sheet.each items write) behind) :
    Writes (Sheet.each (item :: items) write) (before ++ behind) :=
  h.comp h'

/-- A loop writes what its rounds write. -/
theorem each {items : List α} {write : α → Sheet → Sheet} {lines : α → List Line}
    (h : ∀ item ∈ items, Writes (write item) (lines item)) :
    Writes (Sheet.each items write) (items.flatMap lines) := by
  induction items with
  | nil => exact nothing
  | cons item items ih =>
    exact each_cons (h item List.mem_cons_self)
      (ih fun other hother => h other (List.mem_cons_of_mem _ hother))

end Writes

/-! ### Lines -/

theorem indent_eq (level : Nat) (sheet : Sheet) :
    sheet.indent level =
      { sheet with out := sheet.out ++ String.join (List.replicate level sheet.unit) } := by
  induction level generalizing sheet with
  | zero => simp [Sheet.indent]
  | succ level ih =>
    rw [Sheet.indent, ih, List.replicate_succ, String.join_cons]
    simp only [Sheet.push, String.append_assoc]

theorem writes_line (level : Nat) (text : String) :
    Writes (Sheet.line level text) [⟨level, text⟩] := by
  intro options out
  rw [Sheet.line, indent_eq]
  simp only [Sheet.push, render, List.map_cons, List.map_nil, Line.render, String.join_cons,
    String.join_nil, String.append_assoc, String.append_empty]

theorem writes_blank : Writes Sheet.blank [Line.blank] := by
  intro options out
  simp [Sheet.blank, Sheet.push, render, Line.render, Line.blank]

/-- A line each for some texts. -/
theorem writes_texts (level : Nat) (texts : List String) (f : String → String) :
    Writes (Sheet.each texts fun text => Sheet.line level (f text))
      (texts.map fun text => ⟨level, f text⟩) := by
  rw [List.map_eq_flatMap]
  exact .each fun text _ => writes_line level (f text)

theorem writes_trivia (level : Nat) (trivia : Trivia) :
    Writes (Sheet.trivia level trivia) (triviaLines level trivia) := by
  rw [Sheet.trivia, triviaLines]
  cases trivia.kind with
  | singleLineComment | multiLineComment => exact writes_texts level _ Text.trim
  | documentationComment =>
    cases trivia.inner with
    | none => exact .nothing
    | some inner => exact writes_texts level _ id
  | directive => exact writes_line 0 _
  | whitespace | endOfLine | documentationExterior => exact .nothing

theorem writes_comments (token : Token) (level : Nat) :
    Writes (Sheet.comments token level) (commentLines token level) :=
  .each fun trivia _ => writes_trivia level trivia

theorem writes_leadingComments (node : Node) (level : Nat) :
    Writes (Sheet.leadingComments node level) (leadingLines node level) := by
  rw [Sheet.leadingComments, leadingLines]
  cases node.firstToken? with
  | none => exact .nothing
  | some token => exact writes_comments token level

/-! ### Children -/

theorem writers_eq_map (nodes : List Node) : writers nodes = nodes.map writer := by
  induction nodes with
  | nil => rfl
  | cons node nodes ih => rw [writers, ih, List.map_cons]

theorem node_writer (node : Node) : (writer node).node = node := by
  cases node
  rfl

theorem look_writer (node : Node) : (writer node).look = look node := by
  rw [Writer.look, node_writer]

@[simp] theorem inline_writer (node : Node) : (writer node).inline = (look node).inline :=
  congrArg Look.inline (look_writer node)

theorem before_look (node : Node) : (look node).before = leadingLines node := by
  cases node
  rfl

@[simp] theorem slotWriter_node (child : Node) :
    slotWriter (.node child) = .node (writer child) := rfl

@[simp] theorem slotWriter_token (child : Token) : slotWriter (.token child) = .token child := rfl

@[simp] theorem slotWriter_nodes (children : List Node) :
    slotWriter (.nodes children) = .nodes (writers children) := rfl

@[simp] theorem slotWriter_tokens (children : List Token) :
    slotWriter (.tokens children) = .tokens children := rfl

@[simp] theorem slotWriter_separated (children : Separated Node Token) :
    slotWriter (.separated children) =
      .separated (writers children.elements) children.hasTrailing := rfl

@[simp] theorem slotWriter_optNode (child : Option Node) :
    slotWriter (.optNode child) = .optNode (child.map writer) := by
  cases child <;> rfl

@[simp] theorem map_look_writer (child : Option Node) :
    (child.map writer).map Writer.look = child.map look := by
  cases child with
  | none => rfl
  | some node => exact congrArg some (look_writer node)

theorem map_look_writers (nodes : List Node) : (writers nodes).map Writer.look = looks nodes := by
  rw [writers_eq_map, looks_eq_map, List.map_map]
  exact List.map_congr_left fun node _ => look_writer node

/-- In every place the writer of a node appends the lines of its look. The place behind an `else`
is one for an `if` only. -/
structure Follows (node : Node) : Prop where
  item : ∀ level, Writes ((writer node).item level) ((look node).item level)
  statement : ∀ level, Writes ((writer node).statement level) ((look node).statement level)
  chain : node.kind = .ifStatement → ∀ level,
    Writes ((writer node).chain "else " level) ((look node).chained level)
  clause : ∀ level, Writes ((writer node).clause level) ((look node).clause level)
  behind : ∀ header level,
    Writes ((writer node).behind header level) ((look node).behind header level)

theorem writes_braced {body : Sheet → Sheet} {lines : List Line} (h : Writes body lines)
    (header : String) (level : Nat) :
    Writes (Sheet.braced header level body) (braced level header lines) :=
  (((writes_line level header).comp (writes_line level "\x7b")).comp h).comp
    (writes_line level "\x7d")

theorem writes_attributes (lists : List Node) (level : Nat) :
    Writes (Sheet.attributes (writers lists) level) (attributeLines (looks lists) level) := by
  rw [Sheet.attributes, attributeLines, ← map_look_writers, List.map_map, List.map_eq_flatMap]
  exact .each fun list _ => writes_line level list.inline

theorem writes_embedded {node : Node} (h : Follows node) (level : Nat) :
    Writes ((writer node).embedded level) (embedded (look node) level) := by
  rw [Writer.embedded, embedded, node_writer, kind_look]
  split
  · exact h.statement level
  · exact h.statement (level + 1)

theorem writes_body {body : Option Node} (h : ∀ node ∈ body, Follows node) (header : String)
    (level : Nat) :
    Writes (Sheet.body header level (body.map writer))
      (bodyLines level header (body.map look)) := by
  cases body with
  | none => exact writes_line level (header ++ ";")
  | some node => exact (writes_line level header).comp (writes_embedded (h node rfl) level)

theorem intercalate_singleton_cons {α : Type} (separator : α) (list : List α)
    (lists : List (List α)) :
    [separator].intercalate (list :: lists) = list ++ lists.flatMap (separator :: ·) := by
  induction lists generalizing list with
  | nil => simp
  | cons next rest ih =>
    rw [List.intercalate_cons_cons, ih, List.flatMap_cons, List.append_assoc]
    rfl

section Lists

variable {nodes : List Node} (h : ∀ node ∈ nodes, Follows node)

include h

theorem writes_items (level : Nat) :
    Writes (Sheet.items (writers nodes) level) (itemLines (looks nodes) level) := by
  rw [Sheet.items, itemLines, writers_eq_map, looks_eq_map, List.flatMap_map]
  induction nodes with
  | nil => exact .nothing
  | cons node nodes ih =>
    exact ((h node List.mem_cons_self).item level).comp
      (ih fun other hother => h other (List.mem_cons_of_mem _ hother))

/-- Behind the first member, a blank line stands before every other. -/
theorem writes_members_from (start level : Nat) :
    Writes
      (Sheet.each ((nodes.map writer).zipIdx (start + 1)) fun entry sheet =>
        entry.1.item level (if 0 < entry.2 then sheet.blank else sheet))
      (nodes.flatMap fun node => Line.blank :: (look node).item level) := by
  induction nodes generalizing start with
  | nil => exact .nothing
  | cons node nodes ih =>
    exact (writes_blank.comp ((h node List.mem_cons_self).item level)).comp
      (ih (fun other hother => h other (List.mem_cons_of_mem _ hother)) (start + 1))

theorem writes_members (level : Nat) :
    Writes (Sheet.members (writers nodes) level) (memberLines (looks nodes) level) := by
  rw [Sheet.members, memberLines, writers_eq_map, looks_eq_map, List.map_map]
  cases nodes with
  | nil => exact .nothing
  | cons node nodes =>
    rw [List.map_cons (f := (fun member : Look => member.item level) ∘ look),
      intercalate_singleton_cons, List.flatMap_map]
    exact ((h node List.mem_cons_self).item level).comp
      (writes_members_from (fun other hother => h other (List.mem_cons_of_mem _ hother)) 0 level)

end Lists

theorem writes_usingsThenMembers {usings members : List Node}
    (husings : ∀ node ∈ usings, Follows node) (hmembers : ∀ node ∈ members, Follows node)
    (level : Nat) :
    Writes (Sheet.usingsThenMembers (writers usings) (writers members) level)
      (unitLines (looks usings) (looks members) level) := by
  have hgap : Writes
      (fun sheet => if !(writers usings).isEmpty && !(writers members).isEmpty then sheet.blank
        else sheet)
      (if (looks usings).isEmpty || (looks members).isEmpty then [] else [Line.blank]) := by
    cases usings with
    | nil => exact .nothing
    | cons =>
      cases members with
      | nil => exact .nothing
      | cons => exact writes_blank
  exact ((writes_items husings level).comp hgap).comp (writes_members hmembers level)

/-- The members of an enumeration from some position on, of `count` in all. -/
theorem writes_enumMembers_from {count start : Nat} {members : List Node}
    (h : start + members.length = count) (trailing : Bool) (level : Nat) :
    Writes
      (Sheet.each ((members.map writer).zipIdx start) fun entry sheet =>
        (sheet.leadingComments entry.1.node level).line level
          (entry.1.inline ++ if !(entry.2 + 1 == count) || trailing then "," else ""))
      (enumLines trailing level (members.map look)) := by
  induction members generalizing start with
  | nil => exact .nothing
  | cons member members ih =>
    have hlength : start + 1 + members.length = count := by
      rw [← h, List.length_cons]
      omega
    have hrest := ih hlength
    have hmember : ∀ comma, Writes
        (fun sheet => (sheet.leadingComments (writer member).node level).line level
          ((writer member).inline ++ comma))
        ((look member).before level ++ [⟨level, (look member).inline ++ comma⟩]) := by
      intro comma
      rw [node_writer, inline_writer, before_look]
      exact (writes_leadingComments member level).comp (writes_line level _)
    rw [List.map_cons, List.map_cons, List.zipIdx_cons]
    cases members with
    | nil =>
      have hlast : (start + 1 == count) = true := beq_iff_eq.2 h
      rw [List.map_nil (f := look), enumLines, ← List.append_nil (_ ++ _)]
      refine .each_cons ?_ .nothing
      simpa only [hlast, Bool.not_true, Bool.false_or] using hmember (if trailing then "," else "")
    | cons next rest =>
      have hnext : (start + 1 == count) = false := by
        rw [beq_eq_false_iff_ne, ← h, List.length_cons, List.length_cons]
        omega
      rw [List.map_cons (f := look), enumLines, List.append_cons]
      refine .each_cons ?_ hrest
      simpa only [hnext, Bool.not_false, Bool.true_or, if_true] using hmember ","

theorem writes_enumMembers (members : List Node) (trailing : Bool) (level : Nat) :
    Writes (Sheet.enumMembers (writers members) trailing level)
      (enumLines trailing level (looks members)) := by
  rw [Sheet.enumMembers, writers_eq_map, looks_eq_map]
  exact writes_enumMembers_from (by simp) trailing level

/-! ### Places -/

/-- The children in a slot are written in their looks. -/
def SlotFollows : {shape : Shape} → Slot shape → Prop
  | _, .node child => Follows child
  | _, .optNode child => ∀ node ∈ child, Follows node
  | _, .nodes children => ∀ node ∈ children, Follows node
  | _, .separated children => ∀ node ∈ children.elements, Follows node
  | _, .token _ | _, .optToken _ | _, .tokens _ => True

def SlotsFollow : {fields : List Field} → Slots fields → Prop
  | _, .nil => True
  | _, .cons slot rest => SlotFollows slot ∧ SlotsFollow rest

section Places

variable {kind : Kind} {slots : Slots kind.fields}

theorem writes_itemOf (h : SlotsFollow slots) (node : Node) (level : Nat) {other : Sheet → Sheet}
    {lines : List Line} (hother : Writes other lines) :
    Writes (Sheet.itemOf node level other kind (slotWriters slots))
      (itemOf level (leadingLines node level) lines kind (slotLooks slots)) := by
  have hbefore := writes_leadingComments node level
  intro options out
  cases kind
  all_goals try exact hother options out
  all_goals
    cases_type* Slots Slot
    simp only [slotWriters, slotWriter_node, slotWriter_optNode, slotWriter_token,
      slotWriter_nodes, slotWriter_tokens, slotWriter_separated, slotLooks, slotLook_node,
      slotLook_optNode, slotLook_token, slotLook_nodes, slotLook_tokens, Sheet.itemOf, itemOf,
      inline_writer, map_look_writer, text_tokenLook]
  case compilationUnit =>
    obtain ⟨husings, hmembers, -, -⟩ := h
    exact ((writes_usingsThenMembers husings hmembers level).comp (writes_comments _ level)) _ _
  case namespaceDeclaration =>
    obtain ⟨-, -, -, husings, hmembers, -⟩ := h
    exact (hbefore.comp (writes_braced (writes_usingsThenMembers husings hmembers _) _ level)) _ _
  case classDeclaration | interfaceDeclaration =>
    obtain ⟨-, -, -, -, -, -, -, hmembers, -⟩ := h
    exact ((hbefore.comp (writes_attributes _ level)).comp
      (writes_braced (writes_members hmembers _) _ level)) _ _
  case enumDeclaration =>
    exact ((hbefore.comp (writes_attributes _ level)).comp
      (writes_braced (writes_enumMembers _ _ _) _ level)) _ _
  case methodDeclaration =>
    obtain ⟨-, -, -, -, -, -, hbody, -⟩ := h
    exact ((hbefore.comp (writes_attributes _ level)).comp (writes_body hbody _ level)) _ _
  case constructorDeclaration =>
    obtain ⟨-, -, -, -, hbody, -⟩ := h
    exact ((hbefore.comp (writes_attributes _ level)).comp (writes_body hbody _ level)) _ _
  case propertyDeclaration =>
    obtain ⟨-, -, -, -, haccessors, -⟩ := h
    exact ((hbefore.comp (writes_attributes _ level)).comp (haccessors.behind _ level)) _ _
  case accessorDeclaration =>
    obtain ⟨-, -, hbody, -⟩ := h
    exact (hbefore.comp (writes_body hbody _ level)) _ _
  case fieldDeclaration =>
    exact ((hbefore.comp (writes_attributes _ level)).comp (writes_line level _)) _ _

theorem writes_ifLines {condition statement : Node} {otherwise : Option Node}
    (hstatement : Follows statement) (hotherwise : ∀ node ∈ otherwise, Follows node)
    (lead : String) (level : Nat) :
    Writes
      (fun sheet =>
        let sheet := sheet.line level (lead ++ "if (" ++ (look condition).inline ++ ")")
        let sheet := (writer statement).embedded level sheet
        match otherwise.map writer with
        | some clause => clause.clause level sheet
        | none => sheet)
      (ifLines level (lead ++ "if (") (look condition) (look statement) (otherwise.map look)) := by
  have hheader := (writes_line level (lead ++ "if (" ++ (look condition).inline ++ ")")).comp
    (writes_embedded hstatement level)
  cases otherwise with
  | none => exact hheader.comp .nothing
  | some clause => exact hheader.comp ((hotherwise clause rfl).clause level)

/-- Behind an `else`, an `if` goes on in its line. -/
theorem writes_chainOf {slots : Slots Kind.ifStatement.fields} (h : SlotsFollow slots)
    (level : Nat) (other : Sheet → Sheet) :
    Writes (Sheet.chainOf "else " level other .ifStatement (slotWriters slots))
      (chainedOf level .ifStatement (slotLooks slots)) := by
  intro options out
  cases_type* Slots Slot
  obtain ⟨-, -, -, -, hstatement, hotherwise, -⟩ := h
  simp only [slotWriters, slotWriter_node, slotWriter_optNode, slotLooks, slotLook_node,
    slotLook_optNode, Sheet.chainOf, chainedOf, inline_writer]
  exact writes_ifLines hstatement hotherwise "else " level options out

theorem writes_return (value : Option Node) (level : Nat) :
    Writes
      (fun sheet =>
        match value.map writer with
        | some value => sheet.line level ("return " ++ value.inline ++ ";")
        | none => sheet.line level "return;")
      [⟨level, "return" ++ optText " " (value.map look) ++ ";"⟩] := by
  cases value with
  | none => exact writes_line level "return;"
  | some node =>
    have htext : "return" ++ optText " " (some (look node)) ++ ";" =
        "return " ++ (writer node).inline ++ ";" := by
      rw [inline_writer, optText, ← String.append_assoc]
      rfl
    rw [Option.map_some, Option.map_some, htext]
    exact writes_line level _

theorem writes_statementOf (h : SlotsFollow slots) (inline : String) (level : Nat) :
    Writes
      (Sheet.statementOf inline level (Sheet.chainOf "" level id kind (slotWriters slots)) kind
        (slotWriters slots))
      (statementOf level inline kind (slotLooks slots)) := by
  intro options out
  cases kind
  all_goals try exact writes_line level inline options out
  all_goals
    cases_type* Slots Slot
    simp only [slotWriters, slotWriter_node, slotWriter_optNode, slotWriter_token,
      slotWriter_nodes, slotLooks, slotLook_node, slotLook_optNode, slotLook_token,
      slotLook_nodes, Sheet.statementOf, statementOf, inline_writer, text_tokenLook]
  case block =>
    obtain ⟨-, hstatements, -, -⟩ := h
    exact (((writes_line level _).comp (writes_items hstatements _)).comp
      (writes_line level _)) _ _
  case localDeclarationStatement | expressionStatement => exact writes_line level _ _ _
  case returnStatement => exact writes_return _ level _ _
  case ifStatement =>
    obtain ⟨-, -, -, -, hstatement, hotherwise, -⟩ := h
    simp only [Sheet.chainOf, inline_writer]
    exact writes_ifLines hstatement hotherwise "" level _ _
  case whileStatement =>
    obtain ⟨-, -, -, -, hstatement, -⟩ := h
    exact ((writes_line level _).comp (writes_embedded hstatement level)) _ _
  case forEachStatement =>
    obtain ⟨-, -, -, -, -, -, -, hstatement, -⟩ := h
    exact ((writes_line level _).comp (writes_embedded hstatement level)) _ _

theorem writes_clauseOf (h : SlotsFollow slots) (level : Nat) :
    Writes (Sheet.clauseOf level kind (slotWriters slots))
      (clauseOf level kind (slotLooks slots)) := by
  cases kind
  all_goals try exact .nothing
  case elseClause =>
    intro options out
    cases_type* Slots Slot
    obtain ⟨-, hstatement, -⟩ := h
    simp only [slotWriters, slotWriter_node, slotLooks, slotLook_node, Sheet.clauseOf, clauseOf,
      node_writer, kind_look]
    split
    · next hkind => exact hstatement.chain hkind level _ _
    · exact ((writes_line level "else").comp (writes_embedded hstatement level)) _ _

theorem writes_behindOf (h : SlotsFollow slots) (inline header : String) (level : Nat) :
    Writes (Sheet.behindOf inline header level kind (slotWriters slots))
      (behindOf level inline header kind (slotLooks slots)) := by
  intro options out
  cases kind
  all_goals try exact writes_line level (header ++ " " ++ inline) options out
  case accessorList =>
    cases_type* Slots Slot
    next accessors _ =>
    obtain ⟨-, haccessors, -⟩ := h
    simp only [slotWriters, slotWriter_nodes, slotLooks, slotLook_nodes, Sheet.behindOf, behindOf,
      map_look_writers]
    cases autoAccessors? (looks accessors) with
    | some texts => exact writes_line level _ _ _
    | none => exact writes_braced (writes_items haccessors _) header level _ _

end Places

/-! ### Trees -/

theorem slotFollows {shape : Shape} (slot : Slot shape)
    (h : ∀ node ∈ slot.elements.filterMap Element.node?, Follows node) : SlotFollows slot := by
  cases slot with
  | node child => exact h child (by simp)
  | optNode child => exact fun node hnode => h node (by simp [Option.mem_def.1 hnode])
  | nodes children => exact fun node hnode => h node (by simp [hnode])
  | separated children => exact fun node hnode => h node (by simp [hnode])
  | token | optToken | tokens => trivial

theorem slotsFollow {fields : List Field} (slots : Slots fields)
    (h : ∀ node ∈ slots.elements.filterMap Element.node?, Follows node) : SlotsFollow slots := by
  cases slots with
  | nil => trivial
  | cons slot rest =>
    rw [Slots.elements, List.filterMap_append] at h
    exact ⟨slotFollows slot fun node hnode => h node (List.mem_append_left _ hnode),
      slotsFollow rest fun node hnode => h node (List.mem_append_right _ hnode)⟩

/-- What a node writes is decided by what its children write. -/
theorem follows (node : Node) : Follows node := by
  induction node using Node.childInduction with
  | step node ih =>
    cases node with
    | mk info kind slots =>
      have hslots : SlotsFollow slots := slotsFollow slots ih
      have hstatement : ∀ level, Writes ((writer (.mk info kind slots)).statement level)
          ((look (.mk info kind slots)).statement level) := fun level =>
        (writes_leadingComments _ level).comp (writes_statementOf hslots _ level)
      refine ⟨?_, hstatement, ?_, writes_clauseOf hslots, ?_⟩
      · intro level
        exact writes_itemOf hslots _ level (hstatement level)
      · rintro (rfl : kind = .ifStatement) level
        exact writes_chainOf hslots level _
      · exact fun header level => writes_behindOf hslots _ header level

/-- The text of a tree is the text of its lines. -/
theorem format_eq_render (node : Node) (options : Options) :
    format node options = render options (lines node) := by
  rw [format, Sheet.empty, (follows node).item 0 options ""]
  exact String.empty_append

end SourceTree.Layout
