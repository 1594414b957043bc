import SourceTree.Proofs.Layout.Comments

/-!
Blocks of lines. Where a node has lines of its own, they stand side by side among the lines of the
whole tree: what a layout adds goes in front of the lines of a part, behind them or between those
of two parts, never into them.
-/
namespace SourceTree.Layout

/-- The lines of a node that stands in some place. -/
inductive Block (node : Node) : Post → List Line → Prop where
  | item (level : Nat) : Block node .item ((look node).item level)
  | statement (level : Nat) : Block node .statement ((look node).statement level)
  | branch (level : Nat) (h : node.kind ≠ .ifStatement) :
      Block node .branch ((look node).statement level)
  | chained (level : Nat) (h : node.kind = .ifStatement) :
      Block node .branch ((look node).chained level)
  | clause (level : Nat) : Block node .clause ((look node).clause level)
  | behind (header : String) (level : Nat) : Block node .behind ((look node).behind header level)
  | entry (level : Nat) {comma : String} (h : comma = "," ∨ comma = "") :
      Block node .entry ((look node).before level ++ [⟨level, (look node).inline ++ comma⟩])
  | last : Block node .last []
  | within : Block node .within []

/-- The lines of a node are side by side among others. -/
def Occurs (all : List Line) (post : Post) (node : Node) : Prop :=
  ∃ block, Block node post block ∧ block <:+: all

theorem Occurs.mono {all more : List Line} {post : Post} {node : Node} (h : Occurs all post node)
    (hmore : all <:+: more) : Occurs more post node := by
  obtain ⟨block, hblock, hall⟩ := h
  exact ⟨block, hblock, hall.trans hmore⟩

theorem Occurs.append_left {all : List Line} {post : Post} {node : Node} (h : Occurs all post node)
    (front : List Line) : Occurs (front ++ all) post node :=
  h.mono (List.suffix_append front all).isInfix

theorem Occurs.append_right {all : List Line} {post : Post} {node : Node} (h : Occurs all post node)
    (back : List Line) : Occurs (all ++ back) post node :=
  h.mono (List.prefix_append all back).isInfix

theorem Occurs.cons {all : List Line} {post : Post} {node : Node} (h : Occurs all post node)
    (line : Line) : Occurs (line :: all) post node :=
  h.append_left [line]

theorem occurs_within (all : List Line) (node : Node) : Occurs all .within node :=
  ⟨[], .within, List.nil_infix⟩

theorem Occurs.braced {all : List Line} {post : Post} {node : Node} (h : Occurs all post node)
    (level : Nat) (header : String) : Occurs (braced level header all) post node :=
  ((h.append_right _).cons _).cons _

/-! ### Several nodes -/

section Nodes

variable {nodes : List Node} {node : Node}

theorem occurs_items (h : node ∈ nodes) (level : Nat) :
    Occurs (itemLines (looks nodes) level) .item node := by
  refine ⟨_, .item level, List.infix_of_mem_flatten ?_⟩
  rw [looks_eq_map, List.map_map]
  exact List.mem_map.mpr ⟨node, h, rfl⟩

theorem occurs_members (h : node ∈ nodes) (level : Nat) :
    Occurs (memberLines (looks nodes) level) .item node := by
  rw [memberLines, looks_eq_map, List.map_map]
  induction nodes with
  | nil => cases h
  | cons first rest ih =>
    cases rest with
    | nil =>
      obtain rfl : node = first := List.mem_singleton.mp h
      rw [List.map_cons, List.map_nil, List.intercalate_singleton]
      exact ⟨_, .item level, List.infix_rfl⟩
    | cons next rest =>
      rw [List.map_cons, List.map_cons, List.intercalate_cons_cons]
      rcases List.mem_cons.mp h with rfl | h
      · exact Occurs.append_right (.append_right ⟨_, .item level, List.infix_rfl⟩ _) _
      · exact (ih h).append_left _

theorem occurs_unit {usings members : List Node} (h : node ∈ usings ∨ node ∈ members)
    (level : Nat) : Occurs (unitLines (looks usings) (looks members) level) .item node := by
  rcases h with h | h
  · exact ((occurs_items h level).append_right _).append_right _
  · exact (occurs_members h level).append_left _

theorem occurs_entries (h : node ∈ nodes) (trailing : Bool) (level : Nat) :
    Occurs (enumLines trailing level (looks nodes)) .entry node := by
  induction nodes with
  | nil => cases h
  | cons first rest ih =>
    cases rest with
    | nil =>
      obtain rfl : node = first := List.mem_singleton.mp h
      have hcomma : (if trailing then "," else "") = "," ∨ (if trailing then "," else "") = "" := by
        cases trailing with
        | true => exact .inl rfl
        | false => exact .inr rfl
      exact ⟨_, .entry level hcomma, List.infix_rfl⟩
    | cons next rest =>
      rcases List.mem_cons.mp h with rfl | h
      · refine ⟨_, .entry level (.inl rfl), [], enumLines trailing level (looks (next :: rest)), ?_⟩
        simp [looks, enumLines]
      · exact ((ih h).cons _).append_left _

theorem occurs_embedded (node : Node) (level : Nat) :
    Occurs (embedded (look node) level) .statement node :=
  ⟨_, .statement _, List.infix_rfl⟩

theorem occurs_body {body : Option Node} (h : node ∈ body) (level : Nat) (header : String) :
    Occurs (bodyLines level header (body.map look)) .statement node := by
  cases h
  exact (occurs_embedded node level).cons _

end Nodes

/-! ### Fields -/

/-- What holds of the nodes that the fields hold, given where the nodes of each field stand. -/
def EachBy (P : Post → Node → Prop) : List Post → {fields : List Field} → Slots fields → Prop
  | post :: posts, _, .cons slot rest => InSlot (P post) slot ∧ EachBy P posts rest
  | _, _, _ => True

theorem InSlot.of_mem {P : Node → Prop} {shape : Shape} {slot : Slot shape} (h : InSlot P slot)
    {node : Node} (hnode : node ∈ slot.elements.filterMap Element.node?) : P node := by
  cases slot with
  | node child =>
    obtain rfl : node = child := by simpa using hnode
    exact h
  | optNode | nodes | separated => exact h node (by simpa using hnode)
  | token | optToken | tokens => simp at hnode

/-- What is written within a line has no lines to look for. -/
theorem inSlot_within (all : List Line) {shape : Shape} (slot : Slot shape) :
    InSlot (Occurs all .within) slot := by
  cases slot with
  | node child => exact occurs_within all child
  | optNode | nodes | separated => exact fun node _ => occurs_within all node
  | token | optToken | tokens => trivial

theorem EachBy.of_mem {P : Post → Node → Prop} {post : String → Post} {fields : List Field}
    {slots : Slots fields} (h : EachBy P (fields.map fun field => post field.name) slots)
    {name : String} {node : Node} (hnode : node ∈ nodesOf name slots) : P (post name) node := by
  cases slots with
  | nil => cases hnode
  | @cons field _ slot rest =>
    obtain ⟨hslot, hrest⟩ := h
    rcases mem_nodesOf_cons.mp hnode with ⟨rfl, hmem⟩ | hmem
    · exact hslot.of_mem hmem
    · exact EachBy.of_mem hrest hmem

/-- A node of which every part is written within a line. -/
theorem eachBy_of_fields {post : Post} {node : Node} (h : post.fields node = []) (all : List Line)
    {fields : List Field} (slots : Slots fields) :
    EachBy (Occurs all) (fields.map fun field => post.below node field.name) slots := by
  rw [below_of_fields h]
  induction fields with
  | nil => exact trivial
  | cons field fields ih =>
    cases slots with
    | cons slot rest => exact ⟨inSlot_within all slot, ih rest⟩

/-! ### Kind by kind -/

/-- An `if` statement from its first word on. -/
theorem occurs_if (condition statement : Node) (otherwise : Option Node) (opening : String)
    (level : Nat) :
    Occurs (ifLines level opening (look condition) (look statement) (otherwise.map look)) .statement
        statement ∧
      ∀ clause ∈ otherwise,
        Occurs (ifLines level opening (look condition) (look statement) (otherwise.map look))
          .clause clause := by
  refine ⟨((occurs_embedded statement level).cons _).append_right _, fun clause hclause => ?_⟩
  cases hclause
  exact Occurs.append_left ⟨_, .clause level, List.infix_rfl⟩ _

/-- What stands behind an `else`: another `if`, or any other statement. -/
theorem occurs_branch (node : Node) (level : Nat) :
    Occurs (if (look node).kind = .ifStatement then (look node).chained level
      else ⟨level, "else"⟩ :: embedded (look node) level) .branch node := by
  rw [kind_look]
  by_cases hkind : node.kind = .ifStatement
  · rw [if_pos hkind]
    exact ⟨_, .chained level hkind, List.infix_rfl⟩
  · rw [if_neg hkind]
    exact Occurs.cons ⟨_, .branch _ hkind, List.infix_rfl⟩ _

section Kinds

variable {kind : Kind}

theorem eachBy_statementOf (info : Info) (slots : Slots kind.fields) (level : Nat) (text : String) :
    EachBy (Occurs (statementOf level text kind (slotLooks slots)))
      (Post.all .statement (.mk info kind slots)) slots := by
  cases kind with
  | block =>
    cases_type* Slots Slot
    refine ⟨inSlot_within _ _, fun node hnode => ?_, inSlot_within _ _, trivial⟩
    exact ((occurs_items hnode _).cons _).append_right _
  | ifStatement =>
    cases_type* Slots Slot
    rename_i condition _ statement otherwise
    obtain ⟨hstatement, hotherwise⟩ := occurs_if condition statement otherwise "if (" level
    simp only [slotLooks, slotLook_optNode]
    exact ⟨inSlot_within _ _, inSlot_within _ _, inSlot_within _ _, inSlot_within _ _, hstatement,
      hotherwise, trivial⟩
  | whileStatement =>
    cases_type* Slots Slot
    exact ⟨inSlot_within _ _, inSlot_within _ _, inSlot_within _ _, inSlot_within _ _,
      (occurs_embedded _ level).cons _, trivial⟩
  | forEachStatement =>
    cases_type* Slots Slot
    exact ⟨inSlot_within _ _, inSlot_within _ _, inSlot_within _ _, inSlot_within _ _,
      inSlot_within _ _, inSlot_within _ _, inSlot_within _ _, (occurs_embedded _ level).cons _,
      trivial⟩
  | _ => exact eachBy_of_fields rfl _ slots

/-- Behind an `else` an `if` has its parts where it has them elsewhere. -/
theorem eachBy_chainedOf (info : Info) (slots : Slots kind.fields) (hkind : kind = .ifStatement)
    (level : Nat) :
    EachBy (Occurs (chainedOf level kind (slotLooks slots)))
      (Post.all .branch (.mk info kind slots)) slots := by
  subst hkind
  cases_type* Slots Slot
  rename_i condition _ statement otherwise
  obtain ⟨hstatement, hotherwise⟩ := occurs_if condition statement otherwise "else if (" level
  simp only [slotLooks, slotLook_optNode]
  exact ⟨inSlot_within _ _, inSlot_within _ _, inSlot_within _ _, inSlot_within _ _, hstatement,
    hotherwise, trivial⟩

theorem eachBy_clauseOf (info : Info) (slots : Slots kind.fields) (level : Nat) :
    EachBy (Occurs (clauseOf level kind (slotLooks slots)))
      (Post.all .clause (.mk info kind slots)) slots := by
  by_cases hkind : kind = .elseClause
  · subst hkind
    cases_type* Slots Slot
    exact ⟨inSlot_within _ _, occurs_branch _ level, trivial⟩
  · have hfields : Post.fields .clause (.mk info kind slots) = [] := if_neg hkind
    exact eachBy_of_fields hfields _ slots

theorem eachBy_behindOf (info : Info) (slots : Slots kind.fields) (level : Nat)
    (text header : String) :
    EachBy (Occurs (behindOf level text header kind (slotLooks slots)))
      (Post.all .behind (.mk info kind slots)) slots := by
  by_cases hfields : Post.fields .behind (.mk info kind slots) = []
  · exact eachBy_of_fields hfields _ slots
  · -- only accessors of which one has a body do not stand within the line of the property
    have hall : kind = .accessorList ∧
        (Node.mk info kind slots).children.all isAutoAccessor = false := by
      by_contra hnot
      exact hfields (if_neg hnot)
    obtain ⟨rfl, hauto⟩ := hall
    have hposts : Post.all .behind (.mk info .accessorList slots) = [.within, .item, .within] := by
      simp only [Post.all, Post.below, Post.fields, hauto]
      rfl
    rw [hposts]
    cases_type* Slots Slot
    rename_i opening accessors closing
    rw [children_accessorList, ← isSome_autoAccessors?, Option.isSome_eq_false_iff,
      Option.isNone_iff_eq_none] at hauto
    simp only [slotLooks, slotLook_nodes, behindOf, hauto]
    refine ⟨inSlot_within _ _, fun node hnode => ?_, inSlot_within _ _, trivial⟩
    exact (occurs_items hnode _).braced _ _

theorem eachBy_itemOf (info : Info) (slots : Slots kind.fields) (hplace : place kind = .item)
    (level : Nat) (before other : List Line) :
    EachBy (Occurs (itemOf level before other kind (slotLooks slots)))
      (Post.all .item (.mk info kind slots)) slots := by
  cases kind with
  | compilationUnit =>
    cases_type* Slots Slot
    refine ⟨fun node hnode => ?_, fun node hnode => ?_, trivial, trivial⟩
    · exact (occurs_unit (.inl hnode) level).append_right _
    · exact (occurs_unit (.inr hnode) level).append_right _
  | namespaceDeclaration =>
    cases_type* Slots Slot
    refine ⟨inSlot_within _ _, inSlot_within _ _, inSlot_within _ _, fun node hnode => ?_,
      fun node hnode => ?_, inSlot_within _ _, trivial⟩
    · exact ((occurs_unit (.inl hnode) _).braced _ _).append_left _
    · exact ((occurs_unit (.inr hnode) _).braced _ _).append_left _
  | classDeclaration | interfaceDeclaration =>
    cases_type* Slots Slot
    simp only [slotLooks, slotLook_optNode]
    refine ⟨inSlot_within _ _, inSlot_within _ _, inSlot_within _ _, inSlot_within _ _,
      inSlot_within _ _, inSlot_within _ _, inSlot_within _ _, fun node hnode => ?_,
      inSlot_within _ _, trivial⟩
    exact ((occurs_members hnode _).braced _ _).append_left _
  | enumDeclaration =>
    cases_type* Slots Slot
    simp only [slotLooks, slotLook_optNode, slotLook_separated]
    refine ⟨inSlot_within _ _, inSlot_within _ _, inSlot_within _ _, inSlot_within _ _,
      inSlot_within _ _, inSlot_within _ _, fun node hnode => ?_, inSlot_within _ _, trivial⟩
    exact ((occurs_entries hnode _ _).braced _ _).append_left _
  | methodDeclaration =>
    cases_type* Slots Slot
    simp only [slotLooks, slotLook_optNode]
    refine ⟨inSlot_within _ _, inSlot_within _ _, inSlot_within _ _, inSlot_within _ _,
      inSlot_within _ _, inSlot_within _ _, fun node hnode => ?_, inSlot_within _ _, trivial⟩
    exact (occurs_body hnode _ _).append_left _
  | constructorDeclaration =>
    cases_type* Slots Slot
    simp only [slotLooks, slotLook_optNode]
    refine ⟨inSlot_within _ _, inSlot_within _ _, inSlot_within _ _, inSlot_within _ _,
      fun node hnode => ?_, inSlot_within _ _, trivial⟩
    exact (occurs_body hnode _ _).append_left _
  | propertyDeclaration =>
    cases_type* Slots Slot
    refine ⟨inSlot_within _ _, inSlot_within _ _, inSlot_within _ _, inSlot_within _ _, ?_,
      trivial⟩
    exact Occurs.append_left ⟨_, .behind _ level, List.infix_rfl⟩ _
  | accessorDeclaration =>
    cases_type* Slots Slot
    simp only [slotLooks, slotLook_optNode]
    refine ⟨inSlot_within _ _, inSlot_within _ _, fun node hnode => ?_, inSlot_within _ _, trivial⟩
    exact (occurs_body hnode _ _).append_left _
  | fieldDeclaration => exact eachBy_of_fields rfl _ slots
  | _ => cases hplace

theorem below_item_of_place (h : place kind ≠ .item) (info : Info) (slots : Slots kind.fields) :
    Post.below .item (.mk info kind slots) = Post.below .statement (.mk info kind slots) := by
  cases kind
  all_goals try exact absurd rfl h
  all_goals rfl

end Kinds

/-! ### Whole trees -/

/-- The lines of a part are among those of the node it is a part of. -/
theorem Block.child {parent child : Node} {post : Post} {block : List Line} {name : String}
    (h : Block parent post block) (hchild : child ∈ nodesOf name parent.slots) :
    Occurs block (post.below parent name) child := by
  obtain ⟨info, kind, slots⟩ := parent
  have hstatement : ∀ level, Occurs ((look (.mk info kind slots)).statement level)
      (Post.below .statement (.mk info kind slots) name) child := fun level =>
    (EachBy.of_mem (eachBy_statementOf info slots level _) hchild).append_left _
  cases h with
  | item level =>
    by_cases hplace : place kind = .item
    · exact EachBy.of_mem (eachBy_itemOf info slots hplace level _ _) hchild
    · rw [below_item_of_place hplace]
      simp only [look, Look.ofSlots, itemOf_of_place hplace]
      exact hstatement level
  | statement level | branch level => exact hstatement level
  | chained level hkind => exact EachBy.of_mem (eachBy_chainedOf info slots hkind level) hchild
  | clause level => exact EachBy.of_mem (eachBy_clauseOf info slots level) hchild
  | behind header level => exact EachBy.of_mem (eachBy_behindOf info slots level _ header) hchild
  | entry | last | within =>
    rw [below_of_fields rfl]
    exact occurs_within _ child

/-- Wherever a node of a tree stands, its lines are among those of the tree. -/
theorem Stands.occurs {root node : Node} {post : Post} (h : Stands root post node) :
    Occurs (lines root) post node := by
  induction h with
  | root => exact ⟨_, .item 0, List.infix_rfl⟩
  | child _ hchild ih =>
    obtain ⟨block, hblock, hall⟩ := ih
    exact (hblock.child hchild).mono hall

end SourceTree.Layout
