import SourceTree.Layout.Format
import SourceTree.Proofs.View

/-!
Where nodes stand in a layout. A node has lines of its own only in some places, and only there
are the comments in front of its first token kept. `keptTokens` lists the tokens whose comments
are kept, in document order; every node that stands in such a place has its first token among
them.
-/
namespace SourceTree.Layout

/-- Where a node stands when a tree is laid out. -/
inductive Post where
  /-- Among declarations or statements. -/
  | item
  /-- As the body of a declaration or the statement of another statement. -/
  | statement
  /-- Directly behind an `else`. -/
  | branch
  /-- At the end of an `if` statement. -/
  | clause
  /-- Behind the header of a property. -/
  | behind
  /-- Among the members of an enumeration. -/
  | entry
  /-- Behind everything else; only a token can stand there. -/
  | last
  /-- Within a line. -/
  | within
  deriving DecidableEq, Repr

/-! ### Places -/

/-- The fields of a statement whose nodes do not stand within a line. -/
def statementPosts : Kind → List (String × Post)
  | .block => [("statements", .item)]
  | .ifStatement => [("statement", .statement), ("else_clause", .clause)]
  | .whileStatement | .forEachStatement => [("statement", .statement)]
  | _ => []

/-- The same for a declaration. -/
def declarationPosts : Kind → List (String × Post)
  | .compilationUnit => [("usings", .item), ("members", .item), ("end_of_file", .last)]
  | .namespaceDeclaration => [("usings", .item), ("members", .item)]
  | .classDeclaration | .interfaceDeclaration => [("members", .item)]
  | .enumDeclaration => [("members", .entry)]
  | .methodDeclaration | .constructorDeclaration | .accessorDeclaration => [("body", .statement)]
  | .propertyDeclaration => [("accessor_list", .behind)]
  | _ => []

/-- An accessor without a body. -/
def isAutoAccessor (node : Node) : Bool :=
  node.kind == .accessorDeclaration &&
    ((node.get? ⟨"body", .optNode⟩).bind Slot.toNode?).isNone

/-- The fields of a node that stands in some place. A declaration is written within a line where a
statement should stand, and so are accessors that all lack a body. -/
def Post.fields (post : Post) (node : Node) : List (String × Post) :=
  match post with
  | .item => declarationPosts node.kind ++ statementPosts node.kind
  | .statement | .branch => statementPosts node.kind
  | .clause => if node.kind = .elseClause then [("statement", .branch)] else []
  | .behind =>
    if node.kind = .accessorList ∧ node.children.all isAutoAccessor = false then
      [("accessors", .item)]
    else []
  | .entry | .last | .within => []

/-- Where the nodes of a field stand. -/
def Post.below (post : Post) (node : Node) (field : String) : Post :=
  ((post.fields node).lookup field).getD .within

/-- The comments in front of a node are kept. Those of a compilation unit belong to what is in
it, and an `if` directly behind an `else` loses them. -/
def Post.opens : Post → Kind → Bool
  | .item, kind => kind != .compilationUnit
  | .branch, kind => kind != .ifStatement
  | .statement, _ | .entry, _ => true
  | .clause, _ | .behind, _ | .last, _ | .within, _ => false

/-! ### Tokens whose comments are kept -/

/-- The first token of a node, if the comments in front of it are kept. -/
def front (post : Post) (node : Node) : List Token :=
  if post.opens node.kind then node.firstToken?.toList else []

mutual

/-- The tokens of a node whose comments are kept, in document order. -/
def keptTokens (post : Post) : Node → List Token
  | .mk info kind slots =>
    front post (.mk info kind slots) ++ keptInSlots (post.below (.mk info kind slots)) slots

def keptInSlots (post : String → Post) : {fields : List Field} → Slots fields → List Token
  | _, .nil => []
  | field :: _, .cons slot rest => keptInSlot (post field.name) slot ++ keptInSlots post rest

def keptInSlot (post : Post) : {shape : Shape} → Slot shape → List Token
  | _, .node child => keptTokens post child
  | _, .optNode none => []
  | _, .optNode (some child) => keptTokens post child
  | _, .token child => if post = .last then [child] else []
  | _, .optToken _ => []
  | _, .nodes children => keptAmong post children
  | _, .tokens _ => []
  | _, .separated ⟨elements, _⟩ => keptAmong post elements

def keptAmong (post : Post) : List Node → List Token
  | [] => []
  | node :: rest => keptTokens post node ++ keptAmong post rest

end

theorem keptAmong_eq_flatMap (post : Post) (nodes : List Node) :
    keptAmong post nodes = nodes.flatMap (keptTokens post) := by
  induction nodes with
  | nil => rfl
  | cons node nodes ih => rw [keptAmong, ih, List.flatMap_cons]

theorem below_of_fields {post : Post} {node : Node} (h : post.fields node = []) :
    post.below node = fun _ => .within := by
  funext field
  rw [Post.below, h]
  rfl

mutual

/-- Nothing is kept within a line. -/
theorem keptTokens_within : (node : Node) → keptTokens .within node = []
  | .mk info kind slots => by
    rw [keptTokens, below_of_fields rfl, keptInSlots_within slots]
    rfl

theorem keptInSlots_within : {fields : List Field} → (slots : Slots fields) →
    keptInSlots (fun _ => .within) slots = []
  | _, .nil => rfl
  | _, .cons slot rest => by
    rw [keptInSlots, keptInSlot_within slot, keptInSlots_within rest, List.nil_append]

theorem keptInSlot_within : {shape : Shape} → (slot : Slot shape) → keptInSlot .within slot = []
  | _, .node child => keptTokens_within child
  | _, .optNode none => rfl
  | _, .optNode (some child) => keptTokens_within child
  | _, .token _ => rfl
  | _, .optToken _ => rfl
  | _, .nodes children => keptAmong_within children
  | _, .tokens _ => rfl
  | _, .separated ⟨elements, _⟩ => keptAmong_within elements

theorem keptAmong_within : (nodes : List Node) → keptAmong .within nodes = []
  | [] => rfl
  | node :: rest => by
    rw [keptAmong, keptTokens_within node, keptAmong_within rest, List.nil_append]

end

/-! ### Document order -/

/-- Before anything that does not stand within a line there is a token that has to be there. -/
def leads (post : String → Post) : List Field → Bool
  | [] => true
  | field :: rest =>
    decide (post field.name = .within) && (field.shape == .token || leads post rest)

theorem leads_within (fields : List Field) : leads (fun _ => .within) fields = true := by
  induction fields with
  | nil => rfl
  | cons field fields ih => rw [leads, ih, Bool.or_true]; rfl

/-- A node that keeps the comments in front of it has a token of its own before its parts. -/
theorem leads_below {post : Post} {kind : Kind} (h : post.opens kind = true) (info : Info)
    (slots : Slots kind.fields) : leads (post.below (.mk info kind slots)) kind.fields = true := by
  cases post with
  | clause | behind | last | within => cases h
  | entry =>
    rw [below_of_fields rfl]
    exact leads_within _
  | statement | branch => cases kind <;> rfl
  | item =>
    cases kind with
    | compilationUnit => cases h
    | _ => rfl

theorem tail_sublist_tail_append (as bs : List Token) : bs.tail.Sublist (as ++ bs).tail := by
  cases as with
  | nil => exact .refl _
  | cons a as => exact (List.tail_sublist bs).trans (List.sublist_append_right as bs)

mutual

/-- The tokens whose comments are kept are tokens of the tree, in the order of the tree. -/
theorem keptTokens_sublist : (post : Post) → (node : Node) →
    (keptTokens post node).Sublist node.tokens
  | post, .mk info kind slots => by
    have hslots := keptInSlots_sublist (post.below (.mk info kind slots)) slots
    rw [keptTokens, front]
    by_cases h : post.opens (Node.mk info kind slots).kind = true
    · -- the first token comes before all others that are kept
      have htail := hslots.2 (leads_below h info slots)
      rw [if_pos h, Node.firstToken?_eq, Node.tokens]
      cases htokens : slots.tokens with
      | nil =>
        rw [htokens] at htail
        exact htail
      | cons first rest =>
        rw [htokens] at htail
        exact htail.cons_cons first
    · rw [if_neg h]
      exact hslots.1

theorem keptInSlots_sublist : (post : String → Post) → {fields : List Field} →
    (slots : Slots fields) → (keptInSlots post slots).Sublist slots.tokens ∧
      (leads post fields = true → (keptInSlots post slots).Sublist slots.tokens.tail)
  | _, _, .nil => ⟨.slnil, fun _ => .slnil⟩
  | post, field :: _, .cons slot rest => by
    have hslot := keptInSlot_sublist (post field.name) slot
    obtain ⟨hrest, htail⟩ := keptInSlots_sublist post rest
    rw [keptInSlots, Slots.tokens]
    refine ⟨hslot.append hrest, fun hleads => ?_⟩
    rw [leads, Bool.and_eq_true, Bool.or_eq_true, decide_eq_true_eq] at hleads
    rw [hleads.1, keptInSlot_within, List.nil_append]
    rcases hleads.2 with hshape | hleads
    · obtain ⟨name, shape⟩ := field
      obtain rfl : shape = .token := eq_of_beq hshape
      cases slot with
      | token child => exact hrest
    · exact (htail hleads).trans (tail_sublist_tail_append _ _)

theorem keptInSlot_sublist : (post : Post) → {shape : Shape} → (slot : Slot shape) →
    (keptInSlot post slot).Sublist slot.tokensIn
  | post, _, .node child => keptTokens_sublist post child
  | _, _, .optNode none => .slnil
  | post, _, .optNode (some child) => keptTokens_sublist post child
  | post, _, .token child => by
    rw [keptInSlot]
    split
    · exact .refl _
    · exact List.nil_sublist _
  | _, _, .optToken child => List.nil_sublist _
  | post, _, .nodes children => keptAmong_sublist post children
  | _, _, .tokens children => List.nil_sublist _
  | post, _, .separated ⟨elements, separators⟩ => keptAmong_sublist_between post elements separators

theorem keptAmong_sublist : (post : Post) → (nodes : List Node) →
    (keptAmong post nodes).Sublist (tokensAll nodes)
  | _, [] => .slnil
  | post, node :: rest => (keptTokens_sublist post node).append (keptAmong_sublist post rest)

theorem keptAmong_sublist_between : (post : Post) → (elements : List Node) →
    (separators : List Token) →
    (keptAmong post elements).Sublist (tokensBetween elements separators)
  | _, [], _ => .slnil
  | post, element :: rest, [] =>
    (keptTokens_sublist post element).append (keptAmong_sublist_between post rest [])
  | post, element :: rest, separator :: separators =>
    (keptTokens_sublist post element).append
      ((keptAmong_sublist_between post rest separators).cons separator)

end

/-! ### Nodes that stand somewhere -/

/-- The nodes that the field of a given name holds. -/
def nodesOf (name : String) : {fields : List Field} → Slots fields → List Node
  | _, .nil => []
  | field :: _, .cons slot rest =>
    (if field.name = name then slot.elements.filterMap Element.node? else []) ++ nodesOf name rest

/-- A node of a tree stands in some place when the tree is laid out. -/
inductive Stands (root : Node) : Post → Node → Prop where
  | root : Stands root .item root
  | child {post : Post} {parent child : Node} {name : String} (h : Stands root post parent)
      (hchild : child ∈ nodesOf name parent.slots) : Stands root (post.below parent name) child

theorem mem_nodesOf_cons {name : String} {field : Field} {fields : List Field}
    {slot : Slot field.shape} {rest : Slots fields} {node : Node} :
    node ∈ nodesOf name (.cons slot rest) ↔
      field.name = name ∧ node ∈ slot.elements.filterMap Element.node? ∨
        node ∈ nodesOf name rest := by
  rw [nodesOf, List.mem_append]
  by_cases hname : field.name = name
  · simp [hname]
  · simp [hname]

theorem keptTokens_subset_among {post : Post} {nodes : List Node} {node : Node}
    (h : node ∈ nodes) : keptTokens post node ⊆ keptAmong post nodes := by
  rw [keptAmong_eq_flatMap]
  intro token htoken
  exact List.mem_flatMap.2 ⟨node, h, htoken⟩

theorem keptTokens_subset_slot {post : Post} {shape : Shape} {slot : Slot shape} {node : Node}
    (h : node ∈ slot.elements.filterMap Element.node?) :
    keptTokens post node ⊆ keptInSlot post slot := by
  cases slot with
  | node child =>
    obtain rfl : node = child := by simpa using h
    exact List.Subset.refl _
  | optNode child =>
    obtain rfl : child = some node := by simpa using h
    exact List.Subset.refl _
  | token | optToken | tokens => simp at h
  | nodes children => exact keptTokens_subset_among (by simpa using h)
  | separated children => exact keptTokens_subset_among (by simpa using h)

theorem keptTokens_subset_slots {post : String → Post} {name : String} {fields : List Field}
    {slots : Slots fields} {node : Node} (h : node ∈ nodesOf name slots) :
    keptTokens (post name) node ⊆ keptInSlots post slots := by
  cases slots with
  | nil => cases h
  | @cons field _ slot rest =>
    rcases mem_nodesOf_cons.mp h with ⟨rfl, hslot⟩ | hrest
    · exact List.subset_append_of_subset_left _ (keptTokens_subset_slot hslot)
    · exact List.subset_append_of_subset_right _ (keptTokens_subset_slots hrest)

theorem Stands.subset {root node : Node} {post : Post} (h : Stands root post node) :
    keptTokens post node ⊆ keptTokens .item root := by
  induction h with
  | root => exact List.Subset.refl _
  | @child post parent child name _ hchild ih =>
    refine List.Subset.trans ?_ ih
    cases parent with
    | mk info kind slots =>
      exact List.subset_append_of_subset_right _ (keptTokens_subset_slots hchild)

/-- The first token of a node keeps its comments wherever the node has lines of its own. -/
theorem Stands.mem {root node : Node} {post : Post} (h : Stands root post node)
    (hopens : post.opens node.kind = true) {token : Token}
    (htoken : node.firstToken? = some token) : token ∈ keptTokens .item root := by
  apply h.subset
  cases node with
  | mk info kind slots =>
    rw [keptTokens, front, if_pos hopens, htoken]
    exact List.mem_append_left _ List.mem_cons_self

end SourceTree.Layout
