import Mathlib.Data.List.Chain
import Mathlib.Data.List.Forall2
import Mathlib.Tactic.CasesM
import SourceTree.Build.Code
import SourceTree.Context
import SourceTree.Proofs.Fields
import SourceTree.Proofs.View

/-!
The queries for the surroundings of a node agree with one path. A node of a tree has an address,
the indices of the children that lead down to it, and the addresses in lexicographic order are
the nodes in pre-order. The path to a node is the way to the first address at which it stands,
and each query is read off the declarations on that way.
-/
namespace SourceTree

/-! ### The search -/

variable {wanted : Node → Bool}

theorem pathIn?_eq_findSome? (nodes : List Node) :
    pathIn? wanted nodes = nodes.findSome? (Node.path? wanted) := by
  induction nodes with
  | nil => rfl
  | cons node rest ih =>
    rw [pathIn?, ih, List.findSome?_cons]
    cases node.path? wanted <;> rfl

theorem Slot.path?_eq {shape : Shape} (slot : Slot shape) :
    slot.path? wanted = (slot.elements.filterMap Element.node?).findSome? (Node.path? wanted) := by
  cases slot with
  | optNode child => cases child <;> simp [Slot.path?]
  | node | token | optToken | tokens => simp [Slot.path?]
  | nodes | separated => simp [Slot.path?, pathIn?_eq_findSome?]

theorem Slots.path?_eq {fields : List Field} (slots : Slots fields) :
    slots.path? wanted =
      (slots.elements.filterMap Element.node?).findSome? (Node.path? wanted) := by
  cases slots with
  | nil => rfl
  | cons slot rest =>
    rw [Slots.path?, Slots.elements, List.filterMap_append, List.findSome?_append, slot.path?_eq,
      Slots.path?_eq rest, Option.orElse_eq_orElse, Option.orElse_eq_or]

theorem Node.path?_eq (node : Node) :
    node.path? wanted =
      if wanted node then some [node]
      else (node.children.findSome? (Node.path? wanted)).map (node :: ·) := by
  cases node with
  | mk info kind slots =>
    rw [Node.path?, slots.path?_eq]
    rfl

theorem Node.path?_isSome_iff (node : Node) :
    (node.path? wanted).isSome = true ↔ ∃ met ∈ node.preorder, wanted met = true := by
  induction node using Node.childInduction with
  | step node ih =>
    rw [node.path?_eq, node.preorder_eq]
    by_cases h : wanted node = true
    · simp [h]
    · simp only [h, Bool.false_eq_true, if_false, Option.isSome_map, List.findSome?_isSome_iff,
        List.mem_cons, List.mem_flatMap, exists_eq_or_imp, false_or]
      constructor
      · rintro ⟨child, hchild, hsome⟩
        obtain ⟨met, hmet, hw⟩ := (ih child hchild).1 hsome
        exact ⟨met, ⟨child, hchild, hmet⟩, hw⟩
      · rintro ⟨met, ⟨child, hchild, hmet⟩, hw⟩
        exact ⟨child, hchild, (ih child hchild).2 ⟨met, hmet, hw⟩⟩

/-! ### Addresses -/

namespace Node

/-- The node at an address, the indices of the children to go down through. -/
def at? (node : Node) : List Nat → Option Node
  | [] => some node
  | index :: address => node.children[index]?.bind fun child => child.at? address

/-- The nodes on the way to an address, both ends included. -/
def way? (node : Node) : List Nat → Option (List Node)
  | [] => some [node]
  | index :: address =>
    node.children[index]?.bind fun child => (child.way? address).map (node :: ·)

theorem mem_preorder_of_at? {node met : Node} {address : List Nat}
    (h : node.at? address = some met) : met ∈ node.preorder := by
  induction address generalizing node with
  | nil =>
    cases h
    rw [met.preorder_eq]
    exact List.mem_cons_self
  | cons index address ih =>
    obtain ⟨child, hchild, h⟩ := Option.bind_eq_some_iff.1 h
    rw [node.preorder_eq]
    exact List.mem_cons_of_mem _
      (List.mem_flatMap.2 ⟨child, List.mem_of_getElem? hchild, ih h⟩)

theorem head?_of_way? {node : Node} {address : List Nat} {path : List Node}
    (h : node.way? address = some path) : path.head? = some node := by
  cases address with
  | nil =>
    cases h
    rfl
  | cons index address =>
    obtain ⟨child, -, h⟩ := Option.bind_eq_some_iff.1 h
    obtain ⟨rest, -, rfl⟩ := Option.map_eq_some_iff.1 h
    rfl

theorem getLast?_of_way? {node : Node} {address : List Nat} {path : List Node}
    (h : node.way? address = some path) : path.getLast? = node.at? address := by
  induction address generalizing node path with
  | nil =>
    cases h
    rfl
  | cons index address ih =>
    obtain ⟨child, hchild, h⟩ := Option.bind_eq_some_iff.1 h
    obtain ⟨rest, hrest, rfl⟩ := Option.map_eq_some_iff.1 h
    have hhead := head?_of_way? hrest
    cases rest with
    | nil => cases hhead
    | cons next rest =>
      rw [List.getLast?_cons_cons, ih hrest, at?, hchild, Option.bind_some]

theorem isChain_of_way? {node : Node} {address : List Nat} {path : List Node}
    (h : node.way? address = some path) :
    path.IsChain fun parent child => child ∈ parent.children := by
  induction address generalizing node path with
  | nil =>
    cases h
    exact List.IsChain.singleton node
  | cons index address ih =>
    obtain ⟨child, hchild, h⟩ := Option.bind_eq_some_iff.1 h
    obtain ⟨rest, hrest, rfl⟩ := Option.map_eq_some_iff.1 h
    have hhead := head?_of_way? hrest
    cases rest with
    | nil => cases hhead
    | cons next rest =>
      cases hhead
      exact List.IsChain.cons_cons (List.mem_of_getElem? hchild) (ih hrest)

/-- No wanted node stands at an address before the one that the search comes to. -/
theorem exists_way?_of_path? {node : Node} {path : List Node} (h : node.path? wanted = some path) :
    ∃ address met, node.way? address = some path ∧ node.at? address = some met ∧
      wanted met = true ∧
      ∀ other found, node.at? other = some found → wanted found = true →
        ¬ List.Lex (· < ·) other address := by
  induction node using Node.childInduction generalizing path with
  | step node ih =>
    rw [node.path?_eq] at h
    by_cases hnode : wanted node = true
    · rw [if_pos hnode] at h
      cases h
      exact ⟨[], node, rfl, rfl, hnode, fun _ _ _ _ => List.not_lex_nil⟩
    · rw [if_neg hnode] at h
      obtain ⟨rest, hrest, rfl⟩ := Option.map_eq_some_iff.1 h
      obtain ⟨before, child, after, hchildren, hchild, hbefore⟩ :=
        List.findSome?_eq_some_iff.1 hrest
      have hmem : child ∈ node.children := by simp [hchildren]
      have hindex : node.children[before.length]? = some child := by simp [hchildren]
      obtain ⟨address, met, hway, hat, hmet, hleast⟩ := ih child hmem hchild
      refine ⟨before.length :: address, met, ?_, ?_, hmet, ?_⟩
      · rw [way?, hindex, Option.bind_some, hway, Option.map_some]
      · rw [at?, hindex, Option.bind_some, hat]
      · intro other found hother hfound
        cases other with
        | nil =>
          cases hother
          exact absurd hfound hnode
        | cons index other =>
          obtain ⟨sibling, hsibling, hother⟩ := Option.bind_eq_some_iff.1 hother
          rw [List.cons_lex_cons_iff]
          rcases Nat.lt_trichotomy index before.length with hlt | rfl | hlt
          · -- The search has been through the children before and found nothing there.
            rw [hchildren, List.getElem?_append_left hlt] at hsibling
            have hnone := hbefore sibling (List.mem_of_getElem? hsibling)
            have hsome : (sibling.path? wanted).isSome = true :=
              sibling.path?_isSome_iff.2 ⟨found, mem_preorder_of_at? hother, hfound⟩
            rw [hnone] at hsome
            cases hsome
          · cases hindex.symm.trans hsibling
            rintro (hlt | ⟨-, hlex⟩)
            · exact Nat.lt_irrefl _ hlt
            · exact hleast other found hother hfound hlex
          · rintro (hgt | ⟨rfl, -⟩)
            · exact Nat.lt_asymm hlt hgt
            · exact Nat.lt_irrefl _ hlt

/-- A path leads from a root to the first place in pre-order at which an object stands. -/
structure FirstPath (root target : Node) (path : List Node) : Prop where
  starts : path.head? = some root
  ends : ∃ last, path.getLast? = some last ∧ last.same target = true
  linked : path.IsChain fun parent child => child ∈ parent.children
  first : ∃ address, root.way? address = some path ∧
    ∀ other found, root.at? other = some found → found.same target = true →
      ¬ List.Lex (· < ·) other address

theorem firstPath_of_pathTo? {root target : Node} {path : List Node}
    (h : root.pathTo? target = some path) : root.FirstPath target path := by
  obtain ⟨address, met, hway, hat, hmet, hleast⟩ := exists_way?_of_path? h
  exact {
    starts := head?_of_way? hway
    ends := ⟨met, (getLast?_of_way? hway).trans hat, hmet⟩
    linked := isChain_of_way? hway
    first := ⟨address, hway, hleast⟩ }

theorem pathTo?_isSome_iff (root target : Node) :
    (root.pathTo? target).isSome = true ↔
      root.same target = true ∨ ∃ node ∈ root.descendants, node.same target = true := by
  rw [pathTo?, path?_isSome_iff, root.preorder_eq_cons]
  simp only [List.mem_cons, exists_eq_or_imp]

end Node

/-! ### Declared names -/

namespace Kind

def types : List Kind := [.classDeclaration, .interfaceDeclaration, .enumDeclaration]

def members : List Kind := [.methodDeclaration, .constructorDeclaration, .propertyDeclaration]

/-- Namespaces, types and members. -/
def declarations : List Kind := .namespaceDeclaration :: (types ++ members)

/-- The kinds whose name is in their field `identifier`. -/
def identified : List Kind :=
  types ++ members ++ [.enumMemberDeclaration, .variableDeclarator, .parameter, .typeParameter]

theorem isTypeDeclaration_eq (kind : Kind) : kind.isTypeDeclaration = decide (kind ∈ types) := by
  cases kind <;> decide

theorem isMember_eq (kind : Kind) : kind.isMember = decide (kind ∈ members) := by
  cases kind <;> decide

theorem isDeclaration_eq (kind : Kind) : kind.isDeclaration = decide (kind ∈ declarations) := by
  cases kind <;> decide

theorem declaresIdentifier_eq (kind : Kind) :
    kind.declaresIdentifier = decide (kind ∈ identified) := by
  cases kind <;> decide

theorem identifier_mem_fields {kind : Kind} (h : kind ∈ identified) :
    ⟨"identifier", .token⟩ ∈ kind.fields := by
  revert h
  cases kind <;> decide

theorem mem_named_of_mem_declarations {kind : Kind} (h : kind ∈ declarations) :
    kind ∈ .namespaceDeclaration :: identified := by
  revert h
  cases kind <;> decide

end Kind

namespace Node

/-- The text of a name. A qualified name has a dot between its two sides, and any other node is
read as its tokens without any space. -/
inductive Dotted : Node → String → Prop where
  | qualified {node left right : Node} {first second : String}
      (kind : node.kind = .qualifiedName)
      (left_eq : node.get? ⟨"left", .node⟩ = some (.node left))
      (right_eq : node.get? ⟨"right", .node⟩ = some (.node right))
      (before : left.Dotted first) (behind : right.Dotted second) :
      Dotted node (first ++ "." ++ second)
  | other {node : Node} (kind : node.kind ≠ .qualifiedName) :
      Dotted node (String.join (node.tokens.map Token.text))

/-- The name that a node declares: the text of the name of a namespace, else the text of the
identifier, where the kind has one that names it. -/
inductive Names : Node → String → Prop where
  | ofNamespace {node name : Node} {text : String} (kind : node.kind = .namespaceDeclaration)
      (name_eq : node.get? ⟨"name", .node⟩ = some (.node name)) (dotted : name.Dotted text) :
      Names node text
  | ofIdentifier {node : Node} {token : Token} (kind : node.kind ∈ Kind.identified)
      (token_eq : node.get? ⟨"identifier", .token⟩ = some (.token token)) :
      Names node token.text

theorem exists_get? (node : Node) (target : Field) (h : target ∈ node.kind.fields) :
    ∃ content, node.get? target = some content :=
  node.slots.exists_get? target h

theorem exists_node_of_get? (node : Node) (name : String) (h : ⟨name, .node⟩ ∈ node.kind.fields) :
    ∃ child, node.get? ⟨name, .node⟩ = some (.node child) := by
  obtain ⟨content, hcontent⟩ := node.exists_get? ⟨name, .node⟩ h
  cases content with
  | node child => exact ⟨child, hcontent⟩

theorem exists_token_of_get? (node : Node) (name : String)
    (h : ⟨name, .token⟩ ∈ node.kind.fields) :
    ∃ token, node.get? ⟨name, .token⟩ = some (.token token) := by
  obtain ⟨content, hcontent⟩ := node.exists_get? ⟨name, .token⟩ h
  cases content with
  | token token => exact ⟨token, hcontent⟩

/-- The sides of a qualified name are its children. -/
theorem nameText_qualified {node left right : Node} (kind : node.kind = .qualifiedName)
    (left_eq : node.get? ⟨"left", .node⟩ = some (.node left))
    (right_eq : node.get? ⟨"right", .node⟩ = some (.node right)) :
    node.children = [left, right] ∧ node.nameText = left.nameText ++ "." ++ right.nameText := by
  obtain ⟨info, _, slots⟩ := node
  cases kind
  cases_type* Slots Slot
  cases left_eq
  cases right_eq
  exact ⟨rfl, by simp [nameText, Slots.nameTexts, Slot.nameTexts]⟩

theorem nameText_other {node : Node} (h : node.kind ≠ .qualifiedName) :
    node.nameText = String.join (node.tokens.map Token.text) := by
  cases node with
  | mk info kind slots => exact if_neg h

theorem dotted_nameText (node : Node) : node.Dotted node.nameText := by
  induction node using Node.childInduction with
  | step node ih =>
    by_cases kind : node.kind = .qualifiedName
    · obtain ⟨left, hleft⟩ := node.exists_node_of_get? "left" (by rw [kind]; decide)
      obtain ⟨right, hright⟩ := node.exists_node_of_get? "right" (by rw [kind]; decide)
      obtain ⟨hchildren, htext⟩ := nameText_qualified kind hleft hright
      rw [htext]
      exact .qualified kind hleft hright (ih left (by simp [hchildren]))
        (ih right (by simp [hchildren]))
    · rw [nameText_other kind]
      exact .other kind

theorem dotted_iff {node : Node} {text : String} : node.Dotted text ↔ node.nameText = text := by
  constructor
  · intro h
    induction h with
    | qualified kind hleft hright _ _ ihleft ihright =>
      rw [(nameText_qualified kind hleft hright).2, ihleft, ihright]
    | other kind => exact nameText_other kind
  · rintro rfl
    exact node.dotted_nameText

theorem names_iff {node : Node} {own : String} :
    node.Names own ↔ node.declarationName? = some own := by
  rw [declarationName?, declaredIdentifier?, Kind.declaresIdentifier_eq]
  constructor
  · intro h
    cases h with
    | ofNamespace kind hname hdotted =>
      rw [if_pos kind, hname, ← dotted_iff.1 hdotted]
      rfl
    | ofIdentifier kind htoken =>
      have hother : node.kind ≠ .namespaceDeclaration := by
        intro heq
        rw [heq] at kind
        revert kind
        decide
      rw [if_neg hother, if_pos (decide_eq_true kind), htoken]
      rfl
  · intro h
    by_cases kind : node.kind = .namespaceDeclaration
    · obtain ⟨name, hname⟩ := node.exists_node_of_get? "name" (by rw [kind]; decide)
      rw [if_pos kind, hname] at h
      exact .ofNamespace kind hname (dotted_iff.2 (Option.some.inj h))
    · rw [if_neg kind] at h
      by_cases hnamed : node.kind ∈ Kind.identified
      · obtain ⟨token, htoken⟩ :=
          node.exists_token_of_get? "identifier" (Kind.identifier_mem_fields hnamed)
        rw [if_pos (decide_eq_true hnamed), htoken] at h
        obtain rfl : token.text = own := Option.some.inj h
        exact .ofIdentifier hnamed htoken
      · rw [decide_eq_false hnamed] at h
        cases h

/-- These kinds and no others declare a name. -/
theorem exists_names_iff {node : Node} :
    (∃ own, node.Names own) ↔ node.kind ∈ Kind.namespaceDeclaration :: Kind.identified := by
  constructor
  · rintro ⟨own, h⟩
    cases h with
    | ofNamespace kind => exact kind ▸ List.mem_cons_self
    | ofIdentifier kind => exact List.mem_cons_of_mem _ kind
  · intro h
    rcases List.mem_cons.1 h with kind | kind
    · obtain ⟨name, hname⟩ := node.exists_node_of_get? "name" (by rw [kind]; decide)
      exact ⟨_, .ofNamespace kind hname name.dotted_nameText⟩
    · obtain ⟨token, htoken⟩ :=
        node.exists_token_of_get? "identifier" (Kind.identifier_mem_fields kind)
      exact ⟨_, .ofIdentifier kind htoken⟩

/-- Nothing is left out where the names of declarations are gathered. -/
theorem forall₂_names {nodes : List Node} (h : ∀ node ∈ nodes, node.kind ∈ Kind.declarations) :
    List.Forall₂ Names nodes (nodes.filterMap declarationName?) := by
  induction nodes with
  | nil => exact .nil
  | cons node rest ih =>
    obtain ⟨name, hname⟩ :=
      exists_names_iff.2 (Kind.mem_named_of_mem_declarations (h node List.mem_cons_self))
    rw [List.filterMap_cons_some (names_iff.1 hname)]
    exact .cons hname (ih fun other hother => h other (List.mem_cons_of_mem _ hother))

end Node

/-! ### The context of a node -/

namespace DeclarationContext

/-- A context gives the names of the declarations around a node: of all namespaces, joined by dots,
of all types, and of the last member. -/
structure Describes (context : DeclarationContext) (around : List Node) : Prop where
  enclosing : ∃ names : List String,
    List.Forall₂ Node.Names (around.filter fun node => node.kind = .namespaceDeclaration) names ∧
    context.enclosing = if names = [] then none else some (String.intercalate "." names)
  types : List.Forall₂ Node.Names (around.filter fun node => node.kind ∈ Kind.types) context.types
  member : Option.Rel Node.Names (around.filter fun node => node.kind ∈ Kind.members).getLast?
    context.member

/-- Some kinds of declarations are found among the declarations as among all nodes. -/
theorem filter_declarations {kinds : List Kind} (h : kinds ⊆ Kind.declarations)
    (nodes : List Node) :
    (nodes.filter fun node => node.kind ∈ Kind.declarations).filter
      (fun node => node.kind ∈ kinds) = nodes.filter fun node => node.kind ∈ kinds := by
  rw [List.filter_filter]
  refine List.filter_congr fun node _ => ?_
  by_cases hkind : node.kind ∈ kinds
  · simp [hkind, h hkind]
  · simp [hkind]

theorem forall₂_names_filter {kinds : List Kind} (h : kinds ⊆ Kind.declarations)
    (nodes : List Node) :
    List.Forall₂ Node.Names (nodes.filter fun node => node.kind ∈ kinds)
      ((nodes.filter fun node => node.kind ∈ kinds).filterMap Node.declarationName?) :=
  Node.forall₂_names fun _ hnode => h (of_decide_eq_true (List.mem_filter.1 hnode).2)

theorem describes_ofAncestors (ancestors : List Node) :
    (ofAncestors ancestors).Describes
      (ancestors.filter fun node => node.kind ∈ Kind.declarations) where
  enclosing := by
    have hone : ∀ node : Node, decide (node.kind = .namespaceDeclaration) =
        decide (node.kind ∈ [Kind.namespaceDeclaration]) := fun node => by simp
    simp only [hone]
    rw [filter_declarations (by decide)]
    refine ⟨_, forall₂_names_filter (by decide) ancestors, ?_⟩
    simp only [ofAncestors, namespaceOf, List.isEmpty_iff, List.mem_singleton, beq_eq_decide]
  types := by
    rw [filter_declarations (by decide), ofAncestors]
    simp only [Kind.isTypeDeclaration_eq]
    exact forall₂_names_filter (by decide) ancestors
  member := by
    rw [filter_declarations (by decide), List.getLast?_filter, ofAncestors]
    simp only [Kind.isMember_eq]
    cases h : ancestors.reverse.find? fun node => node.kind ∈ Kind.members with
    | none => exact .none
    | some node =>
      have htest := List.find?_some h
      have hmember : node.kind ∈ Kind.members := of_decide_eq_true htest
      have hdeclares : node.kind ∈ Kind.declarations :=
        List.mem_cons_of_mem _ (List.mem_append_right _ hmember)
      obtain ⟨name, hname⟩ :=
        Node.exists_names_iff.2 (Kind.mem_named_of_mem_declarations hdeclares)
      rw [Option.bind_some, Node.names_iff.1 hname]
      exact .some hname

end DeclarationContext

namespace Node

/-- Around an object that stands in the tree, every query reads the first path to it; around any
other there is nothing. A name of its own is there for a namespace and for the kinds that have an
identifier to name them. -/
theorem context_of_firstPath (root target : Node) :
    ((root.pathTo? target).isSome = true ↔
      root.same target = true ∨ ∃ node ∈ root.descendants, node.same target = true) ∧
    (∀ path, root.pathTo? target = some path →
      root.FirstPath target path ∧
      root.containingDeclarations target =
        path.dropLast.filter (fun node => node.kind ∈ Kind.declarations) ∧
      ∃ context, root.context? target = some context ∧
        context.Describes (root.containingDeclarations target) ∧
        root.containingNamespace? target = context.enclosing ∧
        root.containingTypes target = context.types) ∧
    (root.pathTo? target = none →
      root.context? target = none ∧ root.containingDeclarations target = [] ∧
      root.containingNamespace? target = none ∧ root.containingTypes target = []) ∧
    ((root.qualifiedName? target).isSome = true ↔
      (root.pathTo? target).isSome = true ∧
        target.kind ∈ Kind.namespaceDeclaration :: Kind.identified) ∧
    ∀ name, root.qualifiedName? target = some name ↔
      (root.pathTo? target).isSome = true ∧ ∃ own, target.Names own ∧
        name = String.intercalate "."
          ((root.containingNamespace? target).toList ++ root.containingTypes target ++ [own]) := by
  have hname : ∀ name, root.qualifiedName? target = some name ↔
      (root.pathTo? target).isSome = true ∧ ∃ own, target.Names own ∧
        name = String.intercalate "."
          ((root.containingNamespace? target).toList ++ root.containingTypes target ++ [own]) := by
    intro name
    have hsome : (root.pathTo? target).isSome = (root.context? target).isSome := by
      rw [context?, Option.isSome_map]
    simp only [names_iff]
    rw [hsome, qualifiedName?, containingNamespace?, containingTypes]
    cases target.declarationName? <;> cases root.context? target <;> simp [eq_comm]
  refine ⟨pathTo?_isSome_iff root target, ?_, ?_, ?_, hname⟩
  · intro path hpath
    have hdecls : root.containingDeclarations target =
        path.dropLast.filter fun node => node.kind ∈ Kind.declarations := by
      simp only [containingDeclarations, hpath, Kind.isDeclaration_eq]
    have hcontext : root.context? target = some (.ofAncestors path.dropLast) := by
      rw [context?, hpath, Option.map_some]
    refine ⟨firstPath_of_pathTo? hpath, hdecls, _, hcontext, ?_, ?_, ?_⟩
    · rw [hdecls]
      exact DeclarationContext.describes_ofAncestors path.dropLast
    · rw [containingNamespace?, hcontext, Option.bind_some]
    · rw [containingTypes, hcontext, Option.map_some, Option.getD_some]
  · intro hpath
    have hcontext : root.context? target = none := by rw [context?, hpath, Option.map_none]
    refine ⟨hcontext, ?_, ?_, ?_⟩
    · rw [containingDeclarations, hpath]
    · rw [containingNamespace?, hcontext, Option.bind_none]
    · rw [containingTypes, hcontext, Option.map_none, Option.getD_none]
  · rw [← exists_names_iff]
    constructor
    · intro h
      obtain ⟨name, h⟩ := Option.isSome_iff_exists.1 h
      obtain ⟨hpath, own, hown, -⟩ := (hname name).1 h
      exact ⟨hpath, own, hown⟩
    · rintro ⟨hpath, own, hown⟩
      exact Option.isSome_iff_exists.2 ⟨_, (hname _).2 ⟨hpath, own, hown, rfl⟩⟩

/-- The statement `return;` as one object. -/
def loneReturn : Node :=
  .mk { label := some 1 } .returnStatement
    (.cons (.token (Build.keyword "return")) (.cons (.optNode none)
      (.cons (.token (Build.punctuation ";")) .nil)))

/-- A method `Run` whose body holds that statement. -/
def methodRun : Node :=
  .mk { label := some 2 } .methodDeclaration
    (.cons (.nodes []) (.cons (.tokens []) (.cons (.node (Build.predefinedType "void"))
      (.cons (.token (Build.identifier "Run")) (.cons (.optNode none)
        (.cons (.node (Build.parameterList [])) (.cons (.optNode (some (Build.block [loneReturn])))
          (.cons (.optToken none) .nil))))))))

/-- The method in the class `Inner` in the class `Outer` in the namespace `Acme.Tools`. -/
def nestedRun : Node :=
  let name (text : String) : Node := .identifierName (Build.identifier text)
  .compilationUnit []
    [.namespaceDeclaration (Build.keyword "namespace")
      (.qualifiedName (name "Acme") (Build.punctuation ".") (name "Tools"))
      (Build.punctuation "\x7b") []
      [Build.classDeclaration [] "Outer" [Build.classDeclaration [] "Inner" [methodRun]]]
      (Build.punctuation "\x7d")]
    Build.endOfFile

theorem context_nestedRun :
    (nestedRun.pathTo? loneReturn).map (List.map Node.kind) =
      some [.compilationUnit, .namespaceDeclaration, .classDeclaration, .classDeclaration,
        .methodDeclaration, .block, .returnStatement] ∧
    nestedRun.context? loneReturn = some ⟨some "Acme.Tools", ["Outer", "Inner"], some "Run"⟩ ∧
    DeclarationContext.Describes ⟨some "Acme.Tools", ["Outer", "Inner"], some "Run"⟩
      (nestedRun.containingDeclarations loneReturn) ∧
    nestedRun.qualifiedName? loneReturn = none ∧
    nestedRun.qualifiedName? methodRun = some "Acme.Tools.Outer.Inner.Run" ∧
    methodRun.Names "Run" := by
  have hpath : (nestedRun.pathTo? loneReturn).map (List.map Node.kind) =
      some [.compilationUnit, .namespaceDeclaration, .classDeclaration, .classDeclaration,
        .methodDeclaration, .block, .returnStatement] := by decide
  have hcontext : nestedRun.context? loneReturn =
      some ⟨some "Acme.Tools", ["Outer", "Inner"], some "Run"⟩ := by decide
  obtain ⟨path, hfound, -⟩ := Option.map_eq_some_iff.1 hpath
  obtain ⟨-, -, context, hsome, hdescribes, -⟩ :=
    (context_of_firstPath nestedRun loneReturn).2.1 path hfound
  obtain rfl := Option.some.inj (hcontext.symm.trans hsome)
  exact ⟨hpath, hcontext, hdescribes, by decide, by decide, names_iff.2 (by decide)⟩

end Node

end SourceTree
