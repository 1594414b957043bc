import SourceTree.Name

/-!
Where a node stands in a tree: the path that leads to it, and the namespaces, types and
members around it. Nodes are found as objects, not by what they look like.
-/
namespace SourceTree

mutual

/-- The nodes from a root down to the first one in order that is wanted, both included. -/
def Node.path? (wanted : Node → Bool) : Node → Option (List Node)
  | .mk info kind slots =>
    if wanted (.mk info kind slots) then some [.mk info kind slots]
    else (slots.path? wanted).map (.mk info kind slots :: ·)

def Slots.path? (wanted : Node → Bool) : {fields : List Field} → Slots fields → Option (List Node)
  | _, .nil => none
  | _, .cons slot rest => slot.path? wanted <|> rest.path? wanted

def Slot.path? (wanted : Node → Bool) : {shape : Shape} → Slot shape → Option (List Node)
  | _, .node child => child.path? wanted
  | _, .optNode none => none
  | _, .optNode (some child) => child.path? wanted
  | _, .token _ => none
  | _, .optToken _ => none
  | _, .nodes children => pathIn? wanted children
  | _, .tokens _ => none
  | _, .separated ⟨elements, _⟩ => pathIn? wanted elements

def pathIn? (wanted : Node → Bool) : List Node → Option (List Node)
  | [] => none
  | node :: rest => node.path? wanted <|> pathIn? wanted rest

end

/-- The path to a node of the tree. -/
def Node.pathTo? (root target : Node) : Option (List Node) := root.path? (·.same target)

/-- The namespaces, types and member around a node, the outermost first. -/
structure DeclarationContext where
  enclosing : Option String
  types : List String
  member : Option String
  deriving DecidableEq, Repr

/-- The dotted name of the namespaces among some nodes. -/
def namespaceOf (ancestors : List Node) : Option String :=
  let names := (ancestors.filter fun node => node.kind == .namespaceDeclaration).filterMap
    Node.declarationName?
  if names.isEmpty then none else some (String.intercalate "." names)

/-- The context made up by the nodes on the way to a node. -/
def DeclarationContext.ofAncestors (ancestors : List Node) : DeclarationContext where
  enclosing := namespaceOf ancestors
  types := (ancestors.filter fun node => node.kind.isTypeDeclaration).filterMap
    Node.declarationName?
  member := (ancestors.reverse.find? fun node => node.kind.isMember).bind Node.declarationName?

namespace Node

def context? (root target : Node) : Option DeclarationContext :=
  (root.pathTo? target).map fun path => .ofAncestors path.dropLast

/-- The declarations around a node, the outermost first. -/
def containingDeclarations (root target : Node) : List Node :=
  match root.pathTo? target with
  | some path => path.dropLast.filter fun node => node.kind.isDeclaration
  | none => []

def containingNamespace? (root target : Node) : Option String :=
  (root.context? target).bind DeclarationContext.enclosing

def containingTypes (root target : Node) : List String :=
  ((root.context? target).map DeclarationContext.types).getD []

/-- Namespace, types and own name of a declaration. -/
def qualifiedName? (root target : Node) : Option String := do
  let own ← target.declarationName?
  let context ← root.context? target
  return String.intercalate "." (context.enclosing.toList ++ context.types ++ [own])

end Node

end SourceTree
