import SourceTree.View

/-!
Names: the dotted text of a name node and the names that declarations introduce.
-/
namespace SourceTree

mutual

/-- `System.Text` for a name; other nodes read as their tokens without any space. -/
def Node.nameText : Node → String
  | .mk _ kind slots =>
    if kind = .qualifiedName then String.intercalate "." slots.nameTexts
    else String.join (slots.tokens.map Token.text)

/-- The names among the contents of fields. -/
def Slots.nameTexts : {fields : List Field} → Slots fields → List String
  | _, .nil => []
  | _, .cons slot rest => slot.nameTexts ++ rest.nameTexts

def Slot.nameTexts : {shape : Shape} → Slot shape → List String
  | _, .node child => [child.nameText]
  | _, .optNode _ => []
  | _, .token _ => []
  | _, .optToken _ => []
  | _, .nodes _ => []
  | _, .tokens _ => []
  | _, .separated _ => []

end

namespace Node

/-- The token that names a declaration. -/
def declaredIdentifier? (node : Node) : Option Token :=
  if node.kind.declaresIdentifier then (node.get? ⟨"identifier", .token⟩).map Slot.toToken else none

/-- The declared name; dotted for namespaces. -/
def declarationName? (node : Node) : Option String :=
  if node.kind = .namespaceDeclaration then
    (node.get? ⟨"name", .node⟩).map fun slot => slot.toNode.nameText
  else node.declaredIdentifier?.map Token.text

end Node

end SourceTree
