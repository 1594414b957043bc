import SourceTree.Build.Code

/-!
Adding statements to blocks and method bodies.
-/
namespace SourceTree.Node

/-- A block with further statements; any other node itself. -/
def appendStatements (node : Node) (statements : List Node) : Node :=
  if node.kind = .block then
    match node.get? ⟨"statements", .nodes⟩ with
    | some old => node.set ⟨"statements", .nodes⟩ (.nodes (old.toNodes ++ statements))
    | none => node
  else node

/-- Adds to the block of a method. A method without a body gets a block in place of its
semicolon; a body that is no block is left as it is. -/
def appendToBody (method : Node) (statements : List Node) : Node :=
  match (method.get? ⟨"body", .optNode⟩).bind Slot.toNode? with
  | some body =>
    if body.kind = .block then
      method.set ⟨"body", .optNode⟩ (.optNode (some (body.appendStatements statements)))
    else method.copy
  | none =>
    (method.set ⟨"body", .optNode⟩ (.optNode (some (Build.block statements)))).set
      ⟨"semicolon", .optToken⟩ (.optToken none)

end SourceTree.Node
