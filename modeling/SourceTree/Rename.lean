import SourceTree.Name
import SourceTree.Traversal.Run

/-!
Renaming tokens and methods.
-/
namespace SourceTree

variable {σ : Type}

/-- Gives new texts to tokens; the trivia of a token that gets one are not entered. -/
def tokenRenamer (rename : Token → Option String) : Traversal σ :=
  Traversal.empty.withHook .token fun token =>
    match rename token with
    | some text => pure (some (token.withText text))
    | none => Plan.walk .token token

/-- Gives one text to every token that satisfies a predicate. -/
def Node.renameTokens (root : Node) (p : Token → Bool) (text : String) : Outcome Unit Node :=
  (tokenRenamer fun token => if p token then some text else none).transform root.fuel root ()

/-- Renames identifiers; other tokens with the same text are left alone. -/
def Node.renameIdentifier (root : Node) (old new : String) : Outcome Unit Node :=
  root.renameTokens (fun token => token.isIdentifier && token.text == old) new

/-- A method with another name; any other node itself. -/
def Node.renameMethod (node : Node) (name : String) : Node :=
  if node.kind = .methodDeclaration then
    match node.get? ⟨"identifier", .token⟩ with
    | some identifier =>
      node.set ⟨"identifier", .token⟩ (.token (identifier.toToken.withText name))
    | none => node
  else node

/-- Renames methods. `p` sees a method as it was before its contents were walked. -/
def methodRenamer (p : Node → Bool) (name : String) : Traversal σ :=
  Traversal.empty.withHook (.node .methodDeclaration) fun node => do
    let walked ← Plan.walk .node node
    return if p node then walked.map (·.renameMethod name) else walked

/-- The node declares `name`. -/
def Node.isNamed (node : Node) (name : String) : Bool :=
  node.declaredIdentifier?.any fun identifier => identifier.text == name

end SourceTree
