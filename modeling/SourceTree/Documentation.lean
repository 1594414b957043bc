import SourceTree.View
import SourceTree.Build.Xml
import SourceTree.Traversal.Run

/-!
Documentation comments: making one from its texts, putting it in front of a declaration and
reading it back.
-/
namespace SourceTree

structure Documentation where
  summary : String
  params : List (String × String) := []
  returns : Option String := none
  deriving DecidableEq, Repr

/-- The summary on lines of its own, then one line for each parameter and for the result. -/
def Documentation.toTrivia (documentation : Documentation) : Trivia :=
  Build.documentationComment
    (Build.xmlBlockElement "summary" documentation.summary ::
      documentation.params.map (fun (name, text) =>
        Build.xmlInlineElement "param" (some ("name", name)) text) ++
      documentation.returns.toList.map (Build.xmlInlineElement "returns" none))

/-- Puts `x` behind the last element that satisfies `p`, or first where there is none. -/
def insertAfterLast {α : Type} (p : α → Bool) (x : α) (xs : List α) : List α :=
  let tail := (xs.reverse.takeWhile fun a => !p a).reverse
  xs.take (xs.length - tail.length) ++ x :: tail

/-- Drops the documentation in front of a token and puts in the new one, behind the last
line end, so that the indentation stays next to the token. -/
def replaceDocumentation (leading : List Trivia) (documentation : Trivia) : List Trivia :=
  insertAfterLast (fun trivia => trivia.kind == .endOfLine) documentation
    (leading.filter fun trivia => !trivia.isDocumentation)

/-- Changes the first token that it meets; the state says whether it has met one. -/
def documentationAttacher (documentation : Trivia) : Traversal Bool :=
  Traversal.empty.withHook .token fun token => do
    let attached ← Plan.getState
    if attached then return some token
    else
      Plan.setState true
      return some (token.withLeading (replaceDocumentation token.leading documentation))

namespace Node

/-- Puts documentation in front of the first token, in place of any that is there. -/
def attachDocumentation (node : Node) (documentation : Documentation) : Outcome Bool Node :=
  (documentationAttacher documentation.toTrivia).transform node.fuel node false

/-- The tree of the documentation comment in front of a node. -/
def documentation? (node : Node) : Option Node := do
  let token ← node.firstToken?
  let trivia ← token.leading.find? Trivia.isDocumentation
  trivia.inner

/-- A start tag with this name. -/
def isStartTag (node : Node) (name : String) : Bool :=
  node.kind == .xmlElementStartTag &&
    (node.get? ⟨"name", .token⟩).any fun slot => slot.toToken.text == name

/-- An element whose start tag has this name. -/
def isElement (node : Node) (name : String) : Bool :=
  node.kind == .xmlElement &&
    (node.get? ⟨"start_tag", .node⟩).any fun slot => slot.toNode.isStartTag name

/-- What stands in the field `content`. -/
def content (node : Node) : List Node := ((node.get? ⟨"content", .nodes⟩).map Slot.toNodes).getD []

/-- The text lines of the summary in a documentation comment. -/
def summaryText? (node : Node) : Option String :=
  if node.kind = .documentationComment then
    (node.content.find? (·.isElement "summary")).map fun summary =>
      String.intercalate "\n"
        (((summary.content.flatMap Node.tokens).filter fun token => token.kind == .xmlText).map
          Token.text)
  else none

end Node

end SourceTree
