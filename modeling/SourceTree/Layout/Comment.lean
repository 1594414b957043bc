import SourceTree.View
import SourceTree.Layout.Options
import SourceTree.Text.Split
import SourceTree.Text.Blank

/-!
The trivia that a layout keeps: comments, documentation and directives in front of a token,
each on lines of its own. All other trivia are dropped.
-/
namespace SourceTree.Layout

/-- Directives are not indented. -/
def triviaLines (level : Nat) (trivia : Trivia) : List Line :=
  match trivia.kind with
  | .singleLineComment | .multiLineComment =>
    (Text.lines trivia.text).map fun text => ⟨level, Text.trim text⟩
  | .documentationComment =>
    match trivia.inner with
    | some inner => (Text.lines inner.text).map fun text => ⟨level, text⟩
    | none => []
  | .directive => [⟨0, Text.trim trivia.text⟩]
  | _ => []

def commentLines (token : Token) (level : Nat) : List Line :=
  token.leading.flatMap (triviaLines level)

/-- What is kept from the trivia in front of the first token of a node. -/
def leadingLines (node : Node) (level : Nat) : List Line :=
  match node.firstToken? with
  | some token => commentLines token level
  | none => []

end SourceTree.Layout
