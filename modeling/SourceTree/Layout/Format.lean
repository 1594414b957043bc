import SourceTree.Layout.Writer

/-!
Laying out whole trees as text.
-/
namespace SourceTree.Layout

/-- The layout of a tree: what it writes on an empty sheet. -/
def format (node : Node) (options : Options) : String :=
  ((writer node).item 0 (Sheet.empty options)).out

end SourceTree.Layout
