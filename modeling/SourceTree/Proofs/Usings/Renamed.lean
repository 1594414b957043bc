import SourceTree.Proofs.Rename
import SourceTree.Proofs.Usings.Sorter

/-!
Usings in a tree that is renamed. Renaming keeps every node and its kind, so the usings of each
compilation unit and namespace have the same kinds as before, and what can be said of them by their
kinds can still be said.
-/
namespace SourceTree

variable {σ : Type}

namespace Traversal.Reworks

variable {traversal : Traversal σ} {rework : Node → Node → Node} {decide : Token → Option Token}
  {test : List Node → Bool}

end Traversal.Reworks

/-! ### Renaming -/

end SourceTree
