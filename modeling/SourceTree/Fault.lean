import SourceTree.Kind

/-!
What can go wrong while a tree is transformed or a pipeline is run.
-/
namespace SourceTree

inductive Fault where
  /-- A hook removed a child that its parent cannot do without. -/
  | missingChild (parent : Kind) (slot : String)
  | rootRemoved (kind : Kind)
  /-- A hook gave up with a message of its own. -/
  | hookFailed (message : String)
  | unknownDependency (pass dependency : String)
  | cycle (pass : String)
  /-- A sort met entries that its comparison does not put in any order. -/
  | unsortable
  deriving DecidableEq, Repr

def Fault.message : Fault → String
  | .missingChild parent slot =>
    "override removed required child `" ++ slot ++ "` of " ++ parent.name
  | .rootRemoved kind => "override removed the root " ++ kind.name ++ " node"
  | .hookFailed message => "override failed: " ++ message
  | .unknownDependency pass dependency =>
    "pass `" ++ pass ++ "` depends on unknown pass `" ++ dependency ++ "`"
  | .cycle pass => "pass `" ++ pass ++ "` participates in a dependency cycle"
  | .unsortable =>
    "user-provided comparison function does not correctly implement a total order"

end SourceTree
