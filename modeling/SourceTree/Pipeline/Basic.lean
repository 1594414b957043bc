import SourceTree.Pipeline.Graph
import SourceTree.Traversal.Run

/-!
Pipelines: named traversals that may depend on one another. They run one after another, each
behind those it depends on, and otherwise in the order in which they were added.
-/
namespace SourceTree

structure Pass (σ : Type) where
  id : String
  dependencies : List String := []
  traversal : Traversal σ

structure Pipeline (σ : Type) where
  passes : List (Pass σ) := []

namespace Pipeline

variable {σ : Type}

def empty : Pipeline σ := {}

def putPass (pass : Pass σ) : List (Pass σ) → List (Pass σ)
  | [] => [pass]
  | other :: rest => if other.id = pass.id then pass :: rest else other :: putPass pass rest

/-- Adds a pass, or puts it in the place of the one with the same id. -/
def add (pipeline : Pipeline σ) (pass : Pass σ) : Pipeline σ :=
  { passes := putPass pass pipeline.passes }

def find? (pipeline : Pipeline σ) (id : String) : Option (Pass σ) :=
  pipeline.passes.find? fun pass => pass.id == id

def remove (pipeline : Pipeline σ) (id : String) : Pipeline σ :=
  { passes := pipeline.passes.eraseP fun pass => pass.id == id }

def ids (pipeline : Pipeline σ) : List String := pipeline.passes.map Pass.id

/-- The edges from the dependencies of one pass to it. -/
def passEdges (ids : List String) (id : String) (target : Nat) :
    List String → Except Fault (List (Nat × Nat))
  | [] => .ok []
  | dependency :: rest =>
    match ids.findIdx? (· == dependency) with
    | none => .error (.unknownDependency id dependency)
    | some source =>
      match passEdges ids id target rest with
      | .error fault => .error fault
      | .ok edges => .ok ((source, target) :: edges)

/-- The edges of all passes from the one with index `target` on. -/
def edgesFrom (ids : List String) (target : Nat) :
    List (Pass σ) → Except Fault (List (Nat × Nat))
  | [] => .ok []
  | pass :: rest =>
    match passEdges ids pass.id target pass.dependencies with
    | .error fault => .error fault
    | .ok edges =>
      match edgesFrom ids (target + 1) rest with
      | .error fault => .error fault
      | .ok others => .ok (edges ++ others)

/-- The dependencies between passes, which are numbered in the order of their places. -/
def graph (pipeline : Pipeline σ) : Except Fault Graph :=
  match edgesFrom pipeline.ids 0 pipeline.passes with
  | .error fault => .error fault
  | .ok edges => .ok { size := pipeline.passes.length, edges }

/-- The passes in the order in which they run. -/
def schedule (pipeline : Pipeline σ) : Except Fault (List (Pass σ)) :=
  match pipeline.graph with
  | .error fault => .error fault
  | .ok graph =>
    match graph.cycle? with
    | some vertex => .error (.cycle (pipeline.ids.getD vertex ""))
    | none => .ok (graph.schedule.filterMap fun vertex => pipeline.passes[vertex]?)

def executionOrder (pipeline : Pipeline σ) : Except Fault (List String) :=
  match pipeline.schedule with
  | .error fault => .error fault
  | .ok passes => .ok (passes.map Pass.id)

/-- Runs passes one after another; `fuel` says how deep requests may nest for a given tree. -/
def runPasses (fuel : Node → Nat) : List (Pass σ) → Node → σ → Outcome σ Node
  | [], tree, state => .done tree state
  | pass :: rest, tree, state =>
    (pass.traversal.transform (fuel tree) tree state).bind fun tree state =>
      runPasses fuel rest tree state

def apply (pipeline : Pipeline σ) (fuel : Node → Nat) (tree : Node) (state : σ) : Outcome σ Node :=
  match pipeline.schedule with
  | .error fault => .failed fault state
  | .ok passes => runPasses fuel passes tree state

end Pipeline

end SourceTree
