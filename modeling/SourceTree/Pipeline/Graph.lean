/-!
Dependency graphs. Vertices are the numbers below `size`; an edge leads from a vertex to one
that depends on it. An edge may occur more than once.
-/
namespace SourceTree

structure Graph where
  size : Nat
  /-- In the order in which they were added. -/
  edges : List (Nat × Nat)
  deriving DecidableEq, Repr

namespace Graph

/-- What depends on a vertex, once for each edge, the newest edge first. -/
def successors (graph : Graph) (vertex : Nat) : List Nat :=
  (graph.edges.reverse.filter fun edge => edge.1 == vertex).map Prod.snd

/-- What a vertex depends on, once for each edge, the newest edge first. -/
def predecessors (graph : Graph) (vertex : Nat) : List Nat :=
  (graph.edges.reverse.filter fun edge => edge.2 == vertex).map Prod.fst

/-! ### Cycles -/

/-- A search in progress. Vertices are taken from the stack and stay on it until everything
behind them is finished; `finished` has the last finished vertex first. -/
structure Search where
  stack : List Nat
  discovered : List Nat
  finished : List Nat
  deriving Repr

/-- Goes on until the stack is empty. The error is a vertex with an edge to itself. -/
def explore (graph : Graph) : Nat → Search → Except Nat Search
  | 0, search => .ok search
  | fuel + 1, search =>
    match search.stack with
    | [] => .ok search
    | vertex :: rest =>
      if vertex ∈ search.discovered then
        explore graph fuel
          { search with
            stack := rest
            finished :=
              if vertex ∈ search.finished then search.finished else vertex :: search.finished }
      else if vertex ∈ graph.successors vertex then .error vertex
      else
        let discovered := vertex :: search.discovered
        let next := (graph.successors vertex).filter fun other => other ∉ discovered
        explore graph fuel { search with stack := next.reverse ++ search.stack, discovered }

/-- Each step discovers a vertex or takes one off the stack, and each edge puts at most one
on it. -/
def fuel (graph : Graph) : Nat := 2 * (graph.size + graph.edges.length + 1)

/-- Starts a search at every vertex that was not discovered before. -/
def exploreFrom (graph : Graph) : List Nat → Search → Except Nat Search
  | [], search => .ok search
  | vertex :: rest, search =>
    if vertex ∈ search.discovered then exploreFrom graph rest search
    else
      match graph.explore graph.fuel { search with stack := [vertex] } with
      | .error vertex => .error vertex
      | .ok search => exploreFrom graph rest search

/-- The first vertex that stands before something it depends on gives that away. -/
def backEdge? (graph : Graph) (seen : List Nat) : List Nat → Option Nat
  | [] => none
  | vertex :: rest =>
    let seen := vertex :: seen
    match ((graph.predecessors vertex).filter fun other => other ∉ seen).getLast? with
    | some other => some other
    | none => backEdge? graph seen rest

/-- A vertex on a cycle, if there is a cycle. -/
def cycle? (graph : Graph) : Option Nat :=
  match graph.exploreFrom (List.range graph.size)
      { stack := [], discovered := [], finished := [] } with
  | .error vertex => some vertex
  | .ok search => graph.backEdge? [] search.finished

/-! ### Order -/

/-- A schedule in progress: for each vertex the number of edges into it that still wait, the
vertices that wait for nothing, and the order so far in reverse. -/
structure Progress where
  waiting : List Nat
  ready : List Nat
  order : List Nat
  deriving Repr

/-- One edge into a vertex waits no longer. -/
def release (progress : Progress) (vertex : Nat) : Progress :=
  let count := (progress.waiting.getD vertex 0) - 1
  { progress with
    waiting := progress.waiting.set vertex count
    ready := if count = 0 then vertex :: progress.ready else progress.ready }

/-- Takes the least ready vertex next. -/
def advance (graph : Graph) : Nat → Progress → Progress
  | 0, progress => progress
  | fuel + 1, progress =>
    match progress.ready.min? with
    | none => progress
    | some vertex =>
      advance graph fuel
        ((graph.successors vertex).foldl release
          { progress with
            ready := progress.ready.erase vertex, order := vertex :: progress.order })

/-- All vertices, each behind what it depends on; among those that could come next, the
least comes first. -/
def schedule (graph : Graph) : List Nat :=
  let waiting := (List.range graph.size).map fun vertex => (graph.predecessors vertex).length
  let ready := (List.range graph.size).filter fun vertex => waiting.getD vertex 0 == 0
  (graph.advance graph.size { waiting, ready, order := [] }).order.reverse

end Graph

end SourceTree
