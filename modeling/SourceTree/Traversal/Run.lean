import SourceTree.Traversal.Basic
import SourceTree.Traversal.Walk

/-!
Running a traversal. `answer` gives the result of one request: a visit runs the plan of the
hook in charge, or the walk where there is none, and a walk runs the walk. Requests made by
that plan are answered in turn. Hooks may ask for anything, so requests can nest without
end; `fuel` bounds how deep they nest, and a run that needs more is `starved`.
-/
namespace SourceTree

/-- The state is kept also when a run fails. -/
inductive Outcome (σ α : Type) where
  | done (value : α) (state : σ)
  | failed (fault : Fault) (state : σ)
  | starved
  deriving Repr

namespace Outcome

variable {σ α β : Type}

def bind : Outcome σ α → (α → σ → Outcome σ β) → Outcome σ β
  | .done value state, f => f value state
  | .failed fault state, _ => .failed fault state
  | .starved, _ => .starved

def value? : Outcome σ α → Option α
  | .done value _ => some value
  | _ => none

@[simp] theorem bind_done (value : α) (state : σ) (f : α → σ → Outcome σ β) :
    (Outcome.done value state).bind f = f value state := rfl

@[simp] theorem bind_failed (fault : Fault) (state : σ) (f : α → σ → Outcome σ β) :
    (Outcome.failed fault state).bind f = .failed fault state := rfl

@[simp] theorem bind_starved (f : α → σ → Outcome σ β) :
    (Outcome.starved : Outcome σ α).bind f = .starved := rfl

end Outcome

/-- A way to answer requests under a given traversal. -/
abbrev Answer (σ : Type) : Type 1 :=
  Traversal σ → Manner → (part : Part) → part.Value → σ → Outcome σ part.Result

/-- Runs a plan, given a way to answer its requests. -/
def Plan.run {σ α : Type} (answer : Answer σ) : Plan σ α → Traversal σ → σ → Outcome σ α
  | .pure value, _, state => .done value state
  | .fail fault, _, state => .failed fault state
  | .get next, traversal, state => (next state).run answer traversal state
  | .put state next, traversal, _ => next.run answer traversal state
  | .ask manner part value next, traversal, state =>
    (answer traversal manner part value state).bind fun result state =>
      (next result).run answer traversal state
  | .under edit plan next, traversal, state =>
    (plan.run answer (traversal.edit edit) state).bind fun value state =>
      (next value).run answer traversal state

theorem Plan.run_bind {σ α β : Type} (answer : Answer σ) (plan : Plan σ α) (f : α → Plan σ β)
    (traversal : Traversal σ) (state : σ) :
    (plan.bind f).run answer traversal state =
      (plan.run answer traversal state).bind fun value state =>
        (f value).run answer traversal state := by
  match plan with
  | .pure value => rfl
  | .fail fault => rfl
  | .get next => exact Plan.run_bind answer (next state) f traversal state
  | .put state next => exact Plan.run_bind answer next f traversal state
  | .ask manner part value next =>
    simp only [Plan.bind, Plan.run]
    cases answer traversal manner part value state with
    | done result state => exact Plan.run_bind answer (next result) f traversal state
    | failed fault state => rfl
    | starved => rfl
  | .under edit plan next =>
    simp only [Plan.bind, Plan.run]
    cases plan.run answer (traversal.edit edit) state with
    | done value state => exact Plan.run_bind answer (next value) f traversal state
    | failed fault state => rfl
    | starved => rfl

namespace Traversal

variable {σ : Type}

/-- The hook in charge of a part: for a node that of its kind, else the default one. -/
def hookFor (traversal : Traversal σ) :
    (part : Part) → part.Value → Option (part.Value → Plan σ part.Result)
  | .node, node =>
    match traversal.hooks (.node node.kind) with
    | some hook => some hook
    | none => traversal.hooks .default
  | .token, _ => traversal.hooks .token
  | .trivia, _ => traversal.hooks .trivia
  | .nodes, _ => traversal.hooks .nodes
  | .separated, _ => traversal.hooks .separated
  | .tokens, _ => traversal.hooks .tokens
  | .trivias, _ => traversal.hooks .trivias

/-- The plan that answers a request. -/
def respond (traversal : Traversal σ) (part : Part) (value : part.Value) :
    Manner → Plan σ part.Result
  | .walk => walkPart traversal.structured part value
  | .visit =>
    match traversal.hookFor part value with
    | some hook => hook value
    | none => walkPart traversal.structured part value

def answer : Nat → Answer σ
  | 0 => fun _ _ _ _ _ => .starved
  | fuel + 1 => fun traversal manner part value state =>
    (traversal.respond part value manner).run (answer fuel) traversal state

def visit (traversal : Traversal σ) (fuel : Nat) (part : Part) (value : part.Value) (state : σ) :
    Outcome σ part.Result :=
  answer fuel traversal .visit part value state

def walk (traversal : Traversal σ) (fuel : Nat) (part : Part) (value : part.Value) (state : σ) :
    Outcome σ part.Result :=
  answer fuel traversal .walk part value state

/-- A visit that does nothing where there is nothing. -/
def visitOpt (traversal : Traversal σ) (fuel : Nat) (node : Option Node) (state : σ) :
    Outcome σ (Option Node) :=
  match node with
  | some node => traversal.visit fuel .node node state
  | none => .done none state

def visitTokenOpt (traversal : Traversal σ) (fuel : Nat) (token : Option Token) (state : σ) :
    Outcome σ (Option Token) :=
  match token with
  | some token => traversal.visit fuel .token token state
  | none => .done none state

/-- Transforms a whole tree, whose root cannot be removed. -/
def transform (traversal : Traversal σ) (fuel : Nat) (root : Node) (state : σ) : Outcome σ Node :=
  (traversal.visit fuel .node root state).bind fun result state =>
    match result with
    | some node => .done node state
    | none => .failed (.rootRemoved root.kind) state

/-- Transforms trees one after another; the first fault ends it. -/
def transformAll (traversal : Traversal σ) (fuel : Nat) : List Node → σ → Outcome σ (List Node)
  | [], state => .done [] state
  | root :: rest, state =>
    (traversal.transform fuel root state).bind fun node state =>
      (transformAll traversal fuel rest state).bind fun nodes state => .done (node :: nodes) state

end Traversal

/-! ### Depth -/

mutual

/-- How deep parts nest: nodes, tokens, trivia and lists of them each count once. -/
def Node.depth : Node → Nat
  | .mk _ _ slots => slots.depth + 1

def Slots.depth : {fields : List Field} → Slots fields → Nat
  | _, .nil => 0
  | _, .cons slot rest => max slot.depth rest.depth

def Slot.depth : {shape : Shape} → Slot shape → Nat
  | _, .node child => child.depth
  | _, .optNode none => 0
  | _, .optNode (some child) => child.depth
  | _, .token child => child.depth
  | _, .optToken none => 0
  | _, .optToken (some child) => child.depth
  | _, .nodes children => nodesDepth children + 1
  | _, .tokens children => tokensDepth children + 1
  | _, .separated ⟨elements, separators⟩ =>
    max (nodesDepth elements) (tokensDepth separators) + 1

def nodesDepth : List Node → Nat
  | [] => 0
  | node :: rest => max node.depth (nodesDepth rest)

def Token.depth : Token → Nat
  | .mk _ _ _ leading trailing => max (triviaDepth leading) (triviaDepth trailing) + 2

def tokensDepth : List Token → Nat
  | [] => 0
  | token :: rest => max token.depth (tokensDepth rest)

def Trivia.depth : Trivia → Nat
  | .mk _ _ _ none => 1
  | .mk _ _ _ (some inner) => inner.depth + 1

def triviaDepth : List Trivia → Nat
  | [] => 0
  | trivia :: rest => max trivia.depth (triviaDepth rest)

end

/-- Enough for hooks that ask for nothing but the walk of what they were given: each level
of the tree takes one visit and one walk. -/
def Node.fuel (root : Node) : Nat := 2 * root.depth

end SourceTree
