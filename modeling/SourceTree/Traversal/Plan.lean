import SourceTree.Tree
import SourceTree.Fault

/-!
Hooks. A hook takes over the visit of some part of a tree. What it does is a `Plan`: a
program that may look at and change a state, fail, ask the traversal to visit or walk
other parts, and run a further plan under changed hooks. A plan is data, so that hooks can
call back into the traversal that called them without any circularity.
-/
namespace SourceTree

/-- The parts of a tree that a traversal deals with. -/
inductive Part where
  | node | token | trivia | nodes | separated | tokens | trivias
  deriving DecidableEq, Repr

namespace Part

@[reducible] def Value : Part → Type
  | .node => Node
  | .token => Token
  | .trivia => Trivia
  | .nodes => List Node
  | .separated => Separated Node Token
  | .tokens => List Token
  | .trivias => List Trivia

/-- Single objects can be removed, which leaves `none`; lists cannot. -/
@[reducible] def Result : Part → Type
  | .node => Option Node
  | .token => Option Token
  | .trivia => Option Trivia
  | .nodes => List Node
  | .separated => Separated Node Token
  | .tokens => List Token
  | .trivias => List Trivia

end Part

/-- The places where a hook can stand. -/
inductive Point where
  | node (kind : Kind)
  | default | token | trivia | nodes | separated | tokens | trivias
  deriving DecidableEq, Repr

namespace Point

@[reducible] def part : Point → Part
  | .node _ => .node
  | .default => .node
  | .token => .token
  | .trivia => .trivia
  | .nodes => .nodes
  | .separated => .separated
  | .tokens => .tokens
  | .trivias => .trivias

/-- All places in their order: one for each kind, then the others. -/
def all : List Point :=
  Kind.all.map .node ++ [.default, .token, .trivia, .nodes, .separated, .tokens, .trivias]

def text : Point → String
  | .node kind => "node:" ++ kind.name
  | .default => "default"
  | .token => "token"
  | .trivia => "trivia"
  | .nodes => "list"
  | .separated => "separated-list"
  | .tokens => "token-list"
  | .trivias => "trivia-list"

/-- The name used in the description of a traversal. -/
def title : Point → String
  | .node kind => "Node(" ++ kind.name ++ ")"
  | .default => "Default"
  | .token => "Token"
  | .trivia => "Trivia"
  | .nodes => "List"
  | .separated => "SeparatedList"
  | .tokens => "TokenList"
  | .trivias => "TriviaList"

end Point

/-- To visit is to let the hooks decide; to walk is to do what happens without a hook. -/
inductive Manner where
  | visit | walk
  deriving DecidableEq, Repr

mutual

/-- A program run by a hook: a result of type `α`, with a state of type `σ`. -/
inductive Plan (σ : Type) : Type → Type 1 where
  | pure {α : Type} (value : α) : Plan σ α
  | fail {α : Type} (fault : Fault) : Plan σ α
  | get {α : Type} (next : σ → Plan σ α) : Plan σ α
  | put {α : Type} (state : σ) (next : Plan σ α) : Plan σ α
  | ask {α : Type} (manner : Manner) (part : Part) (value : part.Value)
      (next : part.Result → Plan σ α) : Plan σ α
  | under {α β : Type} (edit : Edit σ) (plan : Plan σ β) (next : β → Plan σ α) : Plan σ α

/-- One change to the hooks of a traversal. -/
inductive Edit (σ : Type) : Type 1 where
  | hook (point : Point) (hook : point.part.Value → Plan σ point.part.Result)
  | unhook (point : Point)
  | structured (enabled : Bool)
  | clear

end

/-- What stands at a point. -/
abbrev Hook (σ : Type) (point : Point) : Type 1 := point.part.Value → Plan σ point.part.Result

namespace Plan

variable {σ α β : Type}

def bind : Plan σ α → (α → Plan σ β) → Plan σ β
  | .pure value, f => f value
  | .fail fault, _ => .fail fault
  | .get next, f => .get fun state => (next state).bind f
  | .put state next, f => .put state (next.bind f)
  | .ask manner part value next, f => .ask manner part value fun result => (next result).bind f
  | .under edit plan next, f => .under edit plan fun value => (next value).bind f

instance : Monad (Plan σ) where
  pure := .pure
  bind := .bind

def getState : Plan σ σ := .get .pure

def setState (state : σ) : Plan σ Unit := .put state (.pure ())

def visit (part : Part) (value : part.Value) : Plan σ part.Result :=
  .ask .visit part value .pure

def walk (part : Part) (value : part.Value) : Plan σ part.Result :=
  .ask .walk part value .pure

/-- Runs a plan under several changes, the first of them made first. -/
def underAll (edits : List (Edit σ)) (plan : Plan σ α) : Plan σ α :=
  edits.foldr (fun edit plan => .under edit plan .pure) plan

end Plan

end SourceTree
