import SourceTree.View

/-!
Giving labels to objects. `labelFrom next` gives each object that has no label yet a number
of its own, counting up from `next`, and returns the first number it did not use. Objects
that have a label keep it, so a part that occurs twice stays one object. An unlabelled part
that occurs twice becomes two objects; to put one new object in two places, label it first.
-/
namespace SourceTree

/-- The label to use and the next free one. -/
def claimLabel : Option Nat → Nat → Option Nat × Nat
  | some label, next => (some label, next)
  | none, next => (some next, next + 1)

mutual

def Node.labelFrom : Node → Nat → Node × Nat
  | .mk info kind slots, next =>
    let (slots, next) := slots.labelFrom next
    let (label, next) := claimLabel info.label next
    (.mk { info with label } kind slots, next)

def Slots.labelFrom : {fields : List Field} → Slots fields → Nat → Slots fields × Nat
  | _, .nil, next => (.nil, next)
  | _, .cons slot rest, next =>
    let (slot, next) := slot.labelFrom next
    let (rest, next) := rest.labelFrom next
    (.cons slot rest, next)

def Slot.labelFrom : {shape : Shape} → Slot shape → Nat → Slot shape × Nat
  | _, .node child, next =>
    let (child, next) := child.labelFrom next
    (.node child, next)
  | _, .optNode none, next => (.optNode none, next)
  | _, .optNode (some child), next =>
    let (child, next) := child.labelFrom next
    (.optNode (some child), next)
  | _, .token child, next =>
    let (child, next) := child.labelFrom next
    (.token child, next)
  | _, .optToken none, next => (.optToken none, next)
  | _, .optToken (some child), next =>
    let (child, next) := child.labelFrom next
    (.optToken (some child), next)
  | _, .nodes children, next =>
    let (children, next) := labelNodesFrom children next
    (.nodes children, next)
  | _, .tokens children, next =>
    let (children, next) := labelTokensFrom children next
    (.tokens children, next)
  | _, .separated ⟨elements, separators⟩, next =>
    let (elements, next) := labelNodesFrom elements next
    let (separators, next) := labelTokensFrom separators next
    (.separated ⟨elements, separators⟩, next)

def labelNodesFrom : List Node → Nat → List Node × Nat
  | [], next => ([], next)
  | node :: rest, next =>
    let (node, next) := node.labelFrom next
    let (rest, next) := labelNodesFrom rest next
    (node :: rest, next)

def Token.labelFrom : Token → Nat → Token × Nat
  | .mk label kind text leading trailing, next =>
    let (leading, next) := labelTriviaFrom leading next
    let (trailing, next) := labelTriviaFrom trailing next
    let (label, next) := claimLabel label next
    (.mk label kind text leading trailing, next)

def labelTokensFrom : List Token → Nat → List Token × Nat
  | [], next => ([], next)
  | token :: rest, next =>
    let (token, next) := token.labelFrom next
    let (rest, next) := labelTokensFrom rest next
    (token :: rest, next)

def Trivia.labelFrom : Trivia → Nat → Trivia × Nat
  | .mk label kind text none, next =>
    let (label, next) := claimLabel label next
    (.mk label kind text none, next)
  | .mk label kind text (some inner), next =>
    let (inner, next) := inner.labelFrom next
    let (label, next) := claimLabel label next
    (.mk label kind text (some inner), next)

def labelTriviaFrom : List Trivia → Nat → List Trivia × Nat
  | [], next => ([], next)
  | trivia :: rest, next =>
    let (trivia, next) := trivia.labelFrom next
    let (rest, next) := labelTriviaFrom rest next
    (trivia :: rest, next)

end

/-- Values whose objects can be given labels. -/
class Labelled (α : Type) where
  labelFrom : α → Nat → α × Nat

instance : Labelled Node := ⟨Node.labelFrom⟩
instance : Labelled Token := ⟨Token.labelFrom⟩
instance : Labelled Trivia := ⟨Trivia.labelFrom⟩
instance : Labelled (List Node) := ⟨labelNodesFrom⟩
instance : Labelled (List Token) := ⟨labelTokensFrom⟩
instance : Labelled (List Trivia) := ⟨labelTriviaFrom⟩

instance : Labelled (Separated Node Token) where
  labelFrom list next :=
    let (elements, next) := labelNodesFrom list.elements next
    let (separators, next) := labelTokensFrom list.separators next
    (⟨elements, separators⟩, next)

/-- For each node of `result`, root first: does that very object occur in `source`? -/
def Node.sharedWith (result source : Node) : List Bool :=
  let known := source.preorder
  result.preorder.map fun node => known.any node.same

end SourceTree
