import SourceTree.Traversal.Plan

/-!
What a traversal does where no hook decides. Each walk asks for the visit of the next
smaller parts, in document order, and puts the answers together. An object is rebuilt only
if one of its parts came back as another object; otherwise it is returned itself.
-/
namespace SourceTree

variable {σ : Type}

/-! ### Lists -/

/-- Visits every node of a list and leaves out the removed ones. -/
def walkNodes : List Node → Plan σ (List Node)
  | [] => pure []
  | node :: rest => do
    let node ← Plan.visit .node node
    let rest ← walkNodes rest
    return node.toList ++ rest

def walkTokens : List Token → Plan σ (List Token)
  | [] => pure []
  | token :: rest => do
    let token ← Plan.visit .token token
    let rest ← walkTokens rest
    return token.toList ++ rest

def walkTrivias : List Trivia → Plan σ (List Trivia)
  | [] => pure []
  | trivia :: rest => do
    let trivia ← Plan.visit .trivia trivia
    let rest ← walkTrivias rest
    return trivia.toList ++ rest

def visitOptNode : Option Node → Plan σ (Option Node)
  | none => pure none
  | some node => Plan.visit .node node

def visitOptToken : Option Token → Plan σ (Option Token)
  | none => pure none
  | some token => Plan.visit .token token

/-- Visits each element and then the separator behind it. A removed element takes that
separator with it. -/
def walkPairs : List Node → List Token → Plan σ (List (Node × Option Token))
  | [], _ => pure []
  | element :: elements, separators => do
    let element ← Plan.visit .node element
    let separator ← visitOptToken separators.head?
    let rest ← walkPairs elements separators.tail
    return (element.map fun element => (element, separator)).toList ++ rest

/-- Takes the separator off the last pair. -/
def openEnd {α β : Type} : List (α × Option β) → List (α × Option β)
  | [] => []
  | [(a, _)] => [(a, none)]
  | pair :: next :: rest => pair :: openEnd (next :: rest)

def ofPairs {α β : Type} (pairs : List (α × Option β)) : Separated α β :=
  { elements := pairs.map Prod.fst, separators := pairs.filterMap Prod.snd }

/-- Only a list that had a trailing separator ends in one. -/
def walkSeparated (list : Separated Node Token) : Plan σ (Separated Node Token) := do
  let pairs ← walkPairs list.elements list.separators
  return ofPairs (if list.hasTrailing then pairs else openEnd pairs)

/-! ### Trivia and tokens -/

/-- Enters the tree of a structured piece of trivia; when that tree goes, so does the trivia. -/
def walkTrivia (structured : Bool) (trivia : Trivia) : Plan σ (Option Trivia) :=
  match trivia.inner with
  | some inner =>
    if structured then do
      match ← Plan.visit .node inner with
      | none => return none
      | some result => return some (if inner.same result then trivia else trivia.withInner result)
    else pure (some trivia)
  | none => pure (some trivia)

/-- Visits the trivia in front of a token and then the trivia behind it. -/
def walkToken (token : Token) : Plan σ (Option Token) := do
  let leading ← Plan.visit .trivias token.leading
  let trailing ← Plan.visit .trivias token.trailing
  if sameAll Trivia.same token.leading leading && sameAll Trivia.same token.trailing trailing then
    return some token
  else
    return some (.mk none token.kind token.text leading trailing)

/-! ### Nodes -/

/-- The content of one field; `parent` and `name` say where a required child went missing. -/
def walkSlot (parent : Kind) (name : String) : {shape : Shape} → Slot shape → Plan σ (Slot shape)
  | _, .node child => do
    match ← Plan.visit .node child with
    | some child => return .node child
    | none => .fail (.missingChild parent name)
  | _, .optNode child => do
    let child ← visitOptNode child
    return .optNode child
  | _, .token child => do
    match ← Plan.visit .token child with
    | some child => return .token child
    | none => .fail (.missingChild parent name)
  | _, .optToken child => do
    let child ← visitOptToken child
    return .optToken child
  | _, .nodes children => do
    let children ← Plan.visit .nodes children
    return .nodes children
  | _, .tokens children => do
    let children ← Plan.visit .tokens children
    return .tokens children
  | _, .separated children => do
    let children ← Plan.visit .separated children
    return .separated children

def walkSlots (parent : Kind) : {fields : List Field} → Slots fields → Plan σ (Slots fields)
  | _, .nil => pure .nil
  | field :: _, .cons slot rest => do
    let slot ← walkSlot parent field.name slot
    let rest ← walkSlots parent rest
    return .cons slot rest

/-- Walks the fields in order. -/
def walkNode (node : Node) : Plan σ (Option Node) := do
  let slots ← walkSlots node.kind node.slots
  return some (if node.slots.same slots then node else node.rebuild slots)

/-- The walk of any part. -/
def walkPart (structured : Bool) : (part : Part) → part.Value → Plan σ part.Result
  | .node => walkNode
  | .token => walkToken
  | .trivia => walkTrivia structured
  | .nodes => walkNodes
  | .separated => walkSeparated
  | .tokens => walkTokens
  | .trivias => walkTrivias

end SourceTree
