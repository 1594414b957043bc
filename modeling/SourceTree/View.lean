import SourceTree.Tree

/-!
Ways to look at a tree. `elements` lists the direct children of a node in document order;
`tokens` and `preorder` list what lies below it. None of these enters trivia. `text` prints
a tree exactly as it is: the trivia in front of each token, the token, the trivia behind it.
-/
namespace SourceTree

inductive Element where
  | node (child : Node)
  | token (child : Token)

namespace Element

def node? : Element → Option Node
  | .node child => some child
  | .token _ => none

def ofSum : Node ⊕ Token → Element
  | .inl child => .node child
  | .inr child => .token child

end Element

def Slot.elements : {shape : Shape} → Slot shape → List Element
  | _, .node child => [.node child]
  | _, .optNode child => child.toList.map .node
  | _, .token child => [.token child]
  | _, .optToken child => child.toList.map .token
  | _, .nodes children => children.map .node
  | _, .tokens children => children.map .token
  | _, .separated children => children.inOrder.map .ofSum

def Slots.elements : {fields : List Field} → Slots fields → List Element
  | _, .nil => []
  | _, .cons slot rest => slot.elements ++ rest.elements

/-- The direct children. -/
def Node.elements (node : Node) : List Element := node.slots.elements

def Node.children (node : Node) : List Node := node.elements.filterMap Element.node?

/-! ### Tokens -/

mutual

/-- Every token below a node, in document order. -/
def Node.tokens : Node → List Token
  | .mk _ _ slots => slots.tokens

def Slots.tokens : {fields : List Field} → Slots fields → List Token
  | _, .nil => []
  | _, .cons slot rest => slot.tokensIn ++ rest.tokens

def Slot.tokensIn : {shape : Shape} → Slot shape → List Token
  | _, .node child => child.tokens
  | _, .optNode none => []
  | _, .optNode (some child) => child.tokens
  | _, .token child => [child]
  | _, .optToken child => child.toList
  | _, .nodes children => tokensAll children
  | _, .tokens children => children
  | _, .separated ⟨elements, separators⟩ => tokensBetween elements separators

def tokensAll : List Node → List Token
  | [] => []
  | node :: rest => node.tokens ++ tokensAll rest

def tokensBetween : List Node → List Token → List Token
  | [], _ => []
  | node :: rest, [] => node.tokens ++ tokensBetween rest []
  | node :: rest, token :: tokens => node.tokens ++ token :: tokensBetween rest tokens

end

mutual

/-- The token that comes first in the text, found without listing the others. -/
def Node.firstToken? : Node → Option Token
  | .mk _ _ slots => slots.firstToken?

def Slots.firstToken? : {fields : List Field} → Slots fields → Option Token
  | _, .nil => none
  | _, .cons slot rest => slot.firstToken? <|> rest.firstToken?

def Slot.firstToken? : {shape : Shape} → Slot shape → Option Token
  | _, .node child => child.firstToken?
  | _, .optNode none => none
  | _, .optNode (some child) => child.firstToken?
  | _, .token child => some child
  | _, .optToken child => child
  | _, .nodes children => firstTokenOf? children
  | _, .tokens children => children.head?
  | _, .separated ⟨elements, separators⟩ => firstTokenBetween? elements separators

def firstTokenOf? : List Node → Option Token
  | [] => none
  | node :: rest => node.firstToken? <|> firstTokenOf? rest

def firstTokenBetween? : List Node → List Token → Option Token
  | [], _ => none
  | node :: rest, [] => node.firstToken? <|> firstTokenBetween? rest []
  | node :: _, token :: _ => node.firstToken? <|> some token

end

/-! ### Nodes -/

mutual

/-- A node and all nodes below it, each before the nodes below it. -/
def Node.preorder : Node → List Node
  | .mk info kind slots => .mk info kind slots :: slots.preorder

def Slots.preorder : {fields : List Field} → Slots fields → List Node
  | _, .nil => []
  | _, .cons slot rest => slot.preorder ++ rest.preorder

def Slot.preorder : {shape : Shape} → Slot shape → List Node
  | _, .node child => child.preorder
  | _, .optNode none => []
  | _, .optNode (some child) => child.preorder
  | _, .token _ => []
  | _, .optToken _ => []
  | _, .nodes children => preorderAll children
  | _, .tokens _ => []
  | _, .separated ⟨elements, _⟩ => preorderAll elements

def preorderAll : List Node → List Node
  | [] => []
  | node :: rest => node.preorder ++ preorderAll rest

end

mutual

/-- The number of nodes in a tree. -/
def Node.size : Node → Nat
  | .mk _ _ slots => slots.size + 1

def Slots.size : {fields : List Field} → Slots fields → Nat
  | _, .nil => 0
  | _, .cons slot rest => slot.size + rest.size

def Slot.size : {shape : Shape} → Slot shape → Nat
  | _, .node child => child.size
  | _, .optNode none => 0
  | _, .optNode (some child) => child.size
  | _, .token _ => 0
  | _, .optToken _ => 0
  | _, .nodes children => sizeAll children
  | _, .tokens _ => 0
  | _, .separated ⟨elements, _⟩ => sizeAll elements

def sizeAll : List Node → Nat
  | [] => 0
  | node :: rest => node.size + sizeAll rest

end

theorem sizeAll_append (as bs : List Node) : sizeAll (as ++ bs) = sizeAll as + sizeAll bs := by
  induction as with
  | nil => simp [sizeAll]
  | cons a as ih => simp [sizeAll, ih, Nat.add_assoc]

@[simp] theorem Element.node?_node (child : Node) : (Element.node child).node? = some child := rfl

@[simp] theorem Element.node?_token (child : Token) : (Element.token child).node? = none := rfl

theorem filterMap_node?_map_node (nodes : List Node) :
    (nodes.map Element.node).filterMap Element.node? = nodes := by
  induction nodes with
  | nil => rfl
  | cons n ns ih => simp [ih]

theorem filterMap_node?_map_token (tokens : List Token) :
    (tokens.map Element.token).filterMap Element.node? = [] := by
  induction tokens with
  | nil => rfl
  | cons t ts ih => simp

theorem filterMap_node?_interleave (elements : List Node) (separators : List Token) :
    ((Separated.interleave elements separators).map Element.ofSum).filterMap Element.node? =
      elements := by
  induction elements generalizing separators with
  | nil => rfl
  | cons e es ih =>
    cases separators with
    | nil => simp [Separated.interleave, Element.ofSum, ih]
    | cons s ss => simp [Separated.interleave, Element.ofSum, List.filterMap_cons, ih]

/-! The nodes that a slot holds. -/

namespace Slot

@[simp] theorem filterMap_elements_node (child : Node) :
    (Slot.node child).elements.filterMap Element.node? = [child] := rfl

@[simp] theorem filterMap_elements_optNode (child : Option Node) :
    (Slot.optNode child).elements.filterMap Element.node? = child.toList :=
  filterMap_node?_map_node child.toList

@[simp] theorem filterMap_elements_token (child : Token) :
    (Slot.token child).elements.filterMap Element.node? = [] := rfl

@[simp] theorem filterMap_elements_optToken (child : Option Token) :
    (Slot.optToken child).elements.filterMap Element.node? = [] :=
  filterMap_node?_map_token child.toList

@[simp] theorem filterMap_elements_nodes (children : List Node) :
    (Slot.nodes children).elements.filterMap Element.node? = children :=
  filterMap_node?_map_node children

@[simp] theorem filterMap_elements_tokens (children : List Token) :
    (Slot.tokens children).elements.filterMap Element.node? = [] :=
  filterMap_node?_map_token children

@[simp] theorem filterMap_elements_separated (children : Separated Node Token) :
    (Slot.separated children).elements.filterMap Element.node? = children.elements :=
  filterMap_node?_interleave children.elements children.separators

end Slot

theorem Slot.sizeAll_elements {shape : Shape} (slot : Slot shape) :
    sizeAll (slot.elements.filterMap Element.node?) = slot.size := by
  cases slot with
  | optNode child => cases child <;> simp [Slot.size, sizeAll]
  | node | token | optToken | nodes | tokens | separated => simp [Slot.size, sizeAll]

theorem Slots.sizeAll_elements : {fields : List Field} → (slots : Slots fields) →
    sizeAll (slots.elements.filterMap Element.node?) = slots.size
  | _, .nil => by simp [Slots.elements, Slots.size, sizeAll]
  | _, .cons slot rest => by
    simp only [Slots.elements, Slots.size, List.filterMap_append, sizeAll_append]
    rw [slot.sizeAll_elements, Slots.sizeAll_elements rest]

theorem Node.sizeAll_children (node : Node) : sizeAll node.children + 1 = node.size := by
  cases node with
  | mk info kind slots =>
    rw [Node.size, ← slots.sizeAll_elements]
    rfl

/-- Takes nodes off a stack one by one and puts the children of each in its place. -/
def unstack : List Node → List Node
  | [] => []
  | node :: rest => node :: unstack (node.children ++ rest)
termination_by stack => sizeAll stack
decreasing_by
  have h := node.sizeAll_children
  rw [sizeAll_append, sizeAll]
  omega

/-- All nodes below a node, each before the nodes below it. -/
def Node.descendants (node : Node) : List Node := unstack node.children

/-! ### Text -/

mutual

/-- The text of a tree, trivia included. -/
def Node.text : Node → String
  | .mk _ _ slots => slots.text

def Slots.text : {fields : List Field} → Slots fields → String
  | _, .nil => ""
  | _, .cons slot rest => slot.text ++ rest.text

def Slot.text : {shape : Shape} → Slot shape → String
  | _, .node child => child.text
  | _, .optNode none => ""
  | _, .optNode (some child) => child.text
  | _, .token child => child.fullText
  | _, .optToken none => ""
  | _, .optToken (some child) => child.fullText
  | _, .nodes children => String.join (nodeTexts children)
  | _, .tokens children => String.join (tokenTexts children)
  | _, .separated ⟨elements, separators⟩ =>
    String.join (Separated.weave (nodeTexts elements) (tokenTexts separators))

def nodeTexts : List Node → List String
  | [] => []
  | node :: rest => node.text :: nodeTexts rest

/-- The text of a token with the trivia on both sides. -/
def Token.fullText : Token → String
  | .mk _ _ text leading trailing =>
    String.join (triviaTexts leading) ++ text ++ String.join (triviaTexts trailing)

def tokenTexts : List Token → List String
  | [] => []
  | token :: rest => token.fullText :: tokenTexts rest

/-- A structured piece of trivia prints its tree, any other its own text. -/
def Trivia.fullText : Trivia → String
  | .mk _ _ text none => text
  | .mk _ _ _ (some inner) => inner.text

def triviaTexts : List Trivia → List String
  | [] => []
  | trivia :: rest => trivia.fullText :: triviaTexts rest

end

end SourceTree
