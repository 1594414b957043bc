import Mathlib.Data.List.Basic
import SourceTree.Proofs.View

/-!
The enumerations of a tree, all told by what the fields of a node hold. The loop over a stack gives
the nodes below a node as the recursion does, with one round for each of them. Tokens and text are
gathered from the fields in order, and the text of a tree is the texts of its tokens. A separated
list has each element with the separator of its index behind it, and nothing else.
-/
namespace SourceTree

/-! ### Separated lists -/

namespace Separated

variable {α β : Type}

/-- Each element, and behind it the separator with its index, if there is one. -/
def byIndex (list : Separated α β) : List (α ⊕ β) :=
  list.elements.zipIdx.flatMap fun entry =>
    .inl entry.1 :: (list.separators[entry.2]?).toList.map .inr

theorem byIndex_cons (a : α) (as : List α) (bs : List β) :
    byIndex ⟨a :: as, bs⟩ = .inl a :: (bs.head?.toList.map .inr ++ byIndex ⟨as, bs.tail⟩) := by
  simp only [byIndex, List.zipIdx_cons, List.flatMap_cons, List.cons_append, List.head?_eq_getElem?,
    Nat.zero_add, List.zipIdx_succ, List.flatMap_map, List.getElem?_tail]

theorem inOrder_eq_byIndex (list : Separated α β) : list.inOrder = list.byIndex := by
  obtain ⟨as, bs⟩ := list
  rw [inOrder]
  induction as generalizing bs with
  | nil => rfl
  | cons a as ih =>
    rw [byIndex_cons, ← ih]
    cases bs with
    | nil => rfl
    | cons b bs => rfl

end Separated

/-! ### Fields -/

/-- What a field holds, in document order. A separator whose index no element has is left out. -/
def Slot.parts : {shape : Shape} → Slot shape → List Element
  | _, .node child => [.node child]
  | _, .optNode child => child.toList.map .node
  | _, .token child => [.token child]
  | _, .optToken child => child.toList.map .token
  | _, .nodes children => children.map .node
  | _, .tokens children => children.map .token
  | _, .separated children => children.byIndex.map .ofSum

/-- What the fields of a node hold, one field of its kind after another. -/
def Node.parts (node : Node) : List Element :=
  node.kind.fields.flatMap fun field => (node.get? field).elim [] Slot.parts

theorem Kind.nodup_fields (kind : Kind) : kind.fields.Nodup := by
  cases kind <;> decide

theorem Slot.elements_eq_parts {shape : Shape} (slot : Slot shape) :
    slot.elements = slot.parts := by
  cases slot with
  | separated children => rw [Slot.elements, Slot.parts, children.inOrder_eq_byIndex]
  | node | optNode | token | optToken | nodes | tokens => rfl

/-- Each field is found under its name, as no two fields are the same. -/
theorem Slots.elements_eq_flatMap {fields : List Field} (slots : Slots fields)
    (distinct : fields.Nodup) :
    slots.elements = fields.flatMap fun field => (slots.get? field).elim [] Slot.parts := by
  cases slots with
  | nil => rfl
  | @cons field fields slot rest =>
    obtain ⟨hnew, hrest⟩ := List.nodup_cons.mp distinct
    have hlater : ∀ other ∈ fields, (Slots.cons slot rest).get? other = rest.get? other := by
      intro other hother
      have hne : field ≠ other := fun heq => hnew (heq ▸ hother)
      rw [Slots.get?, dif_neg hne]
    rw [Slots.elements, List.flatMap_cons, slot.elements_eq_parts,
      Slots.elements_eq_flatMap rest hrest, Slots.get?, dif_pos rfl]
    congr 1
    exact List.flatMap_congr fun other hother => by rw [hlater other hother]

theorem Node.elements_eq_parts (node : Node) : node.elements = node.parts := by
  cases node with
  | mk info kind slots => exact slots.elements_eq_flatMap kind.nodup_fields

/-! ### Tokens -/

/-- The tokens of a direct child: its own if it is a node, else the child itself. -/
def Element.tokens : Element → List Token
  | .node child => child.tokens
  | .token child => [child]

theorem tokensBetween_eq_flatMap (elements : List Node) (separators : List Token) :
    tokensBetween elements separators =
      ((Separated.interleave elements separators).map Element.ofSum).flatMap Element.tokens := by
  induction elements generalizing separators with
  | nil => rfl
  | cons element elements ih =>
    cases separators with
    | nil => rw [tokensBetween, ih]; rfl
    | cons separator separators => rw [tokensBetween, ih]; rfl

theorem Slot.tokensIn_eq_flatMap {shape : Shape} (slot : Slot shape) :
    slot.tokensIn = slot.elements.flatMap Element.tokens := by
  cases slot with
  | node child => simp [Slot.tokensIn, Slot.elements, Element.tokens]
  | optNode child => cases child <;> simp [Slot.tokensIn, Slot.elements, Element.tokens]
  | token child => rfl
  | optToken child => cases child <;> rfl
  | nodes children =>
    rw [Slot.tokensIn, Slot.elements, tokensAll_eq_flatMap, List.flatMap_map]
    rfl
  | tokens children =>
    rw [Slot.tokensIn, Slot.elements, List.flatMap_map]
    exact (List.flatMap_singleton' children).symm
  | separated children => exact tokensBetween_eq_flatMap children.elements children.separators

theorem Slots.tokens_eq_flatMap {fields : List Field} (slots : Slots fields) :
    slots.tokens = slots.elements.flatMap Element.tokens := by
  cases slots with
  | nil => rfl
  | cons slot rest =>
    rw [Slots.tokens, Slots.elements, List.flatMap_append, slot.tokensIn_eq_flatMap,
      Slots.tokens_eq_flatMap rest]

theorem Node.tokens_eq_flatMap (node : Node) :
    node.tokens = node.elements.flatMap Element.tokens := by
  cases node with
  | mk info kind slots => exact slots.tokens_eq_flatMap

/-! ### Text -/

/-- The text of a direct child, trivia included. -/
def Element.text : Element → String
  | .node child => child.text
  | .token child => child.fullText

theorem Element.text_eq_join (element : Element) :
    element.text = String.join (element.tokens.map Token.fullText) := by
  cases element with
  | node child => exact child.text_eq_join
  | token child => simp [Element.text, Element.tokens]

theorem Node.text_eq_elements (node : Node) :
    node.text = String.join (node.elements.map Element.text) := by
  rw [node.text_eq_join, node.tokens_eq_flatMap]
  induction node.elements with
  | nil => rfl
  | cons element elements ih =>
    rw [List.flatMap_cons, List.map_append, String.join_append, ih, List.map_cons, String.join_cons,
      element.text_eq_join]

/-! ### Nodes -/

theorem Node.descendants_eq_flatMap (node : Node) :
    node.descendants = node.children.flatMap fun child => child :: child.descendants := by
  rw [Node.descendants, unstack_eq_flatMap]
  exact List.flatMap_congr fun child _ => child.preorder_eq_cons

/-- The equation leaves no choice. -/
theorem Node.eq_descendants {enumerate : Node → List Node}
    (h : ∀ node, enumerate node = node.children.flatMap fun child => child :: enumerate child)
    (node : Node) : enumerate node = node.descendants := by
  induction node using Node.childInduction with
  | step node ih =>
    rw [h, node.descendants_eq_flatMap]
    exact List.flatMap_congr fun child hchild => by rw [ih child hchild]

/-- The loop has one round for each node that comes off the stack. -/
theorem length_unstack (stack : List Node) : (unstack stack).length = sizeAll stack := by
  induction stack using unstack.induct with
  | case1 => simp [unstack, sizeAll]
  | case2 node rest ih =>
    have hsize := node.sizeAll_children
    rw [unstack, List.length_cons, ih, sizeAll_append, sizeAll]
    omega

theorem Node.length_descendants (node : Node) : node.descendants.length + 1 = node.size := by
  rw [Node.descendants, length_unstack, node.sizeAll_children]

/-! ### All of them -/

/-- The enumerations of a tree agree. The nodes from the stack are those of the recursion over
direct children, which has no other solution. The direct children, the tokens and the text are
those of what the fields hold, one field after another, where a separator stands behind the element
of its index only. The first token is the first of all tokens, and the text is the texts of all
tokens. -/
theorem Node.enumerations_agree (node : Node) :
    (node.descendants = (node.children.flatMap fun child => child :: child.descendants) ∧
      (∀ enumerate : Node → List Node,
        (∀ other, enumerate other = other.children.flatMap fun child => child :: enumerate child) →
          enumerate node = node.descendants) ∧
      node.descendants.length + 1 = node.size) ∧
    (node.children = node.parts.filterMap Element.node? ∧
      node.tokens = node.parts.flatMap Element.tokens ∧
      node.text = String.join (node.parts.map Element.text)) ∧
    (node.firstToken? = node.tokens.head? ∧ (node.firstToken? = none ↔ node.tokens = [])) ∧
    node.text = String.join (node.tokens.map Token.fullText) := by
  refine ⟨⟨node.descendants_eq_flatMap, fun _ h => Node.eq_descendants h node,
    node.length_descendants⟩, ?_, ⟨node.firstToken?_eq, ?_⟩, node.text_eq_join⟩
  · rw [← node.elements_eq_parts]
    exact ⟨rfl, node.tokens_eq_flatMap, node.text_eq_elements⟩
  · rw [node.firstToken?_eq, List.head?_eq_none_iff]

end SourceTree
