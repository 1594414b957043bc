import SourceTree.View

/-!
The views of a tree agree. Each view is gathered from the direct children of a node in
document order. So the nodes taken off the stack are those of the recursive enumeration, the
first token is the first of all tokens, and the text of a tree is the texts of its tokens,
each with its trivia.
-/
namespace SourceTree

/-! ### Lists of children -/

theorem tokensAll_eq_flatMap (nodes : List Node) : tokensAll nodes = nodes.flatMap Node.tokens := by
  induction nodes with
  | nil => rfl
  | cons node nodes ih => rw [tokensAll, ih, List.flatMap_cons]

theorem preorderAll_eq_flatMap (nodes : List Node) :
    preorderAll nodes = nodes.flatMap Node.preorder := by
  induction nodes with
  | nil => rfl
  | cons node nodes ih => rw [preorderAll, ih, List.flatMap_cons]

theorem nodeTexts_eq_map (nodes : List Node) : nodeTexts nodes = nodes.map Node.text := by
  induction nodes with
  | nil => rfl
  | cons node nodes ih => rw [nodeTexts, ih, List.map_cons]

theorem tokenTexts_eq_map (tokens : List Token) :
    tokenTexts tokens = tokens.map Token.fullText := by
  induction tokens with
  | nil => rfl
  | cons token tokens ih => rw [tokenTexts, ih, List.map_cons]

theorem triviaTexts_eq_map (trivias : List Trivia) :
    triviaTexts trivias = trivias.map Trivia.fullText := by
  induction trivias with
  | nil => rfl
  | cons trivia trivias ih => rw [triviaTexts, ih, List.map_cons]

/-- Separators without an element in front of them do not appear. -/
theorem Separated.weave_take {α : Type} (as bs : List α) :
    Separated.weave as (bs.take as.length) = Separated.weave as bs := by
  induction as generalizing bs with
  | nil => rfl
  | cons a as ih =>
    cases bs with
    | nil => rfl
    | cons b bs => rw [List.length_cons, List.take_succ_cons, weave, weave, ih]

/-! ### Nodes -/

theorem Slot.preorder_eq {shape : Shape} (slot : Slot shape) :
    slot.preorder = (slot.elements.filterMap Element.node?).flatMap Node.preorder := by
  cases slot with
  | optNode child => cases child <;> simp [Slot.preorder]
  | node | token | optToken | tokens => simp [Slot.preorder]
  | nodes | separated => simp [Slot.preorder, preorderAll_eq_flatMap]

theorem Slots.preorder_eq {fields : List Field} (slots : Slots fields) :
    slots.preorder = (slots.elements.filterMap Element.node?).flatMap Node.preorder := by
  cases slots with
  | nil => rfl
  | cons slot rest =>
    rw [Slots.preorder, Slots.elements, List.filterMap_append, List.flatMap_append,
      slot.preorder_eq, Slots.preorder_eq rest]

theorem Node.preorder_eq (node : Node) :
    node.preorder = node :: node.children.flatMap Node.preorder := by
  cases node with
  | mk info kind slots =>
    rw [Node.preorder, slots.preorder_eq]
    rfl

/-- The stack gives out each tree on it in full before it comes to the next. -/
theorem unstack_eq_flatMap (stack : List Node) : unstack stack = stack.flatMap Node.preorder := by
  induction stack using unstack.induct with
  | case1 => simp [unstack]
  | case2 node rest ih =>
    rw [unstack, ih, List.flatMap_append, List.flatMap_cons, node.preorder_eq, List.cons_append]

theorem Node.preorder_eq_cons (node : Node) : node.preorder = node :: node.descendants := by
  rw [node.preorder_eq, Node.descendants, unstack_eq_flatMap]

theorem Node.size_le_sizeAll {nodes : List Node} {node : Node} (h : node ∈ nodes) :
    node.size ≤ sizeAll nodes := by
  induction nodes with
  | nil => cases h
  | cons first rest ih =>
    rw [sizeAll]
    rcases List.mem_cons.1 h with rfl | h
    · exact Nat.le_add_right _ _
    · exact Nat.le_trans (ih h) (Nat.le_add_left _ _)

theorem Node.size_lt_of_mem_children {node child : Node} (h : child ∈ node.children) :
    child.size < node.size := by
  have hle := Node.size_le_sizeAll h
  have hsize := node.sizeAll_children
  omega

/-- What holds of a node when it holds of its children holds of every node. -/
theorem Node.childInduction {motive : Node → Prop}
    (step : ∀ node : Node, (∀ child ∈ node.children, motive child) → motive node)
    (node : Node) : motive node :=
  step node fun child _ => Node.childInduction step child
termination_by node.size
decreasing_by exact Node.size_lt_of_mem_children ‹_›

/-! ### Tokens -/

mutual

theorem Node.firstToken?_eq : (node : Node) → node.firstToken? = node.tokens.head?
  | .mk _ _ slots => Slots.firstToken?_eq slots

theorem Slots.firstToken?_eq : {fields : List Field} → (slots : Slots fields) →
    slots.firstToken? = slots.tokens.head?
  | _, .nil => rfl
  | _, .cons slot rest => by
    rw [Slots.firstToken?, Slots.tokens, List.head?_append, Slot.firstToken?_eq slot,
      Slots.firstToken?_eq rest, Option.orElse_eq_orElse, Option.orElse_eq_or]

theorem Slot.firstToken?_eq : {shape : Shape} → (slot : Slot shape) →
    slot.firstToken? = slot.tokensIn.head?
  | _, .node child => Node.firstToken?_eq child
  | _, .optNode none => rfl
  | _, .optNode (some child) => Node.firstToken?_eq child
  | _, .token _ => rfl
  | _, .optToken none => rfl
  | _, .optToken (some _) => rfl
  | _, .nodes children => firstTokenOf?_eq children
  | _, .tokens _ => rfl
  | _, .separated ⟨elements, separators⟩ => firstTokenBetween?_eq elements separators

theorem firstTokenOf?_eq : (nodes : List Node) → firstTokenOf? nodes = (tokensAll nodes).head?
  | [] => rfl
  | node :: rest => by
    rw [firstTokenOf?, tokensAll, List.head?_append, Node.firstToken?_eq node,
      firstTokenOf?_eq rest, Option.orElse_eq_orElse, Option.orElse_eq_or]

theorem firstTokenBetween?_eq : (elements : List Node) → (separators : List Token) →
    firstTokenBetween? elements separators = (tokensBetween elements separators).head?
  | [], _ => rfl
  | element :: rest, [] => by
    rw [firstTokenBetween?, tokensBetween, List.head?_append, Node.firstToken?_eq element,
      firstTokenBetween?_eq rest [], Option.orElse_eq_orElse, Option.orElse_eq_or]
  | element :: rest, separator :: separators => by
    rw [firstTokenBetween?, tokensBetween, List.head?_append, Node.firstToken?_eq element,
      List.head?_cons, Option.orElse_eq_orElse, Option.orElse_eq_or]

end

/-! ### Text -/

mutual

theorem Node.text_eq_join : (node : Node) →
    node.text = String.join (node.tokens.map Token.fullText)
  | .mk _ _ slots => Slots.text_eq_join slots

theorem Slots.text_eq_join : {fields : List Field} → (slots : Slots fields) →
    slots.text = String.join (slots.tokens.map Token.fullText)
  | _, .nil => rfl
  | _, .cons slot rest => by
    rw [Slots.text, Slots.tokens, List.map_append, String.join_append, Slot.text_eq_join slot,
      Slots.text_eq_join rest]

theorem Slot.text_eq_join : {shape : Shape} → (slot : Slot shape) →
    slot.text = String.join (slot.tokensIn.map Token.fullText)
  | _, .node child => Node.text_eq_join child
  | _, .optNode none => rfl
  | _, .optNode (some child) => Node.text_eq_join child
  | _, .token child => by simp [Slot.text, Slot.tokensIn]
  | _, .optToken none => rfl
  | _, .optToken (some child) => by simp [Slot.text, Slot.tokensIn]
  | _, .nodes children => join_nodeTexts children
  | _, .tokens children => by rw [Slot.text, Slot.tokensIn, tokenTexts_eq_map]
  | _, .separated ⟨elements, separators⟩ => join_weave_texts elements separators

theorem join_nodeTexts : (nodes : List Node) →
    String.join (nodeTexts nodes) = String.join ((tokensAll nodes).map Token.fullText)
  | [] => rfl
  | node :: rest => by
    rw [nodeTexts, tokensAll, List.map_append, String.join_append, String.join_cons,
      Node.text_eq_join node, join_nodeTexts rest]

theorem join_weave_texts : (elements : List Node) → (separators : List Token) →
    String.join (Separated.weave (nodeTexts elements) (tokenTexts separators)) =
      String.join ((tokensBetween elements separators).map Token.fullText)
  | [], _ => rfl
  | element :: rest, [] => by
    rw [nodeTexts, tokenTexts, Separated.weave, tokensBetween, List.map_append,
      String.join_append, String.join_cons, Node.text_eq_join element, ← join_weave_texts rest []]
    rfl
  | element :: rest, separator :: separators => by
    rw [nodeTexts, tokenTexts, Separated.weave, tokensBetween, List.map_append, List.map_cons,
      String.join_append, String.join_cons, String.join_cons, String.join_cons,
      Node.text_eq_join element, join_weave_texts rest separators]

end

end SourceTree
