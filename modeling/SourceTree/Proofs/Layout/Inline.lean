import Mathlib.Tactic.CasesM
import SourceTree.Proofs.Layout.Agreement
import SourceTree.Proofs.Layout.Essence

/-!
Texts within a line. They are put together from the texts of tokens, so a tree keeps them if its
tokens keep their texts, whatever happens to the trivia.
-/
namespace SourceTree.Layout

/-- The texts that a slot gives to a line. -/
def words : SlotLook → List String
  | .node child => [child.inline]
  | .optNode child => child.toList.map Look.inline
  | .token child => [child.text]
  | .optToken child => child.toList.map TokenLook.text
  | .nodes children => children.map Look.inline
  | .tokens children => children.map TokenLook.text
  | .separated children _ => children.map Look.inline

theorem modifierText_eq (modifiers : List TokenLook) :
    modifierText modifiers = String.join ((modifiers.map TokenLook.text).map (· ++ " ")) := by
  rw [modifierText, List.map_map]
  rfl

theorem optText_eq (lead : String) (child : Option Look) :
    optText lead child = String.join ((child.toList.map Look.inline).map (lead ++ ·)) := by
  cases child <;> simp [optText]

theorem optToken_eq (token : Option TokenLook) :
    optToken token = String.join ((token.toList.map TokenLook.text).map (· ++ " ")) := by
  cases token <;> simp [optToken]

theorem join_inline_eq (items : List Look) :
    String.join (items.map fun item => item.inline ++ " ") =
      String.join ((items.map Look.inline).map (· ++ " ")) := by
  rw [List.map_map]
  rfl

theorem slotLook_separated (children : Separated Node Token) :
    slotLook (.separated children) = .separated (looks children.elements) children.hasTrailing :=
  rfl

/-- What a node looks like within a line depends on the texts in its slots only. -/
theorem inlineText_congr {plain : String} {kind : Kind} {a b : Slots kind.fields}
    (h : (slotLooks a).map words = (slotLooks b).map words) :
    inlineText plain kind (slotLooks a) = inlineText plain kind (slotLooks b) := by
  by_cases hline : place kind = .line
  · cases kind
    all_goals try cases hline
    all_goals cases_type* Slots Slot
    all_goals
      simp only [slotLooks, slotLook_node, slotLook_optNode, slotLook_token, slotLook_optToken,
        slotLook_nodes, slotLook_tokens, slotLook_separated, List.map_cons, List.map_nil, words,
        List.cons.injEq, and_true] at h
      simp only [slotLooks, slotLook_node, slotLook_optNode, slotLook_token, slotLook_optToken,
        slotLook_nodes, slotLook_tokens, slotLook_separated, inlineText.eq_def, commaText,
        modifierText_eq, optText_eq, optToken_eq, join_inline_eq, h]
  · rw [inlineText_of_place hline, inlineText_of_place hline]

section MapTokens

variable {f : Token → Token}

mutual

/-- Trivia make no difference within a line. -/
theorem inline_mapTokens (h : ∀ token, (f token).text = token.text) : (node : Node) →
    (look (node.mapTokens f)).inline = (look node).inline
  | .mk info kind slots => by
    have hspaced := spaced_mapTokens h (.mk info kind slots)
    rw [Node.mapTokens] at hspaced
    simp only [Node.mapTokens, look, Look.ofSlots, hspaced]
    exact inlineText_congr (words_mapTokens h slots)

theorem words_mapTokens (h : ∀ token, (f token).text = token.text) : {fields : List Field} →
    (slots : Slots fields) → (slotLooks (slots.mapTokens f)).map words = (slotLooks slots).map words
  | _, .nil => rfl
  | _, .cons slot rest => by
    rw [Slots.mapTokens, slotLooks, slotLooks, List.map_cons, List.map_cons,
      words_slot_mapTokens h slot, words_mapTokens h rest]

theorem words_slot_mapTokens (h : ∀ token, (f token).text = token.text) : {shape : Shape} →
    (slot : Slot shape) → words (slotLook (slot.mapTokens f)) = words (slotLook slot)
  | _, .node child => congrArg ([·]) (inline_mapTokens h child)
  | _, .optNode none => rfl
  | _, .optNode (some child) => congrArg ([·]) (inline_mapTokens h child)
  | _, .token child => congrArg ([·]) (h child)
  | _, .optToken none => rfl
  | _, .optToken (some child) => congrArg ([·]) (h child)
  | _, .nodes children => map_inline_mapTokens h children
  | _, .tokens children => by
    simp only [Slot.mapTokens, slotLook_tokens, words, List.map_map, Function.comp_def,
      text_tokenLook, h]
  | _, .separated ⟨elements, _⟩ => map_inline_mapTokens h elements

theorem map_inline_mapTokens (h : ∀ token, (f token).text = token.text) : (nodes : List Node) →
    (looks (mapTokensAll f nodes)).map Look.inline = (looks nodes).map Look.inline
  | [] => rfl
  | node :: rest => by
    rw [mapTokensAll, looks, looks, List.map_cons, List.map_cons, inline_mapTokens h node,
      map_inline_mapTokens h rest]

end

theorem slotLook_mapTokens_optNode (child : Option Node) :
    slotLook ((Slot.optNode child).mapTokens f) =
      .optNode ((child.map (Node.mapTokens f)).map look) := by
  cases child <;> rfl

theorem slotLook_mapTokens_separated (children : Separated Node Token) :
    slotLook ((Slot.separated children).mapTokens f) =
      .separated (looks (mapTokensAll f children.elements)) children.hasTrailing := by
  rw [Slot.mapTokens, slotLook_separated, hasTrailing_mapTokens]

theorem modifierText_mapTokens (h : ∀ token, (f token).text = token.text) (modifiers : List Token) :
    modifierText ((modifiers.map f).map tokenLook) = modifierText (modifiers.map tokenLook) := by
  simp only [modifierText_eq, List.map_map, Function.comp_def, text_tokenLook, h]

theorem optText_mapTokens (h : ∀ token, (f token).text = token.text) (lead : String)
    (child : Option Node) :
    optText lead ((child.map (Node.mapTokens f)).map look) = optText lead (child.map look) := by
  cases child with
  | none => rfl
  | some child => exact congrArg (lead ++ ·) (inline_mapTokens h child)

theorem typeHeader_mapTokens (h : ∀ token, (f token).text = token.text) (modifiers : List Token)
    (keyword identifier : Token) (typeParameters baseList : Option Node) :
    typeHeader ((modifiers.map f).map tokenLook) (tokenLook (f keyword)) (tokenLook (f identifier))
        ((typeParameters.map (Node.mapTokens f)).map look)
        ((baseList.map (Node.mapTokens f)).map look) =
      typeHeader (modifiers.map tokenLook) (tokenLook keyword) (tokenLook identifier)
        (typeParameters.map look) (baseList.map look) := by
  simp only [typeHeader, modifierText_mapTokens h, optText_mapTokens h, text_tokenLook, h]

end MapTokens

end SourceTree.Layout
