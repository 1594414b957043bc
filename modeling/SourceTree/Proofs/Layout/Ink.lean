import SourceTree.Layout.Format
import SourceTree.Proofs.View

/-!
The ink of a text: what is left of it without the characters that only lay it out. Indentation
and line ends have no ink, so rendered lines have the ink of their texts. A tree whose tokens
carry no trivia has the ink of its tokens, and nothing that is kept in front of them.
-/
namespace SourceTree

namespace Layout

/-- Characters that lay out a text and say nothing. -/
def blanks : List Char := [' ', '\t', '\r', '\n']

def ink (text : String) : List Char := text.toList.filter fun c => !blanks.contains c

/-- The ink of lines one after the other. -/
def lineInk (lines : List Line) : List Char := lines.flatMap fun line => ink line.text

/-! ### Texts -/

@[simp] theorem ink_empty : ink "" = [] := rfl

@[simp] theorem ink_space : ink " " = [] := rfl

@[simp] theorem ink_append (a b : String) : ink (a ++ b) = ink a ++ ink b := by
  simp [ink]

@[simp] theorem ink_join (texts : List String) : ink (String.join texts) = texts.flatMap ink := by
  induction texts with
  | nil => rfl
  | cons text texts ih => rw [String.join_cons, ink_append, ih, List.flatMap_cons]

theorem ink_intercalate (separator : String) (texts : List String) :
    ink (String.intercalate separator texts) = (ink separator).intercalate (texts.map ink) := by
  induction texts with
  | nil => rfl
  | cons text texts ih =>
    cases texts with
    | nil => simp
    | cons next rest =>
      rw [String.intercalate_cons_cons, List.map_cons, List.map_cons,
        List.intercalate_cons_cons, ← List.map_cons, ← ih, ink_append, ink_append]

theorem intercalate_nil_eq_flatten {α : Type} (lists : List (List α)) :
    ([] : List α).intercalate lists = lists.flatten := by
  induction lists with
  | nil => rfl
  | cons list lists ih =>
    cases lists with
    | nil => simp
    | cons next rest => simp [List.intercalate_cons_cons, ih]

/-- Words one space apart. -/
theorem ink_words (texts : List String) :
    ink (String.intercalate " " texts) = texts.flatMap ink := by
  rw [ink_intercalate, List.flatMap_def]
  exact intercalate_nil_eq_flatten (texts.map ink)

theorem flatMap_ink_filter (texts : List String) :
    (texts.filter fun text => !text.isEmpty).flatMap ink = texts.flatMap ink := by
  induction texts with
  | nil => rfl
  | cons text texts ih =>
    by_cases h : text = ""
    · simp [h, ih]
    · simp [h, ih]

theorem ink_eq_nil_iff (text : String) : ink text = [] ↔ ∀ c ∈ text.toList, c ∈ blanks := by
  simp [ink]

/-! ### Lines -/

@[simp] theorem lineInk_nil : lineInk [] = [] := rfl

@[simp] theorem lineInk_cons (line : Line) (lines : List Line) :
    lineInk (line :: lines) = ink line.text ++ lineInk lines := rfl

@[simp] theorem lineInk_append (as bs : List Line) :
    lineInk (as ++ bs) = lineInk as ++ lineInk bs := List.flatMap_append

/-- A blank line between blocks of lines leaves no ink. -/
theorem lineInk_intercalate_blank (blocks : List (List Line)) :
    lineInk ([Line.blank].intercalate blocks) = blocks.flatMap lineInk := by
  induction blocks with
  | nil => rfl
  | cons block blocks ih =>
    cases blocks with
    | nil => simp
    | cons next rest =>
      rw [List.intercalate_cons_cons, lineInk_append, ih, List.flatMap_cons]
      simp [Line.blank]

theorem ink_unit (indent : Indent) : ink indent.unit = [] := by
  cases indent with
  | spaces width => simp [ink_eq_nil_iff, Indent.unit, blanks]
  | tabs => rfl

theorem ink_render {options : Options} (h : ink options.newline = []) (lines : List Line) :
    ink (render options lines) = lineInk lines := by
  have hline : ∀ line : Line, ink (line.render options) = ink line.text := by
    intro line
    simp [Line.render, h, ink_unit]
  simp [render, lineInk, List.flatMap_map, hline]

end Layout

/-! ### Tokens without trivia -/

def Token.IsBare (token : Token) : Prop := token.leading = [] ∧ token.trailing = []

def Slot.IsBare {shape : Shape} (slot : Slot shape) : Prop := ∀ token ∈ slot.tokensIn, token.IsBare

def Slots.IsBare {fields : List Field} (slots : Slots fields) : Prop :=
  ∀ token ∈ slots.tokens, token.IsBare

/-- No token below the node has trivia. -/
def Node.IsBare (node : Node) : Prop := ∀ token ∈ node.tokens, token.IsBare

theorem Token.isBare_ofText {kind : TokenKind} {text : String} : (ofText kind text).IsBare :=
  ⟨rfl, rfl⟩

theorem Token.IsBare.fullText_eq {token : Token} (h : token.IsBare) :
    token.fullText = token.text := by
  cases token with
  | mk label kind text leading trailing =>
    obtain ⟨rfl, rfl⟩ := h
    simp [Token.fullText, triviaTexts, Token.text]

/-- A token that prints as the given text and nothing else. -/
structure Token.Spells (token : Token) (text : String) : Prop where
  bare : token.IsBare
  text_eq : token.text = text

theorem Token.spells_ofText {kind : TokenKind} {text : String} : (ofText kind text).Spells text :=
  ⟨isBare_ofText, rfl⟩

theorem Token.Spells.fullText_eq {token : Token} {text : String} (h : token.Spells text) :
    token.fullText = text := h.bare.fullText_eq.trans h.text_eq

theorem tokensBetween_subset (elements : List Node) (separators : List Token) :
    tokensBetween elements separators ⊆ elements.flatMap Node.tokens ++ separators := by
  induction elements generalizing separators with
  | nil => exact List.nil_subset _
  | cons element elements ih =>
    cases separators with
    | nil =>
      have h := ih []
      grind [tokensBetween]
    | cons separator separators =>
      have h := ih separators
      grind [tokensBetween]

theorem Node.isBare_mk {info : Info} {kind : Kind} {slots : Slots kind.fields} :
    (Node.mk info kind slots).IsBare ↔ slots.IsBare := Iff.rfl

@[simp] theorem Slots.isBare_nil : Slots.nil.IsBare := nofun

@[simp] theorem Slots.isBare_cons {field : Field} {fields : List Field}
    {slot : Slot field.shape} {rest : Slots fields} :
    (Slots.cons slot rest).IsBare ↔ slot.IsBare ∧ rest.IsBare := List.forall_mem_append

@[simp] theorem Slot.isBare_node {child : Node} : (Slot.node child).IsBare ↔ child.IsBare :=
  Iff.rfl

theorem Slot.isBare_optNode {child : Option Node} :
    (Slot.optNode child).IsBare ↔ ∀ node ∈ child, node.IsBare := by
  cases child <;> simp [Slot.IsBare, Slot.tokensIn, Node.IsBare]

@[simp] theorem Slot.isBare_token {child : Token} : (Slot.token child).IsBare ↔ child.IsBare :=
  List.forall_mem_singleton

theorem Slot.isBare_optToken {child : Option Token} :
    (Slot.optToken child).IsBare ↔ ∀ token ∈ child, token.IsBare := by
  simp [Slot.IsBare, Slot.tokensIn]

theorem Slot.isBare_nodes {children : List Node} :
    (Slot.nodes children).IsBare ↔ ∀ node ∈ children, node.IsBare := by
  rw [Slot.IsBare, Slot.tokensIn, tokensAll_eq_flatMap, List.forall_mem_flatMap]
  rfl

theorem Slot.isBare_tokens {children : List Token} :
    (Slot.tokens children).IsBare ↔ ∀ token ∈ children, token.IsBare := Iff.rfl

theorem Slot.isBare_separated {list : Separated Node Token}
    (helements : ∀ node ∈ list.elements, node.IsBare)
    (hseparators : ∀ token ∈ list.separators, token.IsBare) : (Slot.separated list).IsBare := by
  intro token h
  rcases List.mem_append.1 (tokensBetween_subset _ _ h) with h | h
  · obtain ⟨node, hnode, h⟩ := List.mem_flatMap.1 h
    exact helements node hnode token h
  · exact hseparators token h

theorem Node.IsBare.leadingLines_eq {node : Node} (h : node.IsBare) (level : Nat) :
    Layout.leadingLines node level = [] := by
  rw [Layout.leadingLines, node.firstToken?_eq]
  cases htokens : node.tokens with
  | nil => rfl
  | cons token tokens =>
    have hleading : token.leading = [] := (h token (by simp [htokens])).1
    simp [Layout.commentLines, hleading]

theorem Node.IsBare.ink_spaced {node : Node} (h : node.IsBare) :
    Layout.ink (Layout.spaced node) = Layout.ink node.text := by
  have htexts : node.tokens.map Token.text = node.tokens.map Token.fullText :=
    List.map_congr_left fun token htoken => ((h token htoken).fullText_eq).symm
  rw [Layout.spaced, htexts, node.text_eq_join, Layout.ink_join, Layout.ink_words,
    Layout.flatMap_ink_filter]

end SourceTree
