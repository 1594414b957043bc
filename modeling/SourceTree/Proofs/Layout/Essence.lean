import SourceTree.Form
import SourceTree.Proofs.Equality
import SourceTree.Proofs.Layout.Sheet

/-!
What a layout looks at. The essence of a tree has its kinds, fields and tokens, and in front of
each token the comments, documentation and directives; spaces, line ends, all trivia behind
tokens, labels and metadata are gone. A tree is laid out as its essence is, so trees with one
essence have one layout.
-/
namespace SourceTree.Layout

/-- The trivia that have lines of their own. -/
def isKept (trivia : Trivia) : Bool :=
  match trivia.kind with
  | .singleLineComment | .multiLineComment | .documentationComment | .directive => true
  | .whitespace | .endOfLine | .documentationExterior => false

/-- A token with the kept trivia in front of it and nothing behind it. -/
def essentialToken (token : Token) : Token :=
  .mk none token.kind token.text (bareTrivia (token.leading.filter isKept)) []

def essence (node : Node) : Node := node.mapTokens essentialToken

/-! ### Comments -/

theorem triviaLines_of_not_kept {trivia : Trivia} (h : isKept trivia = false) (level : Nat) :
    triviaLines level trivia = [] := by
  rw [isKept] at h
  rw [triviaLines]
  cases hkind : trivia.kind <;> simp_all

/-- The tree of a piece of documentation counts by its text only. -/
theorem triviaLines_bare (level : Nat) (trivia : Trivia) :
    triviaLines level trivia.bare = triviaLines level trivia := by
  obtain ⟨label, kind, text, inner⟩ := trivia
  cases inner with
  | none => rfl
  | some inner => cases kind <;> simp [triviaLines, Trivia.bare, Trivia.kind, Trivia.inner,
      Trivia.text, inner.text_bare]

theorem flatMap_triviaLines_bare (level : Nat) (trivias : List Trivia) :
    (bareTrivia trivias).flatMap (triviaLines level) = trivias.flatMap (triviaLines level) := by
  induction trivias with
  | nil => rfl
  | cons trivia trivias ih =>
    rw [bareTrivia, List.flatMap_cons, List.flatMap_cons, triviaLines_bare, ih]

theorem flatMap_triviaLines_filter (level : Nat) (trivias : List Trivia) :
    (trivias.filter isKept).flatMap (triviaLines level) = trivias.flatMap (triviaLines level) := by
  induction trivias with
  | nil => rfl
  | cons trivia trivias ih =>
    cases h : isKept trivia with
    | true => rw [List.filter_cons_of_pos h, List.flatMap_cons, List.flatMap_cons, ih]
    | false =>
      rw [List.filter_cons_of_neg (by simp [h]), List.flatMap_cons, ih, triviaLines_of_not_kept h,
        List.nil_append]

theorem commentLines_essentialToken (token : Token) :
    commentLines (essentialToken token) = commentLines token := by
  funext level
  simp only [commentLines, essentialToken, Token.leading]
  rw [flatMap_triviaLines_bare, flatMap_triviaLines_filter]

/-! ### Looks -/

/-- Tokens keep their texts and the lines in front of them. -/
structure KeepsLook (f : Token → Token) : Prop where
  text : ∀ token, (f token).text = token.text
  before : ∀ token, commentLines (f token) = commentLines token

theorem essentialToken_keepsLook : KeepsLook essentialToken where
  text _ := rfl
  before := commentLines_essentialToken

section MapTokens

variable {f : Token → Token}

theorem spaced_mapTokens (h : ∀ token, (f token).text = token.text) (node : Node) :
    spaced (node.mapTokens f) = spaced node := by
  rw [spaced, spaced, node.tokens_mapTokens, List.map_map]
  simp only [Function.comp_def, h]

theorem leadingLines_mapTokens (h : KeepsLook f) (node : Node) :
    leadingLines (node.mapTokens f) = leadingLines node := by
  funext level
  rw [leadingLines, leadingLines, node.firstToken?_mapTokens]
  cases node.firstToken? with
  | none => rfl
  | some token => exact congrFun (h.before token) level

theorem length_mapTokensAll (nodes : List Node) : (mapTokensAll f nodes).length = nodes.length := by
  induction nodes with
  | nil => rfl
  | cons node nodes ih => rw [mapTokensAll, List.length_cons, List.length_cons, ih]

/-- Whether there is a separator at the end depends on the lengths of the two lists. -/
theorem hasTrailing_mapTokens (elements : List Node) (separators : List Token) :
    Separated.hasTrailing ⟨mapTokensAll f elements, separators.map f⟩ =
      Separated.hasTrailing ⟨elements, separators⟩ := by
  cases elements with
  | nil => rfl
  | cons element elements =>
    simp only [Separated.hasTrailing, mapTokensAll, List.isEmpty_cons, List.length_cons,
      List.length_map, length_mapTokensAll]

theorem tokenLook_eq (h : KeepsLook f) (token : Token) : tokenLook (f token) = tokenLook token := by
  rw [tokenLook, tokenLook, h.text, h.before]

mutual

/-- A tree keeps its look if its tokens keep theirs. -/
theorem look_mapTokens (h : KeepsLook f) : (node : Node) → look (node.mapTokens f) = look node
  | .mk info kind slots => by
    have hspaced := spaced_mapTokens h.text (.mk info kind slots)
    have hleading := leadingLines_mapTokens h (.mk info kind slots)
    rw [Node.mapTokens] at hspaced hleading
    rw [Node.mapTokens, look, look, slotLooks_mapTokens h slots, hspaced, hleading]

theorem slotLooks_mapTokens (h : KeepsLook f) : {fields : List Field} → (slots : Slots fields) →
    slotLooks (slots.mapTokens f) = slotLooks slots
  | _, .nil => rfl
  | _, .cons slot rest => by
    rw [Slots.mapTokens, slotLooks, slotLooks, slotLook_mapTokens h slot,
      slotLooks_mapTokens h rest]

theorem slotLook_mapTokens (h : KeepsLook f) : {shape : Shape} → (slot : Slot shape) →
    slotLook (slot.mapTokens f) = slotLook slot
  | _, .node child => by rw [Slot.mapTokens, slotLook, slotLook, look_mapTokens h child]
  | _, .optNode none => rfl
  | _, .optNode (some child) => by rw [Slot.mapTokens, slotLook, slotLook, look_mapTokens h child]
  | _, .token child => by rw [Slot.mapTokens, slotLook, slotLook, tokenLook_eq h child]
  | _, .optToken none => rfl
  | _, .optToken (some child) =>
    congrArg (fun token => SlotLook.optToken (some token)) (tokenLook_eq h child)
  | _, .nodes children => by rw [Slot.mapTokens, slotLook, slotLook, looks_mapTokens h children]
  | _, .tokens children => by
    rw [Slot.mapTokens, slotLook, slotLook, List.map_map]
    simp only [Function.comp_def, tokenLook_eq h]
  | _, .separated ⟨elements, separators⟩ => by
    rw [Slot.mapTokens, slotLook, slotLook, looks_mapTokens h elements, hasTrailing_mapTokens]

theorem looks_mapTokens (h : KeepsLook f) : (nodes : List Node) →
    looks (mapTokensAll f nodes) = looks nodes
  | [] => rfl
  | node :: rest => by
    rw [mapTokensAll, looks, looks, look_mapTokens h node, looks_mapTokens h rest]

end

end MapTokens

theorem look_essence (node : Node) : look (essence node) = look node :=
  look_mapTokens essentialToken_keepsLook node

/-- Trees with one essence have the same layout under all options. -/
theorem format_eq_of_essence {first second : Node} (h : essence first = essence second)
    (options : Options) : format first options = format second options := by
  rw [format_eq_render, format_eq_render, lines, lines, ← look_essence first,
    ← look_essence second, h]

/-- The name `x` behind a comment, on a line of its own and with a space at the end. -/
def commentedName : Node :=
  .identifierName (.mk (some 0) .identifier "x"
    [.ofText .singleLineComment "// a", .ofText .endOfLine "\n"] [.ofText .whitespace " "])
    { label := some 1, metadata := [("origin", .flag true)] }

/-- The same name and comment with other spaces around them. -/
def indentedName : Node :=
  .identifierName (.mk none .identifier "x"
    [.ofText .whitespace "\t", .ofText .singleLineComment "// a", .ofText .endOfLine "\r\n",
      .ofText .documentationExterior "///"]
    [.ofText .multiLineComment "/* b */"])

theorem format_commentedName :
    commentedName.text ≠ indentedName.text ∧
      format commentedName { newline := "\r\n" } = format indentedName { newline := "\r\n" } ∧
      format indentedName .standard = "// a\nx\n" :=
  ⟨by decide, format_eq_of_essence rfl _, by decide⟩

end SourceTree.Layout
