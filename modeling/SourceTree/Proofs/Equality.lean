import SourceTree.Equality
import SourceTree.Proofs.View

/-!
Structural equality compares what is left of two trees without labels and metadata. So it is
an equivalence, and trees that are equal have the same text.
-/
namespace SourceTree

/-! ### Trees without labels and metadata -/

mutual

/-- The tree as it is when it was just read. -/
def Node.bare : Node → Node
  | .mk _ kind slots => .mk {} kind slots.bare

def Slots.bare : {fields : List Field} → Slots fields → Slots fields
  | _, .nil => .nil
  | _, .cons slot rest => .cons slot.bare rest.bare

def Slot.bare : {shape : Shape} → Slot shape → Slot shape
  | _, .node child => .node child.bare
  | _, .optNode none => .optNode none
  | _, .optNode (some child) => .optNode (some child.bare)
  | _, .token child => .token child.bare
  | _, .optToken none => .optToken none
  | _, .optToken (some child) => .optToken (some child.bare)
  | _, .nodes children => .nodes (bareNodes children)
  | _, .tokens children => .tokens (bareTokens children)
  | _, .separated ⟨elements, separators⟩ => .separated ⟨bareNodes elements, bareTokens separators⟩

def bareNodes : List Node → List Node
  | [] => []
  | node :: rest => node.bare :: bareNodes rest

def Token.bare : Token → Token
  | .mk _ kind text leading trailing =>
    .mk none kind text (bareTrivia leading) (bareTrivia trailing)

def bareTokens : List Token → List Token
  | [] => []
  | token :: rest => token.bare :: bareTokens rest

def Trivia.bare : Trivia → Trivia
  | .mk _ kind text none => .mk none kind text none
  | .mk _ kind text (some inner) => .mk none kind text (some inner.bare)

def bareTrivia : List Trivia → List Trivia
  | [] => []
  | trivia :: rest => trivia.bare :: bareTrivia rest

end

theorem Token.bare_eq (token : Token) :
    token.bare =
      .mk none token.kind token.text (bareTrivia token.leading) (bareTrivia token.trailing) := by
  cases token
  rfl

theorem Trivia.bare_eq (trivia : Trivia) :
    trivia.bare = .mk none trivia.kind trivia.text (trivia.inner.map Node.bare) := by
  cases trivia with
  | mk label kind text inner => cases inner <;> rfl

theorem bareNodes_eq_map (nodes : List Node) : bareNodes nodes = nodes.map Node.bare := by
  induction nodes with
  | nil => rfl
  | cons node nodes ih => rw [bareNodes, ih, List.map_cons]

theorem bareTrivia_eq_map (trivias : List Trivia) :
    bareTrivia trivias = trivias.map Trivia.bare := by
  induction trivias with
  | nil => rfl
  | cons trivia trivias ih => rw [bareTrivia, ih, List.map_cons]

theorem bareTokens_eq_map (tokens : List Token) : bareTokens tokens = tokens.map Token.bare := by
  induction tokens with
  | nil => rfl
  | cons token tokens ih => rw [bareTokens, ih, List.map_cons]

mutual

theorem Node.equal_bare : (node : Node) → node.bare.equal node = true
  | .mk _ kind slots => by simp [Node.bare, Node.equal, Slots.equal_bare slots]

theorem Slots.equal_bare : {fields : List Field} → (slots : Slots fields) →
    slots.bare.equal slots = true
  | _, .nil => rfl
  | _, .cons slot rest => by
    simp [Slots.bare, Slots.equal, Slot.equal_bare slot, Slots.equal_bare rest]

theorem Slot.equal_bare : {shape : Shape} → (slot : Slot shape) → slot.bare.equal slot = true
  | _, .node child => by simp [Slot.bare, Slot.equal, Node.equal_bare child]
  | _, .optNode none => rfl
  | _, .optNode (some child) => by simp [Slot.bare, Slot.equal, Node.equal_bare child]
  | _, .token child => by simp [Slot.bare, Slot.equal, Token.equal_bare child]
  | _, .optToken none => rfl
  | _, .optToken (some child) => by simp [Slot.bare, Slot.equal, Token.equal_bare child]
  | _, .nodes children => by simp [Slot.bare, Slot.equal, nodesEqual_bare children]
  | _, .tokens children => by simp [Slot.bare, Slot.equal, tokensEqual_bare children]
  | _, .separated ⟨elements, separators⟩ => by
    simp [Slot.bare, Slot.equal, nodesEqual_bare elements, tokensEqual_bare separators]

theorem nodesEqual_bare : (nodes : List Node) → nodesEqual (bareNodes nodes) nodes = true
  | [] => rfl
  | node :: rest => by simp [bareNodes, nodesEqual, Node.equal_bare node, nodesEqual_bare rest]

theorem Token.equal_bare : (token : Token) → token.bare.equal token = true
  | .mk _ kind text leading trailing => by
    simp [Token.bare, Token.equal, triviaEqual_bare leading, triviaEqual_bare trailing]

theorem tokensEqual_bare : (tokens : List Token) → tokensEqual (bareTokens tokens) tokens = true
  | [] => rfl
  | token :: rest => by
    simp [bareTokens, tokensEqual, Token.equal_bare token, tokensEqual_bare rest]

theorem Trivia.equal_bare : (trivia : Trivia) → trivia.bare.equal trivia = true
  | .mk _ kind text none => by simp [Trivia.bare, Trivia.equal]
  | .mk _ kind text (some inner) => by simp [Trivia.bare, Trivia.equal, Node.equal_bare inner]

theorem triviaEqual_bare : (trivias : List Trivia) → triviaEqual (bareTrivia trivias) trivias = true
  | [] => rfl
  | trivia :: rest => by
    simp [bareTrivia, triviaEqual, Trivia.equal_bare trivia, triviaEqual_bare rest]

end

mutual

theorem Node.equal_iff : (a b : Node) → (a.equal b = true ↔ a.bare = b.bare)
  | .mk _ kind slots, .mk _ kind' slots' => by
    rw [Node.equal, Bool.and_eq_true, beq_iff_eq, Node.bare, Node.bare, Node.mk.injEq]
    constructor
    · rintro ⟨rfl, h⟩
      exact ⟨rfl, rfl, heq_of_eq ((Slots.equal_iff slots slots').mp h)⟩
    · rintro ⟨-, rfl, h⟩
      exact ⟨rfl, (Slots.equal_iff slots slots').mpr (eq_of_heq h)⟩
termination_by structural a => a

theorem Slots.equal_iff : {fields : List Field} → (a b : Slots fields) →
    (a.equal b = true ↔ a.bare = b.bare)
  | _, .nil, .nil => by simp [Slots.equal, Slots.bare]
  | _, .cons slot rest, .cons slot' rest' => by
    simp [Slots.equal, Slots.bare, Slot.equal_iff slot slot', Slots.equal_iff rest rest']
termination_by structural _ a => a

theorem Slot.equal_iff : {shape : Shape} → (a b : Slot shape) →
    (a.equal b = true ↔ a.bare = b.bare)
  | _, .node a, .node b => by simp [Slot.equal, Slot.bare, Node.equal_iff a b]
  | _, .optNode none, .optNode none => by simp [Slot.equal, Slot.bare]
  | _, .optNode none, .optNode (some b) => by simp [Slot.equal, Slot.bare]
  | _, .optNode (some a), .optNode none => by simp [Slot.equal, Slot.bare]
  | _, .optNode (some a), .optNode (some b) => by simp [Slot.equal, Slot.bare, Node.equal_iff a b]
  | _, .token a, .token b => by simp [Slot.equal, Slot.bare, Token.equal_iff a b]
  | _, .optToken none, .optToken none => by simp [Slot.equal, Slot.bare]
  | _, .optToken none, .optToken (some b) => by simp [Slot.equal, Slot.bare]
  | _, .optToken (some a), .optToken none => by simp [Slot.equal, Slot.bare]
  | _, .optToken (some a), .optToken (some b) => by
    simp [Slot.equal, Slot.bare, Token.equal_iff a b]
  | _, .nodes as, .nodes bs => by simp [Slot.equal, Slot.bare, nodesEqual_iff as bs]
  | _, .tokens as, .tokens bs => by simp [Slot.equal, Slot.bare, tokensEqual_iff as bs]
  | _, .separated ⟨as, ss⟩, .separated ⟨bs, ts⟩ => by
    simp [Slot.equal, Slot.bare, nodesEqual_iff as bs, tokensEqual_iff ss ts]
termination_by structural _ a => a

theorem nodesEqual_iff : (as bs : List Node) →
    (nodesEqual as bs = true ↔ bareNodes as = bareNodes bs)
  | [], [] => by simp [nodesEqual]
  | [], _ :: _ => by simp [nodesEqual, bareNodes]
  | _ :: _, [] => by simp [nodesEqual, bareNodes]
  | a :: as, b :: bs => by simp [nodesEqual, bareNodes, Node.equal_iff a b, nodesEqual_iff as bs]
termination_by structural a => a

theorem Token.equal_iff : (a b : Token) → (a.equal b = true ↔ a.bare = b.bare)
  | .mk _ kind text leading trailing, .mk _ kind' text' leading' trailing' => by
    simp [Token.equal, Token.bare, triviaEqual_iff leading leading',
      triviaEqual_iff trailing trailing', and_assoc]
termination_by structural a => a

theorem tokensEqual_iff : (as bs : List Token) →
    (tokensEqual as bs = true ↔ bareTokens as = bareTokens bs)
  | [], [] => by simp [tokensEqual]
  | [], _ :: _ => by simp [tokensEqual, bareTokens]
  | _ :: _, [] => by simp [tokensEqual, bareTokens]
  | a :: as, b :: bs => by
    simp [tokensEqual, bareTokens, Token.equal_iff a b, tokensEqual_iff as bs]
termination_by structural a => a

theorem Trivia.equal_iff : (a b : Trivia) → (a.equal b = true ↔ a.bare = b.bare)
  | .mk _ kind text none, .mk _ kind' text' none => by simp [Trivia.equal, Trivia.bare]
  | .mk _ kind text none, .mk _ kind' text' (some b) => by simp [Trivia.equal, Trivia.bare]
  | .mk _ kind text (some a), .mk _ kind' text' none => by simp [Trivia.equal, Trivia.bare]
  | .mk _ kind text (some a), .mk _ kind' text' (some b) => by
    simp [Trivia.equal, Trivia.bare, Node.equal_iff a b, and_assoc]
termination_by structural a => a

theorem triviaEqual_iff : (as bs : List Trivia) →
    (triviaEqual as bs = true ↔ bareTrivia as = bareTrivia bs)
  | [], [] => by simp [triviaEqual]
  | [], _ :: _ => by simp [triviaEqual, bareTrivia]
  | _ :: _, [] => by simp [triviaEqual, bareTrivia]
  | a :: as, b :: bs => by
    simp [triviaEqual, bareTrivia, Trivia.equal_iff a b, triviaEqual_iff as bs]
termination_by structural a => a

end

namespace Node

theorem equal_refl (node : Node) : node.equal node = true := (equal_iff node node).mpr rfl

theorem equal_symm {a b : Node} (h : a.equal b = true) : b.equal a = true :=
  (equal_iff b a).mpr ((equal_iff a b).mp h).symm

theorem equal_trans {a b c : Node} (hab : a.equal b = true) (hbc : b.equal c = true) :
    a.equal c = true :=
  (equal_iff a c).mpr (((equal_iff a b).mp hab).trans ((equal_iff b c).mp hbc))

end Node

/-! ### Texts -/

mutual

theorem Node.text_bare : (node : Node) → node.bare.text = node.text
  | .mk _ _ slots => Slots.text_bare slots

theorem Slots.text_bare : {fields : List Field} → (slots : Slots fields) →
    slots.bare.text = slots.text
  | _, .nil => rfl
  | _, .cons slot rest => by
    rw [Slots.bare, Slots.text, Slots.text, Slot.text_bare slot, Slots.text_bare rest]

theorem Slot.text_bare : {shape : Shape} → (slot : Slot shape) → slot.bare.text = slot.text
  | _, .node child => Node.text_bare child
  | _, .optNode none => rfl
  | _, .optNode (some child) => Node.text_bare child
  | _, .token child => Token.fullText_bare child
  | _, .optToken none => rfl
  | _, .optToken (some child) => Token.fullText_bare child
  | _, .nodes children => by rw [Slot.bare, Slot.text, Slot.text, nodeTexts_bare children]
  | _, .tokens children => by rw [Slot.bare, Slot.text, Slot.text, tokenTexts_bare children]
  | _, .separated ⟨elements, separators⟩ => by
    rw [Slot.bare, Slot.text, Slot.text, nodeTexts_bare elements, tokenTexts_bare separators]

theorem nodeTexts_bare : (nodes : List Node) → nodeTexts (bareNodes nodes) = nodeTexts nodes
  | [] => rfl
  | node :: rest => by
    rw [bareNodes, nodeTexts, nodeTexts, Node.text_bare node, nodeTexts_bare rest]

theorem Token.fullText_bare : (token : Token) → token.bare.fullText = token.fullText
  | .mk _ _ text leading trailing => by
    rw [Token.bare, Token.fullText, Token.fullText, triviaTexts_bare leading,
      triviaTexts_bare trailing]

theorem tokenTexts_bare : (tokens : List Token) → tokenTexts (bareTokens tokens) = tokenTexts tokens
  | [] => rfl
  | token :: rest => by
    rw [bareTokens, tokenTexts, tokenTexts, Token.fullText_bare token, tokenTexts_bare rest]

theorem Trivia.fullText_bare : (trivia : Trivia) → trivia.bare.fullText = trivia.fullText
  | .mk _ _ _ none => rfl
  | .mk _ _ _ (some inner) => Node.text_bare inner

theorem triviaTexts_bare : (trivias : List Trivia) →
    triviaTexts (bareTrivia trivias) = triviaTexts trivias
  | [] => rfl
  | trivia :: rest => by
    rw [bareTrivia, triviaTexts, triviaTexts, Trivia.fullText_bare trivia, triviaTexts_bare rest]

end

theorem Node.text_eq_of_equal {a b : Node} (h : a.equal b = true) : a.text = b.text := by
  rw [← a.text_bare, ← b.text_bare, (Node.equal_iff a b).mp h]

/-! ### Trees with other tokens -/

section MapTokens

variable (f : Token → Token)

mutual

/-- Each token replaced, and no labels or metadata on nodes. -/
def Node.mapTokens : Node → Node
  | .mk _ kind slots => .mk {} kind slots.mapTokens

def Slots.mapTokens : {fields : List Field} → Slots fields → Slots fields
  | _, .nil => .nil
  | _, .cons slot rest => .cons slot.mapTokens rest.mapTokens

def Slot.mapTokens : {shape : Shape} → Slot shape → Slot shape
  | _, .node child => .node child.mapTokens
  | _, .optNode none => .optNode none
  | _, .optNode (some child) => .optNode (some child.mapTokens)
  | _, .token child => .token (f child)
  | _, .optToken child => .optToken (child.map f)
  | _, .nodes children => .nodes (mapTokensAll children)
  | _, .tokens children => .tokens (children.map f)
  | _, .separated ⟨elements, separators⟩ =>
    .separated ⟨mapTokensAll elements, separators.map f⟩

def mapTokensAll : List Node → List Node
  | [] => []
  | node :: rest => node.mapTokens :: mapTokensAll rest

end

mutual

theorem Node.tokens_mapTokens : (node : Node) → (node.mapTokens f).tokens = node.tokens.map f
  | .mk _ _ slots => Slots.tokens_mapTokens slots

theorem Slots.tokens_mapTokens : {fields : List Field} → (slots : Slots fields) →
    (slots.mapTokens f).tokens = slots.tokens.map f
  | _, .nil => rfl
  | _, .cons slot rest => by
    rw [Slots.mapTokens, Slots.tokens, Slots.tokens, List.map_append, Slot.tokens_mapTokens slot,
      Slots.tokens_mapTokens rest]

theorem Slot.tokens_mapTokens : {shape : Shape} → (slot : Slot shape) →
    (slot.mapTokens f).tokensIn = slot.tokensIn.map f
  | _, .node child => Node.tokens_mapTokens child
  | _, .optNode none => rfl
  | _, .optNode (some child) => Node.tokens_mapTokens child
  | _, .token _ => rfl
  | _, .optToken none => rfl
  | _, .optToken (some _) => rfl
  | _, .nodes children => tokensAll_mapTokensAll children
  | _, .tokens _ => rfl
  | _, .separated ⟨elements, separators⟩ => tokensBetween_mapTokensAll elements separators

theorem tokensAll_mapTokensAll : (nodes : List Node) →
    tokensAll (mapTokensAll f nodes) = (tokensAll nodes).map f
  | [] => rfl
  | node :: rest => by
    rw [mapTokensAll, tokensAll, tokensAll, List.map_append, Node.tokens_mapTokens node,
      tokensAll_mapTokensAll rest]

theorem tokensBetween_mapTokensAll : (elements : List Node) → (separators : List Token) →
    tokensBetween (mapTokensAll f elements) (separators.map f) =
      (tokensBetween elements separators).map f
  | [], _ => rfl
  | element :: rest, [] => by
    have hrest := tokensBetween_mapTokensAll rest []
    rw [List.map_nil] at hrest
    rw [mapTokensAll, List.map_nil, tokensBetween, tokensBetween, List.map_append,
      Node.tokens_mapTokens element, hrest]
  | element :: rest, separator :: separators => by
    rw [mapTokensAll, List.map_cons, tokensBetween, tokensBetween, List.map_append, List.map_cons,
      Node.tokens_mapTokens element, tokensBetween_mapTokensAll rest separators]

end

theorem mapTokensAll_eq_map (nodes : List Node) :
    mapTokensAll f nodes = nodes.map (Node.mapTokens f) := by
  induction nodes with
  | nil => rfl
  | cons node nodes ih => rw [mapTokensAll, ih, List.map_cons]

theorem Node.firstToken?_mapTokens (node : Node) :
    (node.mapTokens f).firstToken? = node.firstToken?.map f := by
  rw [Node.firstToken?_eq, Node.firstToken?_eq, node.tokens_mapTokens, List.head?_map]

end MapTokens

mutual

theorem Node.bare_eq_mapTokens : (node : Node) → node.bare = node.mapTokens Token.bare
  | .mk _ _ slots => by rw [Node.bare, Node.mapTokens, Slots.bare_eq_mapTokens slots]

theorem Slots.bare_eq_mapTokens : {fields : List Field} → (slots : Slots fields) →
    slots.bare = slots.mapTokens Token.bare
  | _, .nil => rfl
  | _, .cons slot rest => by
    rw [Slots.bare, Slots.mapTokens, Slot.bare_eq_mapTokens slot, Slots.bare_eq_mapTokens rest]

theorem Slot.bare_eq_mapTokens : {shape : Shape} → (slot : Slot shape) →
    slot.bare = slot.mapTokens Token.bare
  | _, .node child => by rw [Slot.bare, Slot.mapTokens, Node.bare_eq_mapTokens child]
  | _, .optNode none => rfl
  | _, .optNode (some child) => by rw [Slot.bare, Slot.mapTokens, Node.bare_eq_mapTokens child]
  | _, .token _ => rfl
  | _, .optToken none => rfl
  | _, .optToken (some _) => rfl
  | _, .nodes children => by rw [Slot.bare, Slot.mapTokens, bareNodes_eq_mapTokensAll children]
  | _, .tokens children => by rw [Slot.bare, Slot.mapTokens, bareTokens_eq_map]
  | _, .separated ⟨elements, separators⟩ => by
    rw [Slot.bare, Slot.mapTokens, bareNodes_eq_mapTokensAll elements, bareTokens_eq_map]

theorem bareNodes_eq_mapTokensAll : (nodes : List Node) →
    bareNodes nodes = mapTokensAll Token.bare nodes
  | [] => rfl
  | node :: rest => by
    rw [bareNodes, mapTokensAll, Node.bare_eq_mapTokens node, bareNodes_eq_mapTokensAll rest]

end

theorem Node.tokens_bare (node : Node) : node.bare.tokens = node.tokens.map Token.bare := by
  rw [node.bare_eq_mapTokens, node.tokens_mapTokens]

end SourceTree
