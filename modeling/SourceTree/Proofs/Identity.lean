import SourceTree.Identity
import SourceTree.Proofs.Traversal.Every

/-!
Labelling leaves nothing without a label.
-/
namespace SourceTree

theorem claimLabel_isSome (label : Option Nat) (next : Nat) :
    (claimLabel label next).1.isSome = true := by
  cases label <;> rfl

mutual

theorem Node.every_labelFrom : (node : Node) → (next : Nat) →
    (node.labelFrom next).1.every Request.isLabelled true = true
  | .mk info kind slots, next => by
    simp only [Node.labelFrom, Node.every, Slots.every_labelFrom slots next, Bool.and_true]
    exact claimLabel_isSome _ _

theorem Slots.every_labelFrom : {fields : List Field} → (slots : Slots fields) → (next : Nat) →
    (slots.labelFrom next).1.every Request.isLabelled true = true
  | _, .nil, _ => rfl
  | _, .cons slot rest, next => by
    simp only [Slots.labelFrom, Slots.every, Slot.every_labelFrom slot next,
      Slots.every_labelFrom rest, Bool.and_true]

theorem Slot.every_labelFrom : {shape : Shape} → (slot : Slot shape) → (next : Nat) →
    (slot.labelFrom next).1.every Request.isLabelled true = true
  | _, .node child, next => Node.every_labelFrom child next
  | _, .optNode none, _ => rfl
  | _, .optNode (some child), next => Node.every_labelFrom child next
  | _, .token child, next => Token.every_labelFrom child next
  | _, .optToken none, _ => rfl
  | _, .optToken (some child), next => Token.every_labelFrom child next
  | _, .nodes children, next => nodesEvery_labelFrom children next
  | _, .tokens children, next => tokensEvery_labelFrom children next
  | _, .separated ⟨elements, separators⟩, next => by
    simp only [Slot.labelFrom, Slot.every, nodesEvery_labelFrom elements next,
      tokensEvery_labelFrom separators, Bool.and_true]
    rfl

theorem nodesEvery_labelFrom : (nodes : List Node) → (next : Nat) →
    nodesEvery Request.isLabelled true (labelNodesFrom nodes next).1 = true
  | [], _ => rfl
  | node :: rest, next => by
    simp only [labelNodesFrom, nodesEvery, Node.every_labelFrom node next,
      nodesEvery_labelFrom rest, Bool.and_true]

theorem Token.every_labelFrom : (token : Token) → (next : Nat) →
    (token.labelFrom next).1.every Request.isLabelled true = true
  | .mk label kind text leading trailing, next => by
    simp only [Token.labelFrom, Token.every, triviasEvery_labelFrom leading next,
      triviasEvery_labelFrom trailing, Bool.and_true]
    exact Bool.and_eq_true_iff.mpr ⟨Bool.and_eq_true_iff.mpr ⟨claimLabel_isSome _ _, rfl⟩, rfl⟩

theorem tokensEvery_labelFrom : (tokens : List Token) → (next : Nat) →
    tokensEvery Request.isLabelled true (labelTokensFrom tokens next).1 = true
  | [], _ => rfl
  | token :: rest, next => by
    simp only [labelTokensFrom, tokensEvery, Token.every_labelFrom token next,
      tokensEvery_labelFrom rest, Bool.and_true]

theorem Trivia.every_labelFrom : (trivia : Trivia) → (next : Nat) →
    (trivia.labelFrom next).1.every Request.isLabelled true = true
  | .mk label kind text none, next => claimLabel_isSome _ _
  | .mk label kind text (some inner), next => by
    simp only [Trivia.labelFrom, Trivia.every, Node.every_labelFrom inner next, Bool.or_true,
      Bool.and_true]
    exact claimLabel_isSome _ _

theorem triviasEvery_labelFrom : (trivias : List Trivia) → (next : Nat) →
    triviasEvery Request.isLabelled true (labelTriviaFrom trivias next).1 = true
  | [], _ => rfl
  | trivia :: rest, next => by
    simp only [labelTriviaFrom, triviasEvery, Trivia.every_labelFrom trivia next,
      triviasEvery_labelFrom rest, Bool.and_true]

end

/-- Every tree has labels once they were given out. -/
theorem Node.hasLabels_labelFrom (node : Node) (next : Nat) :
    (node.labelFrom next).1.hasLabels = true :=
  node.every_labelFrom next

end SourceTree
