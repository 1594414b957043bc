import SourceTree.Tree

/-!
Structural equality: the same kinds, texts and trivia in the same places. Labels and
metadata do not count.
-/
namespace SourceTree

mutual

def Node.equal : Node → Node → Bool
  | .mk _ kind slots, .mk _ kind' slots' => kind == kind' && slots.equal slots'
termination_by structural a => a

def Slots.equal : {fields fields' : List Field} → Slots fields → Slots fields' → Bool
  | _, _, .nil, .nil => true
  | _, _, .cons slot rest, .cons slot' rest' => slot.equal slot' && rest.equal rest'
  | _, _, _, _ => false
termination_by structural _ _ a => a

def Slot.equal : {shape shape' : Shape} → Slot shape → Slot shape' → Bool
  | _, _, .node a, .node b => a.equal b
  | _, _, .optNode none, .optNode none => true
  | _, _, .optNode (some a), .optNode (some b) => a.equal b
  | _, _, .token a, .token b => a.equal b
  | _, _, .optToken none, .optToken none => true
  | _, _, .optToken (some a), .optToken (some b) => a.equal b
  | _, _, .nodes as, .nodes bs => nodesEqual as bs
  | _, _, .tokens as, .tokens bs => tokensEqual as bs
  | _, _, .separated ⟨as, ss⟩, .separated ⟨bs, ts⟩ => nodesEqual as bs && tokensEqual ss ts
  | _, _, _, _ => false
termination_by structural _ _ a => a

def nodesEqual : List Node → List Node → Bool
  | [], [] => true
  | a :: as, b :: bs => a.equal b && nodesEqual as bs
  | _, _ => false
termination_by structural a => a

def Token.equal : Token → Token → Bool
  | .mk _ kind text leading trailing, .mk _ kind' text' leading' trailing' =>
    kind == kind' && text == text' && triviaEqual leading leading' &&
      triviaEqual trailing trailing'
termination_by structural a => a

def tokensEqual : List Token → List Token → Bool
  | [], [] => true
  | a :: as, b :: bs => a.equal b && tokensEqual as bs
  | _, _ => false
termination_by structural a => a

def Trivia.equal : Trivia → Trivia → Bool
  | .mk _ kind text none, .mk _ kind' text' none => kind == kind' && text == text'
  | .mk _ kind text (some a), .mk _ kind' text' (some b) =>
    kind == kind' && text == text' && a.equal b
  | _, _ => false
termination_by structural a => a

def triviaEqual : List Trivia → List Trivia → Bool
  | [], [] => true
  | a :: as, b :: bs => a.equal b && triviaEqual as bs
  | _, _ => false
termination_by structural a => a

end

end SourceTree
