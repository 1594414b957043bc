import SourceTree.Traversal.Run

/-!
Which parts a walk asks for. `Part.requests` lists them in the order in which a walk visits
them, one level down; each of them nests less deep than the part that is walked. So the run
of a walk depends on nothing but the answers to these requests.
-/
namespace SourceTree

/-- A part of a tree, with the sort of part that it is. -/
structure Request where
  part : Part
  value : part.Value

namespace Request

def node (node : Node) : Request := ⟨.node, node⟩

def token (token : Token) : Request := ⟨.token, token⟩

def trivia (trivia : Trivia) : Request := ⟨.trivia, trivia⟩

end Request

/-! ### What a walk asks for -/

def Slot.requests : {shape : Shape} → Slot shape → List Request
  | _, .node child => [.node child]
  | _, .optNode child => child.toList.map .node
  | _, .token child => [.token child]
  | _, .optToken child => child.toList.map .token
  | _, .nodes children => [⟨.nodes, children⟩]
  | _, .tokens children => [⟨.tokens, children⟩]
  | _, .separated children => [⟨.separated, children⟩]

def Slots.requests : {fields : List Field} → Slots fields → List Request
  | _, .nil => []
  | _, .cons slot rest => slot.requests ++ rest.requests

/-- Each element and the separator behind it; separators behind the last element are not
asked for. -/
def pairRequests : List Node → List Token → List Request
  | [], _ => []
  | element :: elements, separators =>
    .node element :: (separators.head?.toList.map .token ++ pairRequests elements separators.tail)

/-- Separators beyond the elements are not asked for. -/
theorem pairRequests_take (elements : List Node) (separators : List Token) :
    pairRequests elements (separators.take elements.length) = pairRequests elements separators := by
  induction elements generalizing separators with
  | nil => rfl
  | cons element elements ih =>
    cases separators with
    | nil => rfl
    | cons separator separators =>
      rw [List.length_cons, List.take_succ_cons, pairRequests, pairRequests, List.tail_cons,
        List.tail_cons, ih, List.head?_cons, List.head?_cons]

/-- What the walk of a part asks for, in order. -/
def Part.requests (structured : Bool) : (part : Part) → part.Value → List Request
  | .node, value => (Node.slots value).requests
  | .token, value => [⟨.trivias, Token.leading value⟩, ⟨.trivias, Token.trailing value⟩]
  | .trivia, value => if structured then (Trivia.inner value).toList.map .node else []
  | .nodes, value => List.map .node value
  | .separated, value => pairRequests (Separated.elements value) (Separated.separators value)
  | .tokens, value => List.map .token value
  | .trivias, value => List.map .trivia value

/-! ### Depth -/

def Part.depth : (part : Part) → part.Value → Nat
  | .node, value => Node.depth value
  | .token, value => Token.depth value
  | .trivia, value => Trivia.depth value
  | .nodes, value => nodesDepth value + 1
  | .separated, value =>
    max (nodesDepth (Separated.elements value)) (tokensDepth (Separated.separators value)) + 1
  | .tokens, value => tokensDepth value + 1
  | .trivias, value => triviaDepth value + 1

def Request.depth (request : Request) : Nat := request.part.depth request.value

@[simp] theorem Request.depth_node (node : Node) : (Request.node node).depth = node.depth := rfl

@[simp] theorem Request.depth_token (token : Token) :
    (Request.token token).depth = token.depth := rfl

@[simp] theorem Request.depth_trivia (trivia : Trivia) :
    (Request.trivia trivia).depth = trivia.depth := rfl

theorem depth_le_nodesDepth {node : Node} {nodes : List Node} (h : node ∈ nodes) :
    node.depth ≤ nodesDepth nodes := by
  induction h with
  | head rest => simp only [nodesDepth]; omega
  | tail first _ ih => simp only [nodesDepth]; omega

theorem depth_le_tokensDepth {token : Token} {tokens : List Token} (h : token ∈ tokens) :
    token.depth ≤ tokensDepth tokens := by
  induction h with
  | head rest => simp only [tokensDepth]; omega
  | tail first _ ih => simp only [tokensDepth]; omega

theorem depth_le_triviaDepth {trivia : Trivia} {trivias : List Trivia} (h : trivia ∈ trivias) :
    trivia.depth ≤ triviaDepth trivias := by
  induction h with
  | head rest => simp only [triviaDepth]; omega
  | tail first _ ih => simp only [triviaDepth]; omega

/-- A separated list asks for nothing but its own elements and separators. -/
theorem mem_of_mem_pairRequests {request : Request} {elements : List Node}
    {separators : List Token} (h : request ∈ pairRequests elements separators) :
    (∃ element ∈ elements, request = .node element) ∨
      ∃ separator ∈ separators, request = .token separator := by
  induction elements generalizing separators with
  | nil => simp [pairRequests] at h
  | cons element elements ih =>
    rcases List.mem_cons.mp h with h | h
    · exact .inl ⟨element, List.mem_cons_self, h⟩
    · rcases List.mem_append.mp h with h | h
      · obtain ⟨separator, hs, he⟩ := List.mem_map.mp h
        refine .inr ⟨separator, ?_, he.symm⟩
        exact List.mem_of_mem_head? (by simpa using hs)
      · rcases ih h with ⟨e, he, hr⟩ | ⟨s, hs, hr⟩
        · exact .inl ⟨e, List.mem_cons_of_mem _ he, hr⟩
        · exact .inr ⟨s, List.mem_of_mem_tail hs, hr⟩

theorem Slot.depth_requests {shape : Shape} (slot : Slot shape) {request : Request}
    (h : request ∈ slot.requests) : request.depth ≤ slot.depth := by
  cases slot with
  | node child => simp_all [Slot.requests, Slot.depth]
  | optNode child => cases child <;> simp_all [Slot.requests, Slot.depth]
  | token child => simp_all [Slot.requests, Slot.depth]
  | optToken child => cases child <;> simp_all [Slot.requests, Slot.depth]
  | nodes children =>
    simp only [Slot.requests, List.mem_singleton] at h
    subst h
    exact Nat.le_refl _
  | tokens children =>
    simp only [Slot.requests, List.mem_singleton] at h
    subst h
    exact Nat.le_refl _
  | separated children =>
    simp only [Slot.requests, List.mem_singleton] at h
    subst h
    exact Nat.le_refl _

theorem Slots.depth_requests : {fields : List Field} → (slots : Slots fields) →
    {request : Request} → request ∈ slots.requests → request.depth ≤ slots.depth
  | _, .nil, _, h => by simp [Slots.requests] at h
  | _, .cons slot rest, _, h => by
    simp only [Slots.depth]
    rcases List.mem_append.mp h with h | h
    · have := slot.depth_requests h
      omega
    · have := Slots.depth_requests rest h
      omega

/-- Every request of a walk nests less deep than the part that is walked. -/
theorem Part.depth_requests {structured : Bool} {part : Part} {value : part.Value}
    {request : Request} (h : request ∈ part.requests structured value) :
    request.depth < part.depth value := by
  cases part with
  | node =>
    cases value with
    | mk info kind slots =>
      have := slots.depth_requests h
      simp only [Part.depth, Node.depth]
      omega
  | token =>
    cases value with
    | mk label kind text leading trailing =>
      simp only [Part.requests, List.mem_cons, List.not_mem_nil, or_false] at h
      rcases h with rfl | rfl <;>
        simp only [Request.depth, Part.depth, Token.depth, Token.leading, Token.trailing] <;> omega
  | trivia =>
    cases value with
    | mk label kind text inner =>
      cases inner <;> cases structured <;>
        simp_all [Part.requests, Part.depth, Trivia.inner, Trivia.depth]
  | nodes =>
    obtain ⟨node, hn, rfl⟩ := List.mem_map.mp h
    have := depth_le_nodesDepth hn
    simp only [Part.depth, Request.depth_node]
    omega
  | separated =>
    simp only [Part.depth]
    rcases mem_of_mem_pairRequests h with ⟨node, hn, rfl⟩ | ⟨token, ht, rfl⟩
    · have := depth_le_nodesDepth hn
      simp only [Request.depth_node]
      omega
    · have := depth_le_tokensDepth ht
      simp only [Request.depth_token]
      omega
  | tokens =>
    obtain ⟨token, ht, rfl⟩ := List.mem_map.mp h
    have := depth_le_tokensDepth ht
    simp only [Part.depth, Request.depth_token]
    omega
  | trivias =>
    obtain ⟨trivia, ht, rfl⟩ := List.mem_map.mp h
    have := depth_le_triviaDepth ht
    simp only [Part.depth, Request.depth_trivia]
    omega

theorem Part.depth_pos (part : Part) (value : part.Value) : 0 < part.depth value := by
  cases part with
  | node => cases value; simp [Part.depth, Node.depth]
  | token => cases value; simp [Part.depth, Token.depth]
  | trivia =>
    cases value with
    | mk label kind text inner => cases inner <;> simp [Part.depth, Trivia.depth]
  | nodes | separated | tokens | trivias => simp [Part.depth]

/-- What holds of a part whenever it holds of everything that its walk asks for, holds of
every part. -/
theorem Request.induction {P : Request → Prop} (structured : Bool)
    (step : ∀ part value, (∀ request ∈ Part.requests structured part value, P request) →
      P ⟨part, value⟩) (request : Request) : P request := by
  obtain ⟨depth, hd⟩ : ∃ depth, request.depth = depth := ⟨_, rfl⟩
  induction depth using Nat.strongRecOn generalizing request with
  | ind depth ih =>
    obtain ⟨part, value⟩ := request
    apply step part value
    intro other ho
    have hlt : other.depth < part.depth value := Part.depth_requests ho
    exact ih other.depth (hd ▸ hlt) other rfl

end SourceTree
