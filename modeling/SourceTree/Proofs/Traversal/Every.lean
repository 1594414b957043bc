import SourceTree.Proofs.Traversal.Request

/-!
Tests of all parts of a tree at once. Two of them matter to traversals: whether each object
has a label, so that it can be told from others, and whether each separated list is trim,
with no more separators than elements.
-/
namespace SourceTree

section Every

variable (test : Request → Bool) (structured : Bool)

mutual

/-- A test passes on a node and on every part below it. Trees inside trivia count where
`structured` says so. -/
def Node.every : Node → Bool
  | .mk info kind slots => test (.node (.mk info kind slots)) && slots.every

def Slots.every : {fields : List Field} → Slots fields → Bool
  | _, .nil => true
  | _, .cons slot rest => slot.every && rest.every

def Slot.every : {shape : Shape} → Slot shape → Bool
  | _, .node child => child.every
  | _, .optNode none => true
  | _, .optNode (some child) => child.every
  | _, .token child => child.every
  | _, .optToken none => true
  | _, .optToken (some child) => child.every
  | _, .nodes children => test ⟨.nodes, children⟩ && nodesEvery children
  | _, .tokens children => test ⟨.tokens, children⟩ && tokensEvery children
  | _, .separated ⟨elements, separators⟩ =>
    test ⟨.separated, ⟨elements, separators⟩⟩ && nodesEvery elements && tokensEvery separators

def nodesEvery : List Node → Bool
  | [] => true
  | node :: rest => node.every && nodesEvery rest

def Token.every : Token → Bool
  | .mk label kind text leading trailing =>
    test (.token (.mk label kind text leading trailing)) &&
      (test ⟨.trivias, leading⟩ && triviasEvery leading) &&
      (test ⟨.trivias, trailing⟩ && triviasEvery trailing)

def tokensEvery : List Token → Bool
  | [] => true
  | token :: rest => token.every && tokensEvery rest

def Trivia.every : Trivia → Bool
  | .mk label kind text none => test (.trivia (.mk label kind text none))
  | .mk label kind text (some inner) =>
    test (.trivia (.mk label kind text (some inner))) && (!structured || inner.every)

def triviasEvery : List Trivia → Bool
  | [] => true
  | trivia :: rest => trivia.every && triviasEvery rest

end

/-- The same for any part. -/
def Request.every : Request → Bool
  | ⟨.node, value⟩ => Node.every test structured value
  | ⟨.token, value⟩ => Token.every test structured value
  | ⟨.trivia, value⟩ => Trivia.every test structured value
  | ⟨.nodes, value⟩ => test ⟨.nodes, value⟩ && nodesEvery test structured value
  | ⟨.separated, value⟩ =>
    test ⟨.separated, value⟩ && nodesEvery test structured (Separated.elements value) &&
      tokensEvery test structured (Separated.separators value)
  | ⟨.tokens, value⟩ => test ⟨.tokens, value⟩ && tokensEvery test structured value
  | ⟨.trivias, value⟩ => test ⟨.trivias, value⟩ && triviasEvery test structured value

end Every

/-- The object has a label of its own. -/
def Request.isLabelled : Request → Bool
  | ⟨.node, value⟩ => (Node.label value).isSome
  | ⟨.token, value⟩ => (Token.label value).isSome
  | ⟨.trivia, value⟩ => (Trivia.label value).isSome
  | _ => true

/-- A separated list has no more separators than elements. -/
def Request.isTrim : Request → Bool
  | ⟨.separated, value⟩ =>
    decide ((Separated.separators value).length ≤ (Separated.elements value).length)
  | _ => true

/-- Every node, token and piece of trivia in a tree has a label. -/
def Node.hasLabels (node : Node) : Bool := node.every Request.isLabelled true

/-- No separated list in a tree has more separators than elements. -/
def Node.isTrim (structured : Bool) (node : Node) : Bool := node.every Request.isTrim structured

/-! ### One level at a time -/

section Level

variable {test : Request → Bool} {structured : Bool}

theorem nodesEvery_iff {nodes : List Node} :
    nodesEvery test structured nodes = true ↔
      ∀ node ∈ nodes, node.every test structured = true := by
  induction nodes with
  | nil => simp [nodesEvery]
  | cons node nodes ih => simp [nodesEvery, ih]

theorem tokensEvery_iff {tokens : List Token} :
    tokensEvery test structured tokens = true ↔
      ∀ token ∈ tokens, token.every test structured = true := by
  induction tokens with
  | nil => simp [tokensEvery]
  | cons token tokens ih => simp [tokensEvery, ih]

theorem triviasEvery_iff {trivias : List Trivia} :
    triviasEvery test structured trivias = true ↔
      ∀ trivia ∈ trivias, trivia.every test structured = true := by
  induction trivias with
  | nil => simp [triviasEvery]
  | cons trivia trivias ih => simp [triviasEvery, ih]

theorem Slot.every_iff {shape : Shape} (slot : Slot shape) :
    slot.every test structured = true ↔
      ∀ request ∈ slot.requests, request.every test structured = true := by
  cases slot with
  | node child => simp [Slot.every, Slot.requests, Request.every, Request.node]
  | optNode child =>
    cases child <;> simp [Slot.every, Slot.requests, Request.every, Request.node]
  | token child => simp [Slot.every, Slot.requests, Request.every, Request.token]
  | optToken child =>
    cases child <;> simp [Slot.every, Slot.requests, Request.every, Request.token]
  | nodes children | tokens children | separated children =>
    simp [Slot.every, Slot.requests, Request.every]

theorem Slots.every_iff : {fields : List Field} → (slots : Slots fields) →
    (slots.every test structured = true ↔
      ∀ request ∈ slots.requests, request.every test structured = true)
  | _, .nil => by simp [Slots.every, Slots.requests]
  | _, .cons slot rest => by
    simp only [Slots.every, Slots.requests, Bool.and_eq_true, List.mem_append, slot.every_iff,
      Slots.every_iff rest]
    constructor
    · rintro ⟨hslot, hrest⟩ request (hr | hr)
      · exact hslot request hr
      · exact hrest request hr
    · intro h
      exact ⟨fun request hr => h request (.inl hr), fun request hr => h request (.inr hr)⟩

theorem Request.test_of_every {request : Request}
    (h : request.every test structured = true) : test request = true := by
  obtain ⟨part, value⟩ := request
  cases part with
  | node => cases value; simp_all [Request.every, Node.every, Request.node]
  | token => cases value; simp_all [Request.every, Token.every, Request.token]
  | trivia =>
    cases value with
    | mk label kind text inner =>
      cases inner <;> simp_all [Request.every, Trivia.every, Request.trivia]
  | nodes | separated | tokens | trivias => simp_all [Request.every]

/-- What passes on a part passes on everything that its walk asks for. -/
theorem Request.every_of_mem_requests {entered : Bool} (hst : entered = true → structured = true)
    {part : Part} {value : part.Value} (h : Request.every test structured ⟨part, value⟩ = true)
    {request : Request} (hr : request ∈ part.requests entered value) :
    request.every test structured = true := by
  cases part with
  | node =>
    cases value with
    | mk info kind slots =>
      simp only [Request.every, Node.every, Bool.and_eq_true] at h
      exact slots.every_iff.mp h.2 request hr
  | token =>
    cases value with
    | mk label kind text leading trailing =>
      simp only [Request.every, Token.every, Bool.and_eq_true] at h
      simp only [Part.requests, Token.leading, Token.trailing, List.mem_cons, List.not_mem_nil,
        or_false] at hr
      rcases hr with rfl | rfl
      · simp [Request.every, h.1.2]
      · simp [Request.every, h.2]
  | trivia =>
    cases value with
    | mk label kind text inner =>
      cases entered with
      | false => simp [Part.requests] at hr
      | true =>
        cases inner with
        | none => simp [Part.requests, Trivia.inner] at hr
        | some inner =>
          obtain rfl : request = .node inner := by simpa [Part.requests, Trivia.inner] using hr
          simpa [Request.every, Request.node, Trivia.every, hst rfl] using
            (Bool.and_eq_true_iff.mp h).2
  | nodes =>
    obtain ⟨node, hn, rfl⟩ := List.mem_map.mp hr
    simp only [Request.every, Bool.and_eq_true] at h
    exact nodesEvery_iff.mp h.2 node hn
  | separated =>
    simp only [Request.every, Bool.and_eq_true] at h
    rcases mem_of_mem_pairRequests hr with ⟨node, hn, rfl⟩ | ⟨token, ht, rfl⟩
    · exact nodesEvery_iff.mp h.1.2 node hn
    · exact tokensEvery_iff.mp h.2 token ht
  | tokens =>
    obtain ⟨token, ht, rfl⟩ := List.mem_map.mp hr
    simp only [Request.every, Bool.and_eq_true] at h
    exact tokensEvery_iff.mp h.2 token ht
  | trivias =>
    obtain ⟨trivia, ht, rfl⟩ := List.mem_map.mp hr
    simp only [Request.every, Bool.and_eq_true] at h
    exact triviasEvery_iff.mp h.2 trivia ht

/-- A separated list without surplus asks for every element and every separator. -/
theorem mem_pairRequests {elements : List Node} {separators : List Token}
    (h : separators.length ≤ elements.length) :
    (∀ element ∈ elements, .node element ∈ pairRequests elements separators) ∧
      ∀ separator ∈ separators, .token separator ∈ pairRequests elements separators := by
  induction elements generalizing separators with
  | nil =>
    obtain rfl : separators = [] := List.length_eq_zero_iff.mp (Nat.le_zero.mp h)
    simp
  | cons element elements ih =>
    have htail : separators.tail.length ≤ elements.length := by simpa using h
    obtain ⟨hes, hss⟩ := ih htail
    constructor
    · intro other ho
      rcases List.mem_cons.mp ho with rfl | ho
      · exact List.mem_cons_self
      · exact List.mem_cons_of_mem _ (List.mem_append_right _ (hes other ho))
    · intro separator hs
      cases separators with
      | nil => simp at hs
      | cons first rest =>
        rcases List.mem_cons.mp hs with rfl | hs
        · simp [pairRequests]
        · exact List.mem_cons_of_mem _ (List.mem_append_right _ (hss separator hs))

/-- A separated list asks for every element and for each separator that has one in front of
it. -/
theorem mem_pairRequests_take (elements : List Node) (separators : List Token) :
    (∀ element ∈ elements, .node element ∈ pairRequests elements separators) ∧
      ∀ separator ∈ separators.take elements.length,
        .token separator ∈ pairRequests elements separators := by
  rw [← pairRequests_take]
  apply mem_pairRequests
  rw [List.length_take]
  exact Nat.min_le_left _ _

/-- The converse, for trees in trivia that are entered and lists without surplus. -/
theorem Request.every_of_requests {part : Part} {value : part.Value}
    (htest : test ⟨part, value⟩ = true) (htrim : Request.isTrim ⟨part, value⟩ = true)
    (h : ∀ request ∈ part.requests structured value, request.every test structured = true) :
    Request.every test structured ⟨part, value⟩ = true := by
  cases part with
  | node =>
    cases value with
    | mk info kind slots =>
      simp only [Request.every, Node.every, Bool.and_eq_true]
      exact ⟨htest, slots.every_iff.mpr h⟩
  | token =>
    cases value with
    | mk label kind text leading trailing =>
      have hl := h ⟨.trivias, leading⟩ List.mem_cons_self
      have ht := h ⟨.trivias, trailing⟩ (List.mem_cons_of_mem _ List.mem_cons_self)
      simp only [Request.every, Bool.and_eq_true] at hl ht
      simp only [Request.every, Token.every, Bool.and_eq_true]
      exact ⟨⟨htest, hl⟩, ht⟩
  | trivia =>
    cases value with
    | mk label kind text inner =>
      cases inner with
      | none => exact htest
      | some inner =>
        simp only [Request.every, Trivia.every, Bool.and_eq_true]
        refine ⟨htest, ?_⟩
        cases structured with
        | false => rfl
        | true =>
          exact h (.node inner) (by simp [Part.requests, Trivia.inner])
  | nodes =>
    simp only [Request.every, Bool.and_eq_true]
    exact ⟨htest, nodesEvery_iff.mpr fun node hn => h _ (List.mem_map_of_mem hn)⟩
  | separated =>
    obtain ⟨hes, hss⟩ := mem_pairRequests (of_decide_eq_true htrim)
    simp only [Request.every, Bool.and_eq_true]
    exact ⟨⟨htest, nodesEvery_iff.mpr fun node hn => h _ (hes node hn)⟩,
      tokensEvery_iff.mpr fun token ht => h _ (hss token ht)⟩
  | tokens =>
    simp only [Request.every, Bool.and_eq_true]
    exact ⟨htest, tokensEvery_iff.mpr fun token ht => h _ (List.mem_map_of_mem ht)⟩
  | trivias =>
    simp only [Request.every, Bool.and_eq_true]
    exact ⟨htest, triviasEvery_iff.mpr fun trivia ht => h _ (List.mem_map_of_mem ht)⟩

/-- A test that leaves no surplus separators, and another that follows from it. -/
theorem Request.every_imp {other : Request → Bool}
    (h : ∀ request, test request = true → request.isTrim = true ∧ other request = true)
    {request : Request} (hevery : request.every test structured = true) :
    request.every other structured = true := by
  induction request using Request.induction structured with
  | step part value ih =>
    obtain ⟨htrim, hother⟩ := h _ (Request.test_of_every hevery)
    exact Request.every_of_requests hother htrim fun smaller hr =>
      ih smaller hr (Request.every_of_mem_requests id hevery hr)

end Level

end SourceTree
