import Mathlib.Data.List.Forall2
import SourceTree.Proofs.Traversal.Sharing
import SourceTree.Proofs.Traversal.Takeover

/-!
Traversals that rework nodes from the inside out. Such a traversal walks each node and then
may put another in its place; it may decide on tokens; it removes nothing, keeps no state and
leaves every other part to the walk. So it transforms every tree, and a relation between
nodes and their results holds throughout if it holds of a node whenever it holds of the
children.
-/
namespace SourceTree

variable {σ : Type}

/-! ### Relations, one level at a time -/

section Match

variable (onNode : Node → Node → Prop) (onToken : Token → Token → Prop)

/-- Nothing is removed but surplus separators. -/
structure Separated.Match (before after : Separated Node Token) : Prop where
  elements : List.Forall₂ onNode before.elements after.elements
  separators : List.Forall₂ onToken (before.separators.take before.elements.length)
    after.separators

inductive Slot.Match : {shape : Shape} → Slot shape → Slot shape → Prop where
  | node {before after : Node} (h : onNode before after) : Match (.node before) (.node after)
  | optNode {before after : Option Node} (h : Option.Rel onNode before after) :
      Match (.optNode before) (.optNode after)
  | token {before after : Token} (h : onToken before after) : Match (.token before) (.token after)
  | optToken {before after : Option Token} (h : Option.Rel onToken before after) :
      Match (.optToken before) (.optToken after)
  | nodes {before after : List Node} (h : List.Forall₂ onNode before after) :
      Match (.nodes before) (.nodes after)
  | tokens {before after : List Token} (h : List.Forall₂ onToken before after) :
      Match (.tokens before) (.tokens after)
  | separated {before after : Separated Node Token}
      (h : Separated.Match onNode onToken before after) :
      Match (.separated before) (.separated after)

/-- A part is still there and each node and token of it is related to its result. Trivia are
free. -/
def Part.Match : (part : Part) → part.Value → part.Result → Prop
  | .node, value, result => ∃ node, result = some node ∧ onNode value node
  | .token, value, result => ∃ token, result = some token ∧ onToken value token
  | .trivia, _, _ => True
  | .nodes, value, result => List.Forall₂ onNode value result
  | .separated, value, result => Separated.Match onNode onToken value result
  | .tokens, value, result => List.Forall₂ onToken value result
  | .trivias, _, _ => True

/-- The visit of a part meets no fault, and its result is related to it. -/
def Reply.Matches (reply : Reply) (request : Request) : Prop :=
  reply.faults request.part request.value = [] ∧
    request.part.Match onNode onToken request.value (reply.result request.part request.value)

end Match

/-- The same for all fields; tokens are related in a way that may depend on the field. -/
inductive Slots.Match (onNode : Node → Node → Prop) (onToken : String → Token → Token → Prop) :
    {fields : List Field} → Slots fields → Slots fields → Prop where
  | nil : Match onNode onToken .nil .nil
  | cons {field : Field} {fields : List Field} {before after : Slot field.shape}
      {first second : Slots fields} (h : before.Match onNode (onToken field.name) after)
      (rest : Match onNode onToken first second) :
      Match onNode onToken (.cons before first) (.cons after second)

theorem forall₂_filterMap {α : Type} {R : α → α → Prop} {f : α → Option α} {as : List α}
    (h : ∀ a ∈ as, ∃ b, f a = some b ∧ R a b) : List.Forall₂ R as (as.filterMap f) := by
  induction as with
  | nil => exact .nil
  | cons a as ih =>
    obtain ⟨b, hb, hr⟩ := h a List.mem_cons_self
    rw [List.filterMap_cons_some hb]
    exact .cons hr (ih fun other ho => h other (List.mem_cons_of_mem _ ho))

namespace Reply

variable {reply : Reply} {onNode : Node → Node → Prop} {onToken : Token → Token → Prop}

theorem faultsIn_matches {requests : List Request}
    (h : ∀ request ∈ requests, reply.Matches onNode onToken request) :
    reply.faultsIn requests = [] :=
  faultsIn_eq_nil fun request hr => (h request hr).1

theorem slot_match (parent : Kind) (name : String) {shape : Shape} (slot : Slot shape)
    (h : ∀ request ∈ slot.requests, reply.Matches onNode onToken request) :
    reply.missing parent name slot = [] ∧
      slot.Match onNode onToken (reply.slotResult slot) := by
  cases slot with
  | node child =>
    obtain ⟨-, result, hr, hmatch⟩ := h (.node child) List.mem_cons_self
    simp only [Request.node] at hr hmatch
    simp only [missing, slotResult, hr, Option.getD_some]
    exact ⟨rfl, .node hmatch⟩
  | optNode child =>
    cases child with
    | none => exact ⟨rfl, .optNode .none⟩
    | some child =>
      obtain ⟨-, result, hr, hmatch⟩ := h (.node child) List.mem_cons_self
      simp only [Request.node] at hr hmatch
      simp only [missing, slotResult, hr, Option.bind_some]
      exact ⟨trivial, .optNode (.some hmatch)⟩
  | token child =>
    obtain ⟨-, result, hr, hmatch⟩ := h (.token child) List.mem_cons_self
    simp only [Request.token] at hr hmatch
    simp only [missing, slotResult, hr, Option.getD_some]
    exact ⟨rfl, .token hmatch⟩
  | optToken child =>
    cases child with
    | none => exact ⟨rfl, .optToken .none⟩
    | some child =>
      obtain ⟨-, result, hr, hmatch⟩ := h (.token child) List.mem_cons_self
      simp only [Request.token] at hr hmatch
      simp only [missing, slotResult, hr, Option.bind_some]
      exact ⟨trivial, .optToken (.some hmatch)⟩
  | nodes children => exact ⟨rfl, .nodes (h ⟨.nodes, children⟩ List.mem_cons_self).2⟩
  | tokens children => exact ⟨rfl, .tokens (h ⟨.tokens, children⟩ List.mem_cons_self).2⟩
  | separated children =>
    exact ⟨rfl, .separated (h ⟨.separated, children⟩ List.mem_cons_self).2⟩

theorem slots_match (parent : Kind) : {fields : List Field} → (slots : Slots fields) →
    (∀ request ∈ slots.requests, reply.Matches onNode onToken request) →
    reply.slotsFaults parent slots = [] ∧
      slots.Match onNode (fun _ => onToken) (reply.slotsResult slots)
  | _, .nil, _ => ⟨rfl, .nil⟩
  | field :: _, .cons slot rest, h => by
    have hslot : ∀ request ∈ slot.requests, reply.Matches onNode onToken request :=
      fun request hr => h request (List.mem_append_left _ hr)
    obtain ⟨hmissing, hmatch⟩ := slot_match parent field.name slot hslot
    obtain ⟨hfaults, hrest⟩ :=
      slots_match parent rest fun request hr => h request (List.mem_append_right _ hr)
    constructor
    · rw [slotsFaults, faultsIn_matches hslot, hmissing, hfaults]
      rfl
    · exact .cons hmatch hrest

theorem separatedResult_match {list : Separated Node Token}
    (h : ∀ request ∈ pairRequests list.elements list.separators,
      reply.Matches onNode onToken request) :
    Separated.Match onNode onToken list (reply.separatedResult list) := by
  obtain ⟨hes, hss⟩ := mem_pairRequests_take list.elements list.separators
  have helements : ∀ element ∈ list.elements,
      ∃ node, reply.result .node element = some node ∧ onNode element node :=
    fun element he => (h _ (hes element he)).2
  have hpresent : ∀ element ∈ list.elements, (reply.result .node element).isSome = true := by
    intro element he
    obtain ⟨node, hn, -⟩ := helements element he
    exact Option.isSome_iff_exists.mpr ⟨node, hn⟩
  constructor
  · rw [elements_separatedResult]
    exact forall₂_filterMap helements
  · rw [separators_separatedResult hpresent]
    exact forall₂_filterMap fun separator hs => (h _ (hss separator hs)).2

/-- The walk of a part other than a node or a token puts its results together. -/
theorem walk_matches {structured : Bool} {part : Part} {value : part.Value} (hnode : part ≠ .node)
    (htoken : part ≠ .token)
    (h : ∀ request ∈ part.requests structured value, reply.Matches onNode onToken request) :
    (reply.walk structured).Matches onNode onToken ⟨part, value⟩ := by
  refine ⟨(faults_walk_of_part value hnode).trans (faultsIn_matches h), ?_⟩
  cases part with
  | node => exact absurd rfl hnode
  | token => exact absurd rfl htoken
  | trivia | trivias => trivial
  | nodes => exact forall₂_filterMap fun node hn => (h _ (List.mem_map_of_mem hn)).2
  | separated => exact separatedResult_match h
  | tokens => exact forall₂_filterMap fun token ht => (h _ (List.mem_map_of_mem ht)).2

end Reply

/-! ### Objects that come back -/

theorem eq_of_sameAll {α : Type} {R : α → α → Prop} {same : α → α → Bool}
    (fresh : ∀ a b, R a b → same a b = true → b = a) {as bs : List α} (h : List.Forall₂ R as bs)
    (hsame : sameAll same as bs = true) : bs = as := by
  induction h with
  | nil => rfl
  | cons hab _ ih =>
    simp only [sameAll, Bool.and_eq_true] at hsame
    rw [fresh _ _ hab hsame.1, ih hsame.2]

section Fresh

variable {onNode : Node → Node → Prop} (freshNode : ∀ a b, onNode a b → a.same b = true → b = a)
include freshNode

theorem Separated.Match.eq_of_same {onToken : Token → Token → Prop}
    (freshToken : ∀ a b, onToken a b → a.same b = true → b = a)
    {before after : Separated Node Token}
    (h : Separated.Match onNode onToken before after)
    (hsame : Part.same .separated before after = true) : after = before := by
  simp only [Part.same, Bool.and_eq_true] at hsame
  -- as many separators as before, so none of them was surplus
  have hlength := length_eq_of_sameAll hsame.2
  have hall : before.separators.take before.elements.length = before.separators := by
    have htake := h.separators.length_eq
    rw [← hlength, List.length_take] at htake
    exact List.take_of_length_le (by omega)
  have hseparators := h.separators
  rw [hall] at hseparators
  have helements := eq_of_sameAll freshNode h.elements hsame.1
  have hrest := eq_of_sameAll freshToken hseparators hsame.2
  cases before
  cases after
  simp only at helements hrest
  rw [helements, hrest]

theorem Slot.Match.eq_of_same {onToken : Token → Token → Prop}
    (freshToken : ∀ a b, onToken a b → a.same b = true → b = a) {shape : Shape}
    {before after : Slot shape} (h : before.Match onNode onToken after)
    (hsame : before.same after = true) : after = before := by
  cases h with
  | node h => rw [freshNode _ _ h hsame]
  | optNode h =>
    cases h with
    | none => rfl
    | some h => rw [freshNode _ _ h hsame]
  | token h => rw [freshToken _ _ h hsame]
  | optToken h =>
    cases h with
    | none => rfl
    | some h => rw [freshToken _ _ h hsame]
  | nodes h => rw [eq_of_sameAll freshNode h hsame]
  | tokens h => rw [eq_of_sameAll freshToken h hsame]
  | separated h => rw [h.eq_of_same freshNode freshToken hsame]

/-- Fields that hold the same objects are equal, if related objects are equal when they are
the same. -/
theorem Slots.Match.eq_of_same {onToken : String → Token → Token → Prop}
    (freshToken : ∀ name a b, onToken name a b → a.same b = true → b = a) {fields : List Field}
    {before after : Slots fields} (h : before.Match onNode onToken after)
    (hsame : before.same after = true) : after = before := by
  induction h with
  | nil => rfl
  | cons hslot _ ih =>
    simp only [Slots.same, Bool.and_eq_true] at hsame
    rw [hslot.eq_of_same freshNode (freshToken _) hsame.1, ih hsame.2]

end Fresh

/-- A walk gives back the node, or one without a label, with the results of its fields. -/
theorem Reply.nodeResult_eq {reply : Reply} (info : Info) {kind : Kind} {slots : Slots kind.fields}
    (fresh : slots.same (reply.slotsResult slots) = true → reply.slotsResult slots = slots) :
    ∃ after : Info,
      reply.nodeResult (.mk info kind slots) = .mk after kind (reply.slotsResult slots) ∧
        (after.label = none ∨
          Node.mk after kind (reply.slotsResult slots) = .mk info kind slots) := by
  by_cases hsame : slots.same (reply.slotsResult slots) = true
  · refine ⟨info, ?_, .inr (by rw [fresh hsame])⟩
    rw [nodeResult, fresh hsame]
    exact if_pos (fresh hsame ▸ hsame)
  · exact ⟨{ metadata := info.metadata }, if_neg hsame, .inl rfl⟩

/-! ### Traversals that settle every part -/

namespace Traversal

/-- A hook for one kind is in charge of the nodes of that kind. -/
theorem hookFor_withHook_node (traversal : Traversal σ) (kind : Kind) (hook : Hook σ (.node kind))
    (node : Node) :
    (traversal.withHook (.node kind) hook).hookFor .node node =
      if node.kind = kind then some hook else traversal.hookFor .node node := by
  simp only [hookFor]
  by_cases hkind : node.kind = kind
  · subst hkind
    rw [if_pos rfl, hooks_withHook_self]
  · have hpoint : Point.node kind ≠ .node node.kind := fun h => hkind (Point.node.inj h).symm
    have hdefault : Point.node kind ≠ .default := fun h => nomatch h
    rw [if_neg hkind, hooks_withHook_other _ _ _ _ hpoint, hooks_withHook_other _ _ _ _ hdefault]

/-- Each node is walked and then replaced as `rework` says, which sees it before and after
the walk; tokens are decided on as `decide` says, or walked. -/
structure Reworks (traversal : Traversal σ) (rework : Node → Node → Node)
    (decide : Token → Option Token) : Prop where
  node : ∀ node hook, traversal.hookFor .node node = some hook →
    hook node = Plan.walk .node node >>= fun walked => pure (walked.map (rework node))
  node_free : ∀ node, traversal.hookFor .node node = none → ∀ walked, rework node walked = walked
  token : ∀ token hook, traversal.hookFor .token token = some hook →
    hook token = match decide token with
      | some result => pure (some result)
      | none => Plan.walk .token token
  token_free : ∀ token, traversal.hookFor .token token = none → decide token = none
  other : ∀ (part : Part) (value : part.Value), part ≠ .node → part ≠ .token →
    traversal.hookFor part value = none

namespace Reworks

variable {traversal : Traversal σ} {rework : Node → Node → Node} {decide : Token → Option Token}

theorem modest (h : traversal.Reworks rework decide) : traversal.Modest := by
  intro part value hook hhook
  cases part with
  | node =>
    rw [h.node value hook hhook]
    exact .ask ⟨rfl, rfl⟩ fun walked => .pure _
  | token =>
    rw [h.token value hook hhook]
    cases decide value with
    | some result => exact .pure _
    | none => exact .ask ⟨rfl, rfl⟩ fun walked => .pure _
  | trivia | nodes | separated | tokens | trivias =>
    rw [h.other _ value (by simp) (by simp)] at hhook
    exact nomatch hhook

theorem round_node_of_walk (h : traversal.Reworks rework decide) {visit : Visit σ}
    {node walked : Node} {start next : σ}
    (hwalk : visit.walk traversal.structured .node node start = .done (some walked) next) :
    traversal.round visit .node node start = .done (some (rework node walked)) next := by
  rw [round]
  cases hhook : traversal.hookFor .node node with
  | none =>
    rw [h.node_free node hhook]
    exact hwalk
  | some hook =>
    simp only [h.node node hook hhook, Plan.run_seq]
    rw [Plan.run_walk _ _ _ .node, Visit.answer, hwalk]
    rfl

end Reworks

end Traversal

end SourceTree
