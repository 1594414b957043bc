import SourceTree.Proofs.Traversal.Request

/-!
Traversals without fuel. A hook is modest when it asks for nothing but the walk of the part
it was given. A traversal with modest hooks needs two rounds for each level of the tree, and
with that many its visits are the one solution of the equation `Traversal.round`: to visit a
part is to run its hook, or its walk, with the visits of the smaller parts as answers.
-/
namespace SourceTree

variable {σ α β : Type}

/-! ### Running plans -/

@[simp] theorem Outcome.bind_done_right (outcome : Outcome σ α) :
    (outcome.bind fun value state => .done value state) = outcome := by
  cases outcome <;> rfl

namespace Plan

section Run

variable (answer : Answer σ) (traversal : Traversal σ) (state : σ)

@[simp] theorem run_pure (value : α) :
    (Pure.pure value : Plan σ α).run answer traversal state = .done value state := rfl

@[simp] theorem run_seq (plan : Plan σ α) (f : α → Plan σ β) :
    (plan >>= f).run answer traversal state =
      (plan.run answer traversal state).bind fun value state =>
        (f value).run answer traversal state :=
  Plan.run_bind answer plan f traversal state

@[simp] theorem run_visit (part : Part) (value : part.Value) :
    (Plan.visit part value).run answer traversal state = answer traversal .visit part value state :=
  Outcome.bind_done_right _

@[simp] theorem run_walk (part : Part) (value : part.Value) :
    (Plan.walk part value).run answer traversal state = answer traversal .walk part value state :=
  Outcome.bind_done_right _

end Run

/-- Every request that a plan can make satisfies `allowed`, and the plan leaves the hooks as
they are. -/
inductive Asks (allowed : Manner → Request → Prop) : {α : Type} → Plan σ α → Prop where
  | pure {α : Type} (value : α) : Asks allowed (.pure value)
  | fail {α : Type} (fault : Fault) : Asks allowed (.fail fault : Plan σ α)
  | get {α : Type} {next : σ → Plan σ α} (h : ∀ state, Asks allowed (next state)) :
      Asks allowed (.get next)
  | put {α : Type} (state : σ) {next : Plan σ α} (h : Asks allowed next) :
      Asks allowed (.put state next)
  | ask {α : Type} {manner : Manner} {part : Part} {value : part.Value}
      {next : part.Result → Plan σ α} (request : allowed manner ⟨part, value⟩)
      (h : ∀ result, Asks allowed (next result)) : Asks allowed (.ask manner part value next)

namespace Asks

variable {allowed : Manner → Request → Prop}

theorem seq {plan : Plan σ α} {f : α → Plan σ β} (h : plan.Asks allowed)
    (hf : ∀ value, (f value).Asks allowed) : (plan >>= f).Asks allowed := by
  change (plan.bind f).Asks allowed
  induction h with
  | pure value => exact hf value
  | fail fault => exact .fail fault
  | get _ ih => exact .get ih
  | put state _ ih => exact .put state ih
  | ask request _ ih => exact .ask request ih

theorem visit {part : Part} {value : part.Value} (h : allowed .visit ⟨part, value⟩) :
    (Plan.visit part value : Plan σ part.Result).Asks allowed :=
  .ask h fun result => .pure result

theorem mono {other : Manner → Request → Prop} {plan : Plan σ α} (h : plan.Asks allowed)
    (hsub : ∀ manner request, allowed manner request → other manner request) :
    plan.Asks other := by
  induction h with
  | pure value => exact .pure value
  | fail fault => exact .fail fault
  | get _ ih => exact .get ih
  | put state _ ih => exact .put state ih
  | ask request _ ih => exact .ask (hsub _ _ request) ih

/-- The run of a plan is settled by the answers to what it may ask for. -/
theorem run_congr {plan : Plan σ α} (h : plan.Asks allowed) {first second : Answer σ}
    {left right : Traversal σ}
    (hsame : ∀ manner request, allowed manner request → ∀ state,
      first left manner request.part request.value state =
        second right manner request.part request.value state) (state : σ) :
    plan.run first left state = plan.run second right state := by
  induction h generalizing state with
  | pure value => rfl
  | fail fault => rfl
  | get _ ih => exact ih state state
  | put other _ ih => exact ih other
  | ask request _ ih =>
    simp only [Plan.run]
    rw [hsame _ _ request state]
    congr 1
    funext result state
    exact ih result state

end Asks

end Plan

/-! ### Walks ask for the next smaller parts -/

/-- A visit of one of the listed parts. -/
def visitOf (requests : List Request) (manner : Manner) (request : Request) : Prop :=
  manner = .visit ∧ request ∈ requests

theorem visitOf.left {as : List Request} (bs : List Request) {manner : Manner} {request : Request}
    (h : visitOf as manner request) : visitOf (as ++ bs) manner request :=
  ⟨h.1, List.mem_append_left bs h.2⟩

theorem visitOf.right (as : List Request) {bs : List Request} {manner : Manner} {request : Request}
    (h : visitOf bs manner request) : visitOf (as ++ bs) manner request :=
  ⟨h.1, List.mem_append_right as h.2⟩

open Plan (Asks)

theorem walkNodes_asks (nodes : List Node) :
    (walkNodes nodes : Plan σ _).Asks (visitOf (nodes.map .node)) := by
  induction nodes with
  | nil => exact .pure []
  | cons node nodes ih =>
    apply Asks.seq (.visit ⟨rfl, List.mem_cons_self⟩)
    intro result
    have hrest := ih.mono fun _ _ h => h.right [.node node]
    exact hrest.seq fun rest => .pure _

theorem walkTokens_asks (tokens : List Token) :
    (walkTokens tokens : Plan σ _).Asks (visitOf (tokens.map .token)) := by
  induction tokens with
  | nil => exact .pure []
  | cons token tokens ih =>
    apply Asks.seq (.visit ⟨rfl, List.mem_cons_self⟩)
    intro result
    have hrest := ih.mono fun _ _ h => h.right [.token token]
    exact hrest.seq fun rest => .pure _

theorem walkTrivias_asks (trivias : List Trivia) :
    (walkTrivias trivias : Plan σ _).Asks (visitOf (trivias.map .trivia)) := by
  induction trivias with
  | nil => exact .pure []
  | cons trivia trivias ih =>
    apply Asks.seq (.visit ⟨rfl, List.mem_cons_self⟩)
    intro result
    have hrest := ih.mono fun _ _ h => h.right [.trivia trivia]
    exact hrest.seq fun rest => .pure _

theorem visitOptNode_asks (node : Option Node) :
    (visitOptNode node : Plan σ _).Asks (visitOf (node.toList.map .node)) := by
  cases node with
  | none => exact .pure none
  | some node => exact .visit ⟨rfl, List.mem_cons_self⟩

theorem visitOptToken_asks (token : Option Token) :
    (visitOptToken token : Plan σ _).Asks (visitOf (token.toList.map .token)) := by
  cases token with
  | none => exact .pure none
  | some token => exact .visit ⟨rfl, List.mem_cons_self⟩

theorem walkPairs_asks (elements : List Node) (separators : List Token) :
    (walkPairs elements separators : Plan σ _).Asks
      (visitOf (pairRequests elements separators)) := by
  induction elements generalizing separators with
  | nil => exact .pure []
  | cons element elements ih =>
    apply Asks.seq (.visit ⟨rfl, List.mem_cons_self⟩)
    intro result
    refine Asks.seq ((visitOptToken_asks separators.head?).mono ?_) fun separator =>
      Asks.seq ((ih separators.tail).mono ?_) fun rest => .pure _
    · intro manner request h
      exact (h.left (pairRequests elements separators.tail)).right [.node element]
    · intro manner request h
      exact (h.right (separators.head?.toList.map .token)).right [.node element]

theorem walkSlot_asks (parent : Kind) (name : String) {shape : Shape} (slot : Slot shape) :
    (walkSlot parent name slot : Plan σ _).Asks (visitOf slot.requests) := by
  cases slot with
  | node child =>
    apply Asks.seq (.visit ⟨rfl, List.mem_cons_self⟩)
    intro result
    cases result with
    | none => exact .fail _
    | some child => exact .pure _
  | optNode child => exact (visitOptNode_asks child).seq fun child => .pure _
  | token child =>
    apply Asks.seq (.visit ⟨rfl, List.mem_cons_self⟩)
    intro result
    cases result with
    | none => exact .fail _
    | some child => exact .pure _
  | optToken child => exact (visitOptToken_asks child).seq fun child => .pure _
  | nodes children => exact Asks.seq (.visit ⟨rfl, List.mem_cons_self⟩) fun children => .pure _
  | tokens children => exact Asks.seq (.visit ⟨rfl, List.mem_cons_self⟩) fun children => .pure _
  | separated children => exact Asks.seq (.visit ⟨rfl, List.mem_cons_self⟩) fun children => .pure _

theorem walkSlots_asks (parent : Kind) : {fields : List Field} → (slots : Slots fields) →
    (walkSlots parent slots : Plan σ _).Asks (visitOf slots.requests)
  | _, .nil => .pure _
  | field :: _, .cons slot rest => by
    refine Asks.seq ((walkSlot_asks parent field.name slot).mono ?_) fun slot =>
      Asks.seq ((walkSlots_asks parent rest).mono ?_) fun rest => .pure _
    · intro manner request h
      exact h.left rest.requests
    · intro manner request h
      exact h.right _

theorem walkPart_asks (structured : Bool) (part : Part) (value : part.Value) :
    (walkPart structured part value : Plan σ _).Asks
      (visitOf (part.requests structured value)) := by
  cases part with
  | node => exact (walkSlots_asks _ _).seq fun slots => .pure _
  | token =>
    apply Asks.seq (.visit ⟨rfl, List.mem_cons_self⟩)
    intro leading
    apply Asks.seq (.visit ⟨rfl, List.mem_cons_of_mem _ List.mem_cons_self⟩)
    intro trailing
    split <;> exact .pure _
  | trivia =>
    simp only [walkPart, walkTrivia]
    cases hi : Trivia.inner value with
    | none => exact .pure _
    | some inner =>
      cases structured with
      | false => exact .pure _
      | true =>
        have hmem : Request.node inner ∈ Part.requests true .trivia value := by
          simp [Part.requests, hi]
        apply Asks.seq (.visit ⟨rfl, hmem⟩)
        intro result
        cases result <;> exact .pure _
  | nodes => exact walkNodes_asks value
  | separated => exact (walkPairs_asks _ _).seq fun pairs => .pure _
  | tokens => exact walkTokens_asks value
  | trivias => exact walkTrivias_asks value

/-! ### Modest hooks -/

/-- The walk of one part. -/
def walkOf (part : Part) (value : part.Value) (manner : Manner) (request : Request) : Prop :=
  manner = .walk ∧ request = ⟨part, value⟩

/-- The outcome of visiting each part. -/
abbrev Visit (σ : Type) : Type := (part : Part) → part.Value → σ → Outcome σ part.Result

/-- The walk of a part whose smaller parts are visited by `visit`. -/
def Visit.walk (visit : Visit σ) (structured : Bool) : Visit σ := fun part value state =>
  (walkPart structured part value).run (fun _ _ => visit) .empty state

/-- Answers out of given visits: a visit as given, a walk by visiting the smaller parts. -/
def Visit.answer (visit : Visit σ) (structured : Bool) : Answer σ
  | _, .visit => visit
  | _, .walk => visit.walk structured

namespace Traversal

/-- Every hook asks for nothing but the walk of what it was given. -/
def Modest (traversal : Traversal σ) : Prop :=
  ∀ part value hook, traversal.hookFor part value = some hook →
    (hook value).Asks (walkOf part value)

/-- Visits of parts, out of visits of the smaller ones. -/
def round (traversal : Traversal σ) (visit : Visit σ) : Visit σ := fun part value state =>
  match traversal.hookFor part value with
  | none => visit.walk traversal.structured part value state
  | some hook => (hook value).run (visit.answer traversal.structured) traversal state

/-- Walks with enough fuel for the smaller parts visit those as `visit` does. -/
theorem run_walkPart_answer {traversal : Traversal σ} {visit : Visit σ} {fuel : Nat} {part : Part}
    {value : part.Value}
    (h : ∀ request ∈ part.requests traversal.structured value, ∀ state,
      answer fuel traversal .visit request.part request.value state =
        visit request.part request.value state) (state : σ) :
    (walkPart traversal.structured part value).run (answer fuel) traversal state =
      visit.walk traversal.structured part value state := by
  apply (walkPart_asks traversal.structured part value).run_congr
  rintro manner request ⟨rfl, hr⟩ state
  exact h request hr state

/-- One level takes two units of fuel: one for the hook and one for the walk. -/
theorem answer_eq_round {traversal : Traversal σ} (modest : traversal.Modest) {visit : Visit σ}
    {fuel : Nat} {part : Part} {value : part.Value}
    (h : ∀ request ∈ part.requests traversal.structured value, ∀ less, fuel ≤ less →
      less < fuel + 2 → ∀ state, answer less traversal .visit request.part request.value state =
        visit request.part request.value state) (state : σ) :
    answer (fuel + 2) traversal .visit part value state =
      traversal.round visit part value state := by
  simp only [answer, respond, round]
  cases hhook : traversal.hookFor part value with
  | none =>
    exact run_walkPart_answer
      (fun request hr => h request hr (fuel + 1) (by omega) (by omega)) state
  | some hook =>
    apply (modest part value hook hhook).run_congr
    rintro manner request ⟨rfl, rfl⟩ state
    exact run_walkPart_answer (fun request hr => h request hr fuel (by omega) (by omega)) state

/-- The visits of a traversal with modest hooks are the solution of `round`, once there are
two units of fuel for each level. -/
theorem answer_eq_visit {traversal : Traversal σ} (modest : traversal.Modest) {visit : Visit σ}
    (fixed : ∀ part value state, traversal.round visit part value state = visit part value state)
    {fuel : Nat} {part : Part} {value : part.Value} (enough : 2 * part.depth value ≤ fuel)
    (state : σ) :
    answer fuel traversal .visit part value state = visit part value state := by
  induction fuel using Nat.strongRecOn generalizing part value state with
  | ind fuel ih =>
    have hpos := part.depth_pos value
    obtain ⟨fuel, rfl⟩ : ∃ less, fuel = less + 2 := ⟨fuel - 2, by omega⟩
    rw [← fixed part value state]
    apply answer_eq_round modest
    intro request hr less hle hlt state
    have hdepth : request.part.depth request.value < part.depth value := Part.depth_requests hr
    exact ih less hlt (by omega) state

end Traversal

end SourceTree
