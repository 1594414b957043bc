import Mathlib.Data.List.Basic
import SourceTree.Proofs.Traversal.Fuel

/-!
Traversals that keep no state. Such a traversal is given by two functions: the faults that
the visit of a part meets, in order, and the result of the visit when it meets none. The
first fault ends a visit. `Reply.walk` computes both for a walk from the same two functions
on the smaller parts, so a claim about such a traversal needs no run of any plan.
-/
namespace SourceTree

variable {σ α β : Type}

/-- A value, unless there are faults; then the first of them. -/
def Outcome.verdict (faults : List Fault) (value : α) (state : σ) : Outcome σ α :=
  match faults with
  | [] => .done value state
  | fault :: _ => .failed fault state

@[simp] theorem Outcome.verdict_nil (value : α) (state : σ) :
    Outcome.verdict [] value state = .done value state := rfl

/-- One verdict after another: the faults of both, in order. -/
theorem Outcome.verdict_bind (faults : List Fault) (value : α) (state : σ)
    (more : α → List Fault) (next : α → β) :
    ((verdict faults value state).bind fun value state => verdict (more value) (next value) state) =
      verdict (faults ++ more value) (next value) state := by
  cases faults <;> rfl

theorem Outcome.verdict_bind_done (faults : List Fault) (value : α) (state : σ) (next : α → β) :
    ((verdict faults value state).bind fun value state => .done (next value) state) =
      verdict faults (next value) state := by
  cases faults <;> rfl

/-- The answers of a traversal that keeps no state. -/
structure Reply where
  faults : (part : Part) → part.Value → List Fault
  result : (part : Part) → part.Value → part.Result

namespace Reply

def visit (reply : Reply) : Visit σ := fun part value state =>
  .verdict (reply.faults part value) (reply.result part value) state

/-! ### Walks -/

def faultsIn (reply : Reply) (requests : List Request) : List Fault :=
  requests.flatMap fun request => reply.faults request.part request.value

/-- Reports a required child that was removed. -/
def missing (reply : Reply) (parent : Kind) (name : String) :
    {shape : Shape} → Slot shape → List Fault
  | _, .node child => if (reply.result .node child).isNone then [.missingChild parent name] else []
  | _, .optNode _ => []
  | _, .token child =>
    if (reply.result .token child).isNone then [.missingChild parent name] else []
  | _, .optToken _ => []
  | _, .nodes _ => []
  | _, .tokens _ => []
  | _, .separated _ => []

def slotsFaults (reply : Reply) (parent : Kind) : {fields : List Field} → Slots fields → List Fault
  | _, .nil => []
  | field :: _, .cons slot rest =>
    reply.faultsIn slot.requests ++ reply.missing parent field.name slot ++
      reply.slotsFaults parent rest

/-- The new content of a field. A required child that was removed stands here as it was; its
absence is among the faults. -/
def slotResult (reply : Reply) : {shape : Shape} → Slot shape → Slot shape
  | _, .node child => .node ((reply.result .node child).getD child)
  | _, .optNode child => .optNode (child.bind (reply.result .node))
  | _, .token child => .token ((reply.result .token child).getD child)
  | _, .optToken child => .optToken (child.bind (reply.result .token))
  | _, .nodes children => .nodes (reply.result .nodes children)
  | _, .tokens children => .tokens (reply.result .tokens children)
  | _, .separated children => .separated (reply.result .separated children)

def slotsResult (reply : Reply) : {fields : List Field} → Slots fields → Slots fields
  | _, .nil => .nil
  | _, .cons slot rest => .cons (reply.slotResult slot) (reply.slotsResult rest)

/-- The elements that stay, each with what became of the separator behind it. -/
def pairs (reply : Reply) : List Node → List Token → List (Node × Option Token)
  | [], _ => []
  | element :: elements, separators =>
    ((reply.result .node element).map fun element =>
      (element, separators.head?.bind (reply.result .token))).toList ++
      reply.pairs elements separators.tail

def tokenResult (reply : Reply) (token : Token) : Token :=
  let leading := reply.result .trivias token.leading
  let trailing := reply.result .trivias token.trailing
  if sameAll Trivia.same token.leading leading && sameAll Trivia.same token.trailing trailing then
    token
  else .mk none token.kind token.text leading trailing

def triviaResult (reply : Reply) (structured : Bool) (trivia : Trivia) : Option Trivia :=
  match trivia.inner with
  | some inner =>
    if structured then
      (reply.result .node inner).map fun result =>
        if inner.same result then trivia else trivia.withInner result
    else some trivia
  | none => some trivia

def nodeResult (reply : Reply) (node : Node) : Node :=
  if node.slots.same (reply.slotsResult node.slots) then node
  else node.rebuild (reply.slotsResult node.slots)

def separatedResult (reply : Reply) (list : Separated Node Token) : Separated Node Token :=
  let pairs := reply.pairs list.elements list.separators
  ofPairs (if list.hasTrailing then pairs else openEnd pairs)

/-- The reply of a walk whose smaller parts are visited with the given reply. -/
def walk (reply : Reply) (structured : Bool) : Reply where
  faults
    | .node, value => reply.slotsFaults (Node.kind value) (Node.slots value)
    | part, value => reply.faultsIn (part.requests structured value)
  result
    | .node, value => some (reply.nodeResult value)
    | .token, value => some (reply.tokenResult value)
    | .trivia, value => reply.triviaResult structured value
    | .nodes, value => List.filterMap (reply.result .node) value
    | .separated, value => reply.separatedResult value
    | .tokens, value => List.filterMap (reply.result .token) value
    | .trivias, value => List.filterMap (reply.result .trivia) value

theorem faults_walk_of_part {reply : Reply} {structured : Bool} {part : Part} (value : part.Value)
    (h : part ≠ .node) :
    (reply.walk structured).faults part value =
      reply.faultsIn (part.requests structured value) := by
  cases part with
  | node => exact absurd rfl h
  | token | trivia | nodes | separated | tokens | trivias => rfl

/-! ### Walks run as their replies say -/

section Run

variable (reply : Reply) (traversal : Traversal σ) (state : σ)

@[simp] theorem faultsIn_nil : reply.faultsIn [] = [] := rfl

theorem faultsIn_cons (request : Request) (requests : List Request) :
    reply.faultsIn (request :: requests) =
      reply.faults request.part request.value ++ reply.faultsIn requests := rfl

theorem faultsIn_append (as bs : List Request) :
    reply.faultsIn (as ++ bs) = reply.faultsIn as ++ reply.faultsIn bs :=
  List.flatMap_append

theorem faultsIn_eq_nil {reply : Reply} {requests : List Request}
    (h : ∀ request ∈ requests, reply.faults request.part request.value = []) :
    reply.faultsIn requests = [] :=
  List.flatMap_eq_nil_iff.mpr h

theorem run_walkNodes (nodes : List Node) :
    (walkNodes nodes).run (fun _ _ => reply.visit) traversal state =
      .verdict (reply.faultsIn (nodes.map .node)) (nodes.filterMap (reply.result .node)) state := by
  induction nodes generalizing state with
  | nil => rfl
  | cons node nodes ih =>
    rw [walkNodes, Plan.run_seq, Plan.run_visit]
    simp only [Plan.run_seq, Plan.run_pure, ih, visit]
    simp only [Outcome.verdict_bind_done, Outcome.verdict_bind]
    rw [List.map_cons, faultsIn_cons, List.filterMap_cons]
    cases h : reply.result .node node <;> rfl

theorem run_walkTokens (tokens : List Token) :
    (walkTokens tokens).run (fun _ _ => reply.visit) traversal state =
      .verdict (reply.faultsIn (tokens.map .token)) (tokens.filterMap (reply.result .token))
        state := by
  induction tokens generalizing state with
  | nil => rfl
  | cons token tokens ih =>
    rw [walkTokens, Plan.run_seq, Plan.run_visit]
    simp only [Plan.run_seq, Plan.run_pure, ih, visit]
    simp only [Outcome.verdict_bind_done, Outcome.verdict_bind]
    rw [List.map_cons, faultsIn_cons, List.filterMap_cons]
    cases h : reply.result .token token <;> rfl

theorem run_walkTrivias (trivias : List Trivia) :
    (walkTrivias trivias).run (fun _ _ => reply.visit) traversal state =
      .verdict (reply.faultsIn (trivias.map .trivia)) (trivias.filterMap (reply.result .trivia))
        state := by
  induction trivias generalizing state with
  | nil => rfl
  | cons trivia trivias ih =>
    rw [walkTrivias, Plan.run_seq, Plan.run_visit]
    simp only [Plan.run_seq, Plan.run_pure, ih, visit]
    simp only [Outcome.verdict_bind_done, Outcome.verdict_bind]
    rw [List.map_cons, faultsIn_cons, List.filterMap_cons]
    cases h : reply.result .trivia trivia <;> rfl

theorem run_visitOptNode (node : Option Node) :
    (visitOptNode node).run (fun _ _ => reply.visit) traversal state =
      .verdict (reply.faultsIn (node.toList.map .node)) (node.bind (reply.result .node)) state := by
  cases node with
  | none => rfl
  | some node =>
    rw [visitOptNode, Plan.run_visit, Option.toList_some, List.map_cons, List.map_nil,
      faultsIn_cons, faultsIn_nil, List.append_nil, Option.bind_some]
    rfl

theorem run_visitOptToken (token : Option Token) :
    (visitOptToken token).run (fun _ _ => reply.visit) traversal state =
      .verdict (reply.faultsIn (token.toList.map .token)) (token.bind (reply.result .token))
        state := by
  cases token with
  | none => rfl
  | some token =>
    rw [visitOptToken, Plan.run_visit, Option.toList_some, List.map_cons, List.map_nil,
      faultsIn_cons, faultsIn_nil, List.append_nil, Option.bind_some]
    rfl

theorem run_walkPairs (elements : List Node) (separators : List Token) :
    (walkPairs elements separators).run (fun _ _ => reply.visit) traversal state =
      .verdict (reply.faultsIn (pairRequests elements separators))
        (reply.pairs elements separators) state := by
  induction elements generalizing separators state with
  | nil => rfl
  | cons element elements ih =>
    rw [walkPairs, Plan.run_seq, Plan.run_visit]
    simp only [Plan.run_seq, Plan.run_pure, run_visitOptToken, ih, visit]
    simp only [Outcome.verdict_bind_done, Outcome.verdict_bind]
    rw [pairRequests, faultsIn_cons, faultsIn_append]
    rfl

theorem run_walkSlot (parent : Kind) (name : String) {shape : Shape} (slot : Slot shape) :
    (walkSlot parent name slot).run (fun _ _ => reply.visit) traversal state =
      .verdict (reply.faultsIn slot.requests ++ reply.missing parent name slot)
        (reply.slotResult slot) state := by
  cases slot with
  | node child =>
    rw [walkSlot, Plan.run_seq, Plan.run_visit]
    simp only [visit, Slot.requests, faultsIn_cons, faultsIn_nil, List.append_nil, missing,
      slotResult, Request.node]
    cases reply.result .node child <;> cases reply.faults .node child <;> rfl
  | optNode child =>
    simp only [walkSlot, Plan.run_seq, Plan.run_pure, run_visitOptNode]
    rw [Outcome.verdict_bind_done, missing, List.append_nil]
    rfl
  | token child =>
    rw [walkSlot, Plan.run_seq, Plan.run_visit]
    simp only [visit, Slot.requests, faultsIn_cons, faultsIn_nil, List.append_nil, missing,
      slotResult, Request.token]
    cases reply.result .token child <;> cases reply.faults .token child <;> rfl
  | optToken child =>
    simp only [walkSlot, Plan.run_seq, Plan.run_pure, run_visitOptToken]
    rw [Outcome.verdict_bind_done, missing, List.append_nil]
    rfl
  | nodes children | tokens children | separated children =>
    rw [walkSlot, Plan.run_seq, Plan.run_visit]
    simp only [Plan.run_pure, visit, Slot.requests, faultsIn_cons, faultsIn_nil, List.append_nil,
      missing, slotResult]
    rw [Outcome.verdict_bind_done]

theorem run_walkSlots (parent : Kind) : {fields : List Field} → (slots : Slots fields) →
    (state : σ) → (walkSlots parent slots).run (fun _ _ => reply.visit) traversal state =
      .verdict (reply.slotsFaults parent slots) (reply.slotsResult slots) state
  | _, .nil, _ => rfl
  | field :: _, .cons slot rest, state => by
    simp only [walkSlots, Plan.run_seq, Plan.run_pure, run_walkSlot reply traversal,
      run_walkSlots parent rest]
    simp only [Outcome.verdict_bind_done, Outcome.verdict_bind]
    rfl

/-- The walk of any part runs as the reply of the walk says. -/
theorem walk_visit (structured : Bool) (part : Part) (value : part.Value) :
    (reply.visit : Visit σ).walk structured part value state =
      (reply.walk structured).visit part value state := by
  cases part with
  | node =>
    simp only [Visit.walk, walkPart, walkNode, Plan.run_seq, Plan.run_pure, run_walkSlots]
    rw [Outcome.verdict_bind_done]
    rfl
  | token =>
    rw [Visit.walk, walkPart, walkToken, Plan.run_seq, Plan.run_visit]
    simp only [Plan.run_seq, visit, walk, Part.requests, faultsIn_cons, faultsIn_nil,
      List.append_nil, tokenResult]
    cases reply.faults .trivias (Token.leading value) with
    | cons fault faults => rfl
    | nil =>
      rw [Outcome.verdict_nil, Outcome.bind_done, Plan.run_visit, visit, List.nil_append]
      cases reply.faults .trivias (Token.trailing value) with
      | cons fault faults => rfl
      | nil =>
        rw [Outcome.verdict_nil, Outcome.bind_done, Outcome.verdict_nil]
        split <;> rfl
  | trivia =>
    simp only [Visit.walk, walkPart, walkTrivia, visit, walk, Part.requests, triviaResult]
    cases Trivia.inner value with
    | none => cases structured <;> rfl
    | some inner =>
      cases structured with
      | false => rfl
      | true =>
        simp only [if_true]
        rw [Plan.run_seq, Plan.run_visit]
        simp only [Option.toList_some, List.map_cons, List.map_nil, faultsIn_cons, faultsIn_nil,
          List.append_nil, visit, Request.node]
        cases reply.result .node inner <;> cases reply.faults .node inner <;> rfl
  | nodes => exact run_walkNodes reply _ state value
  | separated =>
    simp only [Visit.walk, walkPart, walkSeparated, Plan.run_seq, Plan.run_pure, run_walkPairs]
    rw [Outcome.verdict_bind_done]
    rfl
  | tokens => exact run_walkTokens reply _ state value
  | trivias => exact run_walkTrivias reply _ state value

end Run

/-! ### Walks depend on their requests only -/

section Congruence

/-- Two replies agree on a part. -/
def AgreeOn (first second : Reply) (request : Request) : Prop :=
  first.faults request.part request.value = second.faults request.part request.value ∧
    first.result request.part request.value = second.result request.part request.value

variable {first second : Reply}

theorem faultsIn_congr {requests : List Request}
    (h : ∀ request ∈ requests, AgreeOn first second request) :
    first.faultsIn requests = second.faultsIn requests := by
  induction requests with
  | nil => rfl
  | cons request requests ih =>
    have hrest := ih fun other ho => h other (List.mem_cons_of_mem _ ho)
    rw [faultsIn_cons, faultsIn_cons, hrest, (h request List.mem_cons_self).1]

theorem slot_congr (parent : Kind) (name : String) {shape : Shape} (slot : Slot shape)
    (h : ∀ request ∈ slot.requests, AgreeOn first second request) :
    first.missing parent name slot = second.missing parent name slot ∧
      first.slotResult slot = second.slotResult slot := by
  cases slot with
  | node child =>
    have hc : first.result .node child = second.result .node child := (h _ List.mem_cons_self).2
    simp only [missing, slotResult, hc, and_self]
  | optNode child =>
    cases child with
    | none => exact ⟨rfl, rfl⟩
    | some child =>
      have hc : first.result .node child = second.result .node child := (h _ List.mem_cons_self).2
      simp only [missing, slotResult, Option.bind_some, hc, and_self]
  | token child =>
    have hc : first.result .token child = second.result .token child := (h _ List.mem_cons_self).2
    simp only [missing, slotResult, hc, and_self]
  | optToken child =>
    cases child with
    | none => exact ⟨rfl, rfl⟩
    | some child =>
      have hc : first.result .token child = second.result .token child := (h _ List.mem_cons_self).2
      simp only [missing, slotResult, Option.bind_some, hc, and_self]
  | nodes children =>
    exact ⟨rfl, congrArg Slot.nodes (h ⟨.nodes, children⟩ List.mem_cons_self).2⟩
  | tokens children =>
    exact ⟨rfl, congrArg Slot.tokens (h ⟨.tokens, children⟩ List.mem_cons_self).2⟩
  | separated children =>
    exact ⟨rfl, congrArg Slot.separated (h ⟨.separated, children⟩ List.mem_cons_self).2⟩

theorem slots_congr (parent : Kind) : {fields : List Field} → (slots : Slots fields) →
    (∀ request ∈ slots.requests, AgreeOn first second request) →
    first.slotsFaults parent slots = second.slotsFaults parent slots ∧
      first.slotsResult slots = second.slotsResult slots
  | _, .nil, _ => ⟨rfl, rfl⟩
  | field :: _, .cons slot rest, h => by
    have hslot : ∀ request ∈ slot.requests, AgreeOn first second request :=
      fun request hr => h request (List.mem_append_left _ hr)
    obtain ⟨hmissing, hresult⟩ := slot_congr parent field.name slot hslot
    obtain ⟨hfaults, hrest⟩ :=
      slots_congr parent rest fun request hr => h request (List.mem_append_right _ hr)
    constructor
    · rw [slotsFaults, slotsFaults, faultsIn_congr hslot, hmissing, hfaults]
    · rw [slotsResult, slotsResult, hresult, hrest]

theorem pairs_congr {elements : List Node} {separators : List Token}
    (h : ∀ request ∈ pairRequests elements separators, AgreeOn first second request) :
    first.pairs elements separators = second.pairs elements separators := by
  induction elements generalizing separators with
  | nil => rfl
  | cons element elements ih =>
    have he : first.result .node element = second.result .node element :=
      (h _ List.mem_cons_self).2
    have hrest : first.pairs elements separators.tail = second.pairs elements separators.tail := by
      apply ih
      intro request hr
      exact h request (List.mem_cons_of_mem _ (List.mem_append_right _ hr))
    have hs : separators.head?.bind (first.result .token) =
        separators.head?.bind (second.result .token) := by
      cases separators with
      | nil => rfl
      | cons separator separators =>
        exact (h (.token separator) (List.mem_cons_of_mem _ List.mem_cons_self)).2
    rw [pairs, pairs, he, hs, hrest]

theorem walk_congr {structured : Bool} {part : Part} {value : part.Value}
    (h : ∀ request ∈ part.requests structured value, AgreeOn first second request) :
    AgreeOn (first.walk structured) (second.walk structured) ⟨part, value⟩ := by
  cases part with
  | node =>
    obtain ⟨hfaults, hresult⟩ := slots_congr (Node.kind value) (Node.slots value) h
    refine ⟨hfaults, ?_⟩
    simp only [walk, nodeResult, hresult]
  | token =>
    have hl : first.result .trivias (Token.leading value) =
        second.result .trivias (Token.leading value) := (h _ List.mem_cons_self).2
    have ht : first.result .trivias (Token.trailing value) =
        second.result .trivias (Token.trailing value) :=
      (h _ (List.mem_cons_of_mem _ List.mem_cons_self)).2
    refine ⟨faultsIn_congr h, ?_⟩
    simp only [walk, tokenResult, hl, ht]
  | trivia =>
    refine ⟨faultsIn_congr h, ?_⟩
    simp only [walk, triviaResult]
    cases hi : Trivia.inner value with
    | none => rfl
    | some inner =>
      cases structured with
      | false => rfl
      | true =>
        have hn : first.result .node inner = second.result .node inner :=
          (h (.node inner) (by simp [Part.requests, hi])).2
        simp only [hn]
  | nodes =>
    refine ⟨faultsIn_congr h, List.filterMap_congr ?_⟩
    intro node hn
    exact (h (.node node) (List.mem_map_of_mem hn)).2
  | separated =>
    refine ⟨faultsIn_congr h, ?_⟩
    simp only [walk, separatedResult, pairs_congr h]
  | tokens =>
    refine ⟨faultsIn_congr h, List.filterMap_congr ?_⟩
    intro token ht
    exact (h (.token token) (List.mem_map_of_mem ht)).2
  | trivias =>
    refine ⟨faultsIn_congr h, List.filterMap_congr ?_⟩
    intro trivia ht
    exact (h (.trivia trivia) (List.mem_map_of_mem ht)).2

end Congruence

end Reply

end SourceTree
