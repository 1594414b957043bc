import SourceTree.Proofs.Shape
import SourceTree.Proofs.Traversal.Coverage
import SourceTree.Proofs.Traversal.Kept

/-!
A traversal that changes the first token that it meets and leaves all others. The state says
whether it has met one. What comes behind the first token in a tree is left as the same objects,
and so are the nodes in front of it that have no tokens; the nodes that the first token lies
below are made anew.
-/
namespace SourceTree

variable {σ : Type}

/-! ### Walks that leave everything as it is -/

theorem sameAll_self {α : Type} {same : α → α → Bool} {as : List α}
    (h : ∀ a ∈ as, same a a = true) : sameAll same as as = true := by
  induction as with
  | nil => rfl
  | cons a as ih =>
    rw [sameAll, h a List.mem_cons_self, ih fun b hb => h b (List.mem_cons_of_mem _ hb)]
    rfl

section Labelled

variable {structured : Bool}

theorem Node.same_self_of_every {node : Node}
    (h : node.every Request.isLabelled structured = true) : node.same node = true := by
  have hnode : (Request.node node).every Request.isLabelled structured = true := h
  exact Node.same_self (Request.test_of_every hnode)

theorem Token.same_self_of_every {token : Token}
    (h : token.every Request.isLabelled structured = true) : token.same token = true := by
  have htoken : (Request.token token).every Request.isLabelled structured = true := h
  exact sameLabel_self (Request.test_of_every htoken)

theorem Slot.same_self {shape : Shape} {slot : Slot shape}
    (h : slot.every Request.isLabelled structured = true) : slot.same slot = true := by
  cases slot with
  | node child => exact Node.same_self_of_every h
  | optNode child =>
    cases child with
    | none => rfl
    | some child => exact Node.same_self_of_every h
  | token child => exact Token.same_self_of_every h
  | optToken child =>
    cases child with
    | none => rfl
    | some child => exact Token.same_self_of_every h
  | nodes children =>
    simp only [Slot.every, Bool.and_eq_true] at h
    exact sameAll_self fun node hn => Node.same_self_of_every (nodesEvery_iff.mp h.2 node hn)
  | tokens children =>
    simp only [Slot.every, Bool.and_eq_true] at h
    exact sameAll_self fun token ht => Token.same_self_of_every (tokensEvery_iff.mp h.2 token ht)
  | separated children =>
    simp only [Slot.every, Bool.and_eq_true] at h
    rw [Slot.same, Bool.and_eq_true]
    exact ⟨sameAll_self fun node hn => Node.same_self_of_every (nodesEvery_iff.mp h.1.2 node hn),
      sameAll_self fun token ht => Token.same_self_of_every (tokensEvery_iff.mp h.2 token ht)⟩

theorem Slots.same_self : {fields : List Field} → {slots : Slots fields} →
    slots.every Request.isLabelled structured = true → slots.same slots = true
  | _, .nil, _ => rfl
  | _, .cons slot rest, h => by
    simp only [Slots.every, Bool.and_eq_true] at h
    rw [Slots.same, Slot.same_self h.1, Slots.same_self h.2]
    rfl

end Labelled

namespace Reply

theorem still_complete : still.Complete := ⟨fun _ => rfl, fun _ => rfl⟩

theorem still_slotResult {shape : Shape} (slot : Slot shape) : still.slotResult slot = slot := by
  cases slot with
  | optNode child => cases child <;> rfl
  | optToken child => cases child <;> rfl
  | node child | token child | nodes children | tokens children | separated children => rfl

theorem still_slotsResult {fields : List Field} (slots : Slots fields) :
    still.slotsResult slots = slots := by
  cases slots with
  | nil => rfl
  | cons slot rest => rw [slotsResult, still_slotResult, still_slotsResult rest]

/-- The walk of labelled parts without surplus separators leaves them, if all visits do. -/
theorem still_walk {structured : Bool} {part : Part} {value : part.Value}
    (hparts : part.isSyntax = true) (htoken : part ≠ .token)
    (hlabels : Request.every Request.isLabelled structured ⟨part, value⟩ = true)
    (htrim : Request.isTrim ⟨part, value⟩ = true) (entered : Bool) :
    (still.walk entered).result part value = part.unchanged value := by
  cases part with
  | node =>
    cases value with
    | mk info kind slots =>
      simp only [Request.every, Node.every, Bool.and_eq_true] at hlabels
      have hsame : slots.same (still.slotsResult slots) = true := by
        rw [still_slotsResult, Slots.same_self hlabels.2]
      exact congrArg some (if_pos hsame)
  | nodes | tokens => exact List.filterMap_some
  | separated => exact still_separatedResult (of_decide_eq_true htrim)
  | token => exact absurd rfl htoken
  | trivia | trivias => cases hparts

end Reply

/-- A run that meets nothing but answers of the reply, and stays in its state. -/
theorem Plan.Follows.run_still {α : Type} {reply : Reply} {visit : Visit σ} {plan : Plan σ α}
    {requests : List Request} {final : α} (h : plan.Follows reply requests final) {state : σ}
    (hvisit : ∀ request ∈ requests, visit request.part request.value state =
      .done (reply.result request.part request.value) state) :
    plan.run (fun _ _ => visit) .empty state = .done final state := by
  induction h with
  | pure final => rfl
  | visit _ ih =>
    rw [Plan.run, hvisit _ List.mem_cons_self, Outcome.bind_done]
    exact ih fun request hr => hvisit request (List.mem_cons_of_mem _ hr)

theorem Visit.walk_still {visit : Visit σ} {entered structured : Bool} {part : Part}
    {value : part.Value} {state : σ} (hparts : part.isSyntax = true) (htoken : part ≠ .token)
    (hlabels : Request.every Request.isLabelled structured ⟨part, value⟩ = true)
    (htrim : Request.isTrim ⟨part, value⟩ = true)
    (hvisit : ∀ request ∈ part.requests entered value, visit request.part request.value state =
      .done (request.part.unchanged request.value) state) :
    visit.walk entered part value state = .done (part.unchanged value) state := by
  rw [← Reply.still_walk hparts htoken hlabels htrim entered]
  exact (walkPart_follows Reply.still_complete entered part value).run_still hvisit

/-! ### Tokens and outlines -/

def Request.tokens : Request → List Token
  | ⟨.node, value⟩ => Node.tokens value
  | ⟨.token, value⟩ => [value]
  | ⟨.trivia, _⟩ => []
  | ⟨.nodes, value⟩ => tokensAll value
  | ⟨.separated, value⟩ => tokensBetween (Separated.elements value) (Separated.separators value)
  | ⟨.tokens, value⟩ => value
  | ⟨.trivias, _⟩ => []

theorem flatMap_tokens_map_node (nodes : List Node) :
    (nodes.map Request.node).flatMap Request.tokens = tokensAll nodes := by
  rw [List.flatMap_map, tokensAll_eq_flatMap]
  rfl

theorem flatMap_tokens_map_token (tokens : List Token) :
    (tokens.map Request.token).flatMap Request.tokens = tokens := by
  rw [List.flatMap_map]
  exact List.flatMap_singleton' tokens

theorem Slot.tokensIn_eq {shape : Shape} (slot : Slot shape) :
    slot.tokensIn = slot.requests.flatMap Request.tokens := by
  cases slot with
  | optNode child =>
    cases child <;> simp [Slot.tokensIn, Slot.requests, Request.tokens, Request.node]
  | optToken child =>
    cases child <;> simp [Slot.tokensIn, Slot.requests, Request.tokens, Request.token]
  | node child | token child | nodes children | tokens children | separated children =>
    simp [Slot.tokensIn, Slot.requests, Request.tokens, Request.node, Request.token]

theorem Slots.tokens_eq {fields : List Field} (slots : Slots fields) :
    slots.tokens = slots.requests.flatMap Request.tokens := by
  cases slots with
  | nil => rfl
  | cons slot rest =>
    rw [Slots.tokens, Slots.requests, List.flatMap_append, slot.tokensIn_eq, Slots.tokens_eq rest]

theorem tokensBetween_eq (elements : List Node) (separators : List Token) :
    tokensBetween elements separators =
      (pairRequests elements separators).flatMap Request.tokens := by
  induction elements generalizing separators with
  | nil => rfl
  | cons element elements ih =>
    cases separators with
    | nil =>
      rw [tokensBetween, ih]
      rfl
    | cons separator separators =>
      rw [tokensBetween, ih]
      rfl

/-- The tokens of a part are those of the smaller parts. -/
theorem Request.tokens_eq {structured : Bool} {part : Part} (value : part.Value)
    (hparts : part.isSyntax = true) (htoken : part ≠ .token) :
    Request.tokens ⟨part, value⟩ = (part.requests structured value).flatMap Request.tokens := by
  cases part with
  | node =>
    cases value with
    | mk info kind slots => exact slots.tokens_eq
  | nodes => exact (flatMap_tokens_map_node value).symm
  | separated => exact tokensBetween_eq _ _
  | tokens => exact (flatMap_tokens_map_token value).symm
  | token => exact absurd rfl htoken
  | trivia | trivias => cases hparts

/-- The part itself, if it is a node or a token. -/
def Request.own : Request → List Element
  | ⟨.node, value⟩ => [.node value]
  | ⟨.token, value⟩ => [.token value]
  | _ => []

/-- A part and all nodes and tokens below it, in document order. Trivia are not entered. -/
@[semireducible] def Request.outline (request : Request) : List Element :=
  request.own ++ (request.part.requests false request.value).attach.flatMap fun smaller =>
    smaller.1.outline
termination_by request.depth
decreasing_by exact Part.depth_requests smaller.2

/-- A node and all nodes and tokens below it, in document order. -/
def Node.outline (node : Node) : List Element := (Request.node node).outline

theorem Request.outline_eq (part : Part) (value : part.Value) :
    Request.outline ⟨part, value⟩ =
      Request.own ⟨part, value⟩ ++ (part.requests false value).flatMap Request.outline := by
  rw [Request.outline]
  congr 1
  conv_rhs => rw [← List.attach_map_subtype_val (part.requests false value), List.flatMap_map]

theorem Request.outline_trivia (trivia : Trivia) : (Request.trivia trivia).outline = [] := by
  rw [Request.trivia, Request.outline_eq]
  rfl

theorem Request.outline_trivias (trivias : List Trivia) :
    Request.outline ⟨.trivias, trivias⟩ = [] := by
  rw [Request.outline_eq]
  simp [Request.own, Part.requests, List.flatMap_map, Request.outline_trivia]

theorem Request.outline_token (token : Token) : (Request.token token).outline = [.token token] := by
  rw [Request.token, Request.outline_eq]
  simp [Request.own, Part.requests, Request.outline_trivias]

def Element.token? : Element → Option Token
  | .node _ => none
  | .token child => some child

theorem filterMap_token?_map_node (nodes : List Node) :
    (nodes.map Element.node).filterMap Element.token? = [] := by
  rw [List.filterMap_map]
  exact List.filterMap_eq_nil_iff.mpr fun _ _ => rfl

theorem Request.tokens_eq_filterMap (request : Request) :
    request.tokens = request.outline.filterMap Element.token? := by
  induction request using Request.induction false with
  | step part value ih =>
    have hbelow : ((part.requests false value).flatMap Request.outline).filterMap Element.token? =
        (part.requests false value).flatMap Request.tokens := by
      rw [List.filterMap_flatMap]
      exact List.flatMap_congr fun request hr => (ih request hr).symm
    cases part with
    | token => exact congrArg (List.filterMap Element.token?) (Request.outline_token value).symm
    | trivia => exact congrArg (List.filterMap Element.token?) (Request.outline_trivia value).symm
    | trivias => exact congrArg (List.filterMap Element.token?) (Request.outline_trivias value).symm
    | node | nodes | separated | tokens =>
      rw [Request.outline_eq, List.filterMap_append, hbelow, ← Request.tokens_eq value rfl nofun]
      rfl

/-! ### The first token changed -/

section First

variable (f : Token → Token)

/-- The first token changed, unless one was met before. -/
def settleFirst (met : Bool) (tokens : List Token) : List Token :=
  if met then tokens else tokens.modifyHead f

theorem settleFirst_append (met : Bool) (as bs : List Token) :
    settleFirst f met (as ++ bs) =
      settleFirst f met as ++ settleFirst f (met || !as.isEmpty) bs := by
  cases met with
  | true => rfl
  | false => cases as <;> rfl

/-- What stands in front of the first token: a node that the token lies below is made anew, and
one without tokens stays. -/
structure Node.OnWay (old new : Node) : Prop where
  kind : new.kind = old.kind
  metadata : new.metadata = old.metadata
  aside : old.tokens = [] → new = old

theorem Node.OnWay.refl (node : Node) : node.OnWay node := ⟨rfl, rfl, fun _ => rfl⟩

/-- What becomes of an outline when the first token changes, unless one was met before; and
whether one has been met then. -/
inductive Settles : Bool → List Element → List Element → Bool → Prop where
  | behind (elements : List Element) : Settles true elements elements true
  | unmet (nodes : List Node) : Settles false (nodes.map .node) (nodes.map .node) false
  | first {above above' : List Node} (h : List.Forall₂ Node.OnWay above above') (token : Token)
      (below : List Element) :
      Settles false (above.map .node ++ .token token :: below)
        (above'.map .node ++ .token (f token) :: below) true

variable {f}

namespace Settles

theorem append {as bs cs ds : List Element} {start next last : Bool}
    (h : Settles f start as bs next) (h' : Settles f next cs ds last) :
    Settles f start (as ++ cs) (bs ++ ds) last := by
  cases h with
  | behind elements =>
    cases h' with
    | behind more => exact .behind _
  | unmet nodes =>
    cases h' with
    | unmet more =>
      rw [← List.map_append]
      exact .unmet _
    | first h token below =>
      rw [← List.append_assoc, ← List.append_assoc, ← List.map_append, ← List.map_append]
      exact .first (List.rel_append (List.forall₂_same.mpr fun node _ => .refl node) h) token below
  | first h token below =>
    cases h' with
    | behind more =>
      rw [List.append_assoc, List.append_assoc, List.cons_append, List.cons_append]
      exact .first h token _

/-- An outline with tokens, where none was met before. -/
theorem exists_first {olds news : List Element} {next : Bool} (h : Settles f false olds news next)
    {token : Token} (htoken : (olds.filterMap Element.token?).head? = some token) :
    ∃ above above' below, olds = above.map .node ++ .token token :: below ∧
      news = above'.map .node ++ .token (f token) :: below ∧
      List.Forall₂ Node.OnWay above above' := by
  cases h with
  | unmet nodes =>
    rw [filterMap_token?_map_node] at htoken
    cases htoken
  | first h first below =>
    rw [List.filterMap_append, filterMap_token?_map_node] at htoken
    obtain rfl : first = token := Option.some.inj htoken
    exact ⟨_, _, below, rfl, rfl, h⟩

/-- A node in front of what lies below it. -/
theorem cons {old new : Node} (hway : old.OnWay new) {olds news : List Element}
    {start next : Bool} (hkept : next = start → new = old) (h : Settles f start olds news next) :
    Settles f start (.node old :: olds) (.node new :: news) next := by
  cases h with
  | behind elements =>
    rw [hkept rfl]
    exact .behind _
  | unmet nodes =>
    rw [hkept rfl]
    exact .unmet (old :: nodes)
  | first h token below => exact .first (.cons hway h) token below

end Settles

/-- Everything has a label, and no separator is surplus. -/
structure Request.Tidy (request : Request) : Prop where
  labels : request.every Request.isLabelled true = true
  trim : request.every Request.isTrim false = true

theorem Request.Tidy.of_mem_requests {part : Part} {value : part.Value}
    (h : Request.Tidy ⟨part, value⟩) {request : Request}
    (hr : request ∈ part.requests false value) : request.Tidy :=
  ⟨Request.every_of_mem_requests (fun _ => rfl) h.labels hr,
    Request.every_of_mem_requests id h.trim hr⟩

variable (f) in
/-- What becomes of a part when its first token changes, unless one was met before. -/
structure Part.FirstChanged (part : Part) (before : part.Value) (start : Bool)
    (after : part.Value) (next : Bool) : Prop where
  trim : Request.every Request.isTrim false ⟨part, after⟩ = true
  shape : Request.every Request.isTrim false ⟨part, before⟩ = true →
    part.mapTokens (fun _ => .blank) after = part.mapTokens (fun _ => .blank) before
  tokens : Request.tokens ⟨part, after⟩ = settleFirst f start (Request.tokens ⟨part, before⟩)
  met : next = (start || !(Request.tokens ⟨part, before⟩).isEmpty)
  kept : Request.Tidy ⟨part, before⟩ → next = start → after = before
  outline : Request.Tidy ⟨part, before⟩ →
    Settles f start (Request.outline ⟨part, before⟩) (Request.outline ⟨part, after⟩) next

variable (f) in
/-- The same for every part; a run does not come to trivia. -/
def Part.ChangesFirst : Change Bool := fun part before start after next =>
  part.Fresh before after ∧ (part.isSyntax = true → part.FirstChanged f before start after next)

namespace Threads

variable {requests results : List Request} {start next : Bool}

theorem settle_tokens (h : Threads (Part.ChangesFirst f) requests start results next)
    (hparts : ∀ request ∈ requests, request.part.isSyntax = true) :
    results.flatMap Request.tokens = settleFirst f start (requests.flatMap Request.tokens) ∧
      next = (start || !(requests.flatMap Request.tokens).isEmpty) := by
  induction h with
  | nil state => cases state <;> exact ⟨rfl, rfl⟩
  | cons hfirst _ ih =>
    have hchanged := hfirst.2 (hparts _ List.mem_cons_self)
    obtain ⟨htokens, hmet⟩ := ih fun request hr => hparts request (List.mem_cons_of_mem _ hr)
    rw [List.flatMap_cons, List.flatMap_cons, settleFirst_append, ← hchanged.met, ← hchanged.tokens,
      htokens, hmet, hchanged.met]
    refine ⟨rfl, ?_⟩
    cases Request.tokens _ <;> simp

theorem settle_outlines (h : Threads (Part.ChangesFirst f) requests start results next)
    (hparts : ∀ request ∈ requests, request.part.isSyntax = true)
    (htidy : ∀ request ∈ requests, request.Tidy) :
    Settles f start (requests.flatMap Request.outline) (results.flatMap Request.outline) next := by
  induction h with
  | nil state =>
    cases state with
    | true => exact .behind []
    | false => exact .unmet []
  | cons hfirst _ ih =>
    have hchanged := hfirst.2 (hparts _ List.mem_cons_self)
    exact (hchanged.outline (htidy _ List.mem_cons_self)).append
      (ih (fun request hr => hparts request (List.mem_cons_of_mem _ hr))
        fun request hr => htidy request (List.mem_cons_of_mem _ hr))

end Threads

end First

/-! ### The traversal -/

/-- What a walk of a part of the tree asks for does not depend on whether trivia are entered. -/
theorem Part.requests_eq {part : Part} (h : part.isSyntax = true) (value : part.Value)
    (first second : Bool) : part.requests first value = part.requests second value := by
  cases part with
  | trivia => cases h
  | node | token | nodes | separated | tokens | trivias => rfl

theorem Part.unchanged_injective {part : Part} {first second : part.Value}
    (h : part.unchanged first = part.unchanged second) : first = second := by
  cases part with
  | node | token | trivia => exact Option.some.inj h
  | nodes | separated | tokens | trivias => exact h

theorem Token.every_isTrim (token : Token) : token.every Request.isTrim false = true := by
  have htrivia (trivia : Trivia) : trivia.every Request.isTrim false = true := by
    cases trivia with
    | mk label kind text inner => cases inner <;> rfl
  have htrivias (trivias : List Trivia) : triviasEvery Request.isTrim false trivias = true :=
    triviasEvery_iff.mpr fun trivia _ => htrivia trivia
  cases token with
  | mk label kind text leading trailing =>
    rw [Token.every, htrivias, htrivias]
    rfl

namespace Traversal

variable {f : Token → Token}

/-- Changes the first token that it meets; the state says whether it has met one. -/
def onFirstToken (f : Token → Token) : Traversal Bool :=
  empty.withHook .token fun token => do
    let met ← Plan.getState
    if met then return some token
    else
      Plan.setState true
      return some (f token)

theorem onFirstToken_modest (f : Token → Token) : (onFirstToken f).Modest := by
  intro part value hook hhook
  cases part with
  | token =>
    obtain rfl : _ = hook := Option.some.inj hhook
    refine .get fun met => ?_
    cases met with
    | true => exact .pure _
    | false => exact .put _ (.pure _)
  | node | trivia | nodes | separated | tokens | trivias => cases hhook

theorem round_onFirstToken_token (visit : Visit Bool) (token : Token) (start : Bool) :
    (onFirstToken f).round visit .token token start =
      .done (some (if start then token else f token)) true := by
  cases start <;> rfl

theorem round_onFirstToken_of_part {visit : Visit Bool} {part : Part} (value : part.Value)
    (h : part ≠ .token) (start : Bool) :
    (onFirstToken f).round visit part value start = visit.walk true part value start := by
  cases part with
  | token => exact absurd rfl h
  | node | trivia | nodes | separated | tokens | trivias => rfl

/-- A token is changed if it is the first. -/
theorem changesFirst_token (hf : ∀ token, (f token).label = none) (token : Token) (start : Bool) :
    Part.ChangesFirst f .token token start (if start then token else f token) true := by
  have htrim (token : Token) : (Request.token token).every Request.isTrim false = true :=
    token.every_isTrim
  cases start with
  | true =>
    exact ⟨fun _ => rfl, fun _ => ⟨htrim token, fun _ => rfl, rfl, rfl, fun _ _ => rfl,
      fun _ => .behind _⟩⟩
  | false =>
    refine ⟨fun hsame => ?_, fun _ => ⟨htrim (f token), fun _ => rfl, rfl, rfl, nofun, fun _ => ?_⟩⟩
    · simp [Part.same, Part.unchanged, Token.same, hf] at hsame
    · exact Request.outline_token token ▸ Request.outline_token (f token) ▸ .first .nil token []

section Walked

variable {visit : Visit Bool} {part : Part} {value after : part.Value} {start next : Bool}
  (hparts : part.isSyntax = true) (htoken : part ≠ .token)
  (hvisit : ∀ request ∈ part.requests true value, visit.Makes (Part.ChangesFirst f) request)
include hparts htoken hvisit

/-- Where a walk comes to no token that has to change, it leaves the part as it is. -/
theorem walk_of_met (htidy : Request.Tidy ⟨part, value⟩)
    (hmet : start = (start || !(Request.tokens ⟨part, value⟩).isEmpty)) :
    visit.walk true part value start = .done (part.unchanged value) start := by
  refine Visit.walk_still hparts htoken htidy.labels (Request.test_of_every htidy.trim) ?_
  intro request hr
  obtain ⟨result, last, hchange, hdone⟩ := hvisit request hr start
  have hchanged := hchange.2 (Part.isSyntax_of_mem_requests hparts htoken hr)
  have hlast : last = start := by
    rw [hchanged.met]
    cases start with
    | true => rfl
    | false =>
      -- no token in the part, so none in what it asks for
      have hempty : Request.tokens ⟨part, value⟩ = [] := by simpa using hmet
      rw [Request.tokens_eq value hparts htoken, List.flatMap_eq_nil_iff] at hempty
      rw [show Request.tokens ⟨request.part, request.value⟩ = [] from hempty request hr]
      rfl
  subst hlast
  rw [Part.requests_eq hparts value true false] at hr
  rw [hdone, hchanged.kept (htidy.of_mem_requests hr) rfl]

theorem firstChanged_walk (hwalk : visit.walk true part value start =
      .done (part.unchanged after) next)
    (hthreads : Threads (Part.ChangesFirst f) (part.requests true value) start
      (part.requests true after) next)
    (hrebuilt : part.Rebuilt (Part.ChangesFirst f).related true value after) :
    part.FirstChanged f value start after next := by
  have hbelow : ∀ request ∈ part.requests true value, request.part.isSyntax = true :=
    fun request hr => Part.isSyntax_of_mem_requests hparts htoken hr
  obtain ⟨htokens, hmet⟩ := hthreads.settle_tokens hbelow
  rw [← Request.tokens_eq after hparts htoken, ← Request.tokens_eq value hparts htoken] at htokens
  rw [← Request.tokens_eq value hparts htoken] at hmet
  have hkept (htidy : Request.Tidy ⟨part, value⟩) (hnext : next = start) : after = value := by
    have hstill := walk_of_met hparts htoken hvisit htidy (hnext.symm.trans hmet)
    exact Part.unchanged_injective (Outcome.done.inj (hwalk.symm.trans hstill)).1
  refine ⟨?_, fun htrim => ?_, htokens, hmet, hkept, fun htidy => ?_⟩
  · refine Request.every_of_requests (Part.isTrim_of_rebuilt hrebuilt)
      (Part.isTrim_of_rebuilt hrebuilt) fun request hr => ?_
    rw [Part.requests_eq hparts after false true] at hr
    obtain ⟨before, hbefore, _, _, hchange⟩ := hthreads.exists_of_mem hr
    exact (hchange.2 (hbelow ⟨_, before⟩ hbefore)).trim
  · refine Part.mapTokens_of_rebuilt hrebuilt hparts htoken (Request.test_of_every htrim) ?_
    rintro request hr result ⟨_, _, hchange⟩
    refine (hchange.2 (hbelow request hr)).shape ?_
    rw [Part.requests_eq hparts value true false] at hr
    exact Request.every_of_mem_requests id htrim hr
  · have houtlines : Settles f start ((part.requests false value).flatMap Request.outline)
        ((part.requests false after).flatMap Request.outline) next := by
      rw [Part.requests_eq hparts value true false, Part.requests_eq hparts after true false]
        at hthreads
      rw [Part.requests_eq hparts value true false] at hbelow
      exact hthreads.settle_outlines hbelow fun request hr => htidy.of_mem_requests hr
    rw [Request.outline_eq, Request.outline_eq]
    cases part with
    | node =>
      have hsame : Node.kind after = Node.kind value ∧
          Node.metadata after = Node.metadata value := by
        cases hrebuilt
        exact ⟨rfl, rfl⟩
      have haside (hempty : Node.tokens value = []) : after = value := by
        refine hkept htidy ?_
        rw [hmet, Request.tokens, hempty]
        exact Bool.or_false start
      exact houtlines.cons ⟨hsame.1, hsame.2, haside⟩ (hkept htidy)
    | token => exact absurd rfl htoken
    | nodes | separated | tokens => exact houtlines
    | trivia | trivias => cases hparts

end Walked

/-- One level: where the first token of the smaller parts is changed, that of the part is. -/
theorem onFirstToken_makes (hf : ∀ token, (f token).label = none) {visit : Visit Bool}
    {part : Part} {value : part.Value}
    (h : ∀ request ∈ part.requests true value, visit.Makes (Part.ChangesFirst f) request) :
    ((onFirstToken f).round visit).Makes (Part.ChangesFirst f) ⟨part, value⟩ := by
  intro start
  by_cases htoken : part = .token
  · subst htoken
    exact ⟨_, true, changesFirst_token hf value start, round_onFirstToken_token visit value start⟩
  · obtain ⟨after, next, hwalk, hthreads, hrebuilt, hfresh⟩ :=
      Visit.walk_makes (fun _ _ _ ⟨_, _, h⟩ => h.1) h start
    refine ⟨after, next, ⟨hfresh, fun hparts => ?_⟩, ?_⟩
    · exact firstChanged_walk hparts htoken h hwalk hthreads hrebuilt
    · rw [round_onFirstToken_of_part value htoken]
      exact hwalk

/-- A tree always comes out, with its first token changed. -/
theorem transform_onFirstToken (hf : ∀ token, (f token).label = none) (tree : Node) :
    ∃ result next, Part.FirstChanged f .node tree false result next ∧
      ∀ fuel, tree.fuel ≤ fuel →
        (onFirstToken f).transform fuel tree false = .done result next := by
  obtain ⟨result, next, hchange, hdone⟩ := (onFirstToken_modest f).transform_closed
    (fun _ _ _ _ _ => trivial) (fun _ _ _ _ hbelow => onFirstToken_makes hf hbelow) trivial false
  exact ⟨result, next, hchange.2 rfl, hdone⟩

end Traversal

end SourceTree
