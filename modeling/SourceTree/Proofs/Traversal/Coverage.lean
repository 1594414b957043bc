import SourceTree.Form
import SourceTree.Proofs.Traversal.PassThrough

/-!
Which nodes a traversal comes to, and in what order. A default hook that records each node
before it walks on sees a node, then what lies below it, field by field; where trees inside
trivia are entered, those of each token, the trivia in front of it first. Without them this
is the tree and its descendants. A hook that gives up at a node leaves the record at that
node.
-/
namespace SourceTree

variable {σ α β : Type}

/-! ### The order of visits -/

section Visited

variable (structured : Bool)

mutual

/-- The nodes of a tree in the order of their visits. Trees inside trivia count where
`structured` says so. -/
def Node.visited : Node → List Node
  | .mk info kind slots => .mk info kind slots :: slots.visited

def Slots.visited : {fields : List Field} → Slots fields → List Node
  | _, .nil => []
  | _, .cons slot rest => slot.visited ++ rest.visited

def Slot.visited : {shape : Shape} → Slot shape → List Node
  | _, .node child => child.visited
  | _, .optNode none => []
  | _, .optNode (some child) => child.visited
  | _, .token child => child.visited
  | _, .optToken none => []
  | _, .optToken (some child) => child.visited
  | _, .nodes children => (nodesVisited children).flatten
  | _, .tokens children => (tokensVisited children).flatten
  | _, .separated ⟨elements, separators⟩ =>
    (Separated.weave (nodesVisited elements) (tokensVisited separators)).flatten

def nodesVisited : List Node → List (List Node)
  | [] => []
  | node :: rest => node.visited :: nodesVisited rest

def Token.visited : Token → List Node
  | .mk _ _ _ leading trailing =>
    (triviasVisited leading).flatten ++ (triviasVisited trailing).flatten

def tokensVisited : List Token → List (List Node)
  | [] => []
  | token :: rest => token.visited :: tokensVisited rest

def Trivia.visited : Trivia → List Node
  | .mk _ _ _ none => []
  | .mk _ _ _ (some inner) => if structured then inner.visited else []

def triviasVisited : List Trivia → List (List Node)
  | [] => []
  | trivia :: rest => trivia.visited :: triviasVisited rest

end

/-- The same for any part. -/
def Request.visited : Request → List Node
  | ⟨.node, value⟩ => Node.visited structured value
  | ⟨.token, value⟩ => Token.visited structured value
  | ⟨.trivia, value⟩ => Trivia.visited structured value
  | ⟨.nodes, value⟩ => (nodesVisited structured value).flatten
  | ⟨.separated, value⟩ =>
    (Separated.weave (nodesVisited structured (Separated.elements value))
      (tokensVisited structured (Separated.separators value))).flatten
  | ⟨.tokens, value⟩ => (tokensVisited structured value).flatten
  | ⟨.trivias, value⟩ => (triviasVisited structured value).flatten

end Visited

/-! ### One level at a time -/

section Level

variable {structured : Bool}

theorem flatten_nodesVisited (nodes : List Node) :
    (nodesVisited structured nodes).flatten =
      (nodes.map .node).flatMap (Request.visited structured) := by
  induction nodes with
  | nil => rfl
  | cons node nodes ih => rw [nodesVisited, List.flatten_cons, ih]; rfl

theorem flatten_tokensVisited (tokens : List Token) :
    (tokensVisited structured tokens).flatten =
      (tokens.map .token).flatMap (Request.visited structured) := by
  induction tokens with
  | nil => rfl
  | cons token tokens ih => rw [tokensVisited, List.flatten_cons, ih]; rfl

theorem flatten_triviasVisited (trivias : List Trivia) :
    (triviasVisited structured trivias).flatten =
      (trivias.map .trivia).flatMap (Request.visited structured) := by
  induction trivias with
  | nil => rfl
  | cons trivia trivias ih => rw [triviasVisited, List.flatten_cons, ih]; rfl

theorem flatten_weave_visited (elements : List Node) (separators : List Token) :
    (Separated.weave (nodesVisited structured elements)
        (tokensVisited structured separators)).flatten =
      (pairRequests elements separators).flatMap (Request.visited structured) := by
  induction elements generalizing separators with
  | nil => rfl
  | cons element elements ih =>
    cases separators with
    | nil =>
      have hrest := ih []
      rw [tokensVisited] at hrest
      rw [nodesVisited, tokensVisited, Separated.weave, List.flatten_cons, hrest]
      rfl
    | cons separator separators =>
      rw [nodesVisited, tokensVisited, Separated.weave, List.flatten_cons, List.flatten_cons, ih]
      rfl

theorem Slot.visited_eq {shape : Shape} (slot : Slot shape) :
    slot.visited structured = slot.requests.flatMap (Request.visited structured) := by
  cases slot with
  | node child | token child | nodes children | tokens children | separated children =>
    rw [Slot.requests, List.flatMap_singleton]; rfl
  | optNode child =>
    cases child with
    | none => rfl
    | some child => exact (List.append_nil _).symm
  | optToken child =>
    cases child with
    | none => rfl
    | some child => exact (List.append_nil _).symm

theorem Slots.visited_eq {fields : List Field} (slots : Slots fields) :
    slots.visited structured = slots.requests.flatMap (Request.visited structured) := by
  cases slots with
  | nil => rfl
  | cons slot rest =>
    rw [Slots.visited, Slots.requests, List.flatMap_append, slot.visited_eq, Slots.visited_eq rest]

/-- A node comes before what its walk asks for. -/
theorem Node.visited_eq (node : Node) :
    node.visited structured =
      node :: (Part.requests structured .node node).flatMap (Request.visited structured) := by
  cases node with
  | mk info kind slots => rw [Node.visited, slots.visited_eq]; rfl

/-- Any other part adds nothing to what its walk asks for. -/
theorem Request.visited_eq {part : Part} (value : part.Value) (h : part ≠ .node) :
    Request.visited structured ⟨part, value⟩ =
      (part.requests structured value).flatMap (Request.visited structured) := by
  cases part with
  | node => exact absurd rfl h
  | token =>
    cases value with
    | mk label kind text leading trailing =>
      rw [Part.requests, List.flatMap_cons, List.flatMap_singleton]; rfl
  | trivia =>
    cases value with
    | mk label kind text inner =>
      cases inner with
      | none =>
        have hnothing : Part.requests structured .trivia (.mk label kind text none) = [] := by
          cases structured <;> rfl
        rw [hnothing, List.flatMap_nil]
        rfl
      | some inner =>
        cases structured with
        | false => rfl
        | true =>
          have hinner : Part.requests true .trivia (.mk label kind text (some inner)) =
            [.node inner] := rfl
          rw [hinner, List.flatMap_singleton]
          rfl
  | nodes => exact flatten_nodesVisited value
  | separated => exact flatten_weave_visited _ _
  | tokens => exact flatten_tokensVisited value
  | trivias => exact flatten_triviasVisited value

end Level

/-! ### Without the trees inside trivia -/

theorem flatten_triviasVisited_false (trivias : List Trivia) :
    (triviasVisited false trivias).flatten = [] := by
  induction trivias with
  | nil => rfl
  | cons trivia trivias ih =>
    cases trivia with
    | mk label kind text inner =>
      rw [triviasVisited, List.flatten_cons, ih]
      cases inner <;> rfl

theorem Token.visited_false (token : Token) : token.visited false = [] := by
  cases token with
  | mk label kind text leading trailing =>
    rw [Token.visited, flatten_triviasVisited_false, flatten_triviasVisited_false, List.append_nil]

theorem flatten_tokensVisited_false (tokens : List Token) :
    (tokensVisited false tokens).flatten = [] := by
  induction tokens with
  | nil => rfl
  | cons token tokens ih => rw [tokensVisited, List.flatten_cons, ih, token.visited_false]; rfl

mutual

/-- The order of visits and the enumeration of a tree are one. -/
theorem Node.visited_false : (node : Node) → node.visited false = node.preorder
  | .mk info kind slots => by rw [Node.visited, Node.preorder, Slots.visited_false slots]

theorem Slots.visited_false : {fields : List Field} → (slots : Slots fields) →
    slots.visited false = slots.preorder
  | _, .nil => rfl
  | _, .cons slot rest => by
    rw [Slots.visited, Slots.preorder, Slot.visited_false slot, Slots.visited_false rest]

theorem Slot.visited_false : {shape : Shape} → (slot : Slot shape) →
    slot.visited false = slot.preorder
  | _, .node child => Node.visited_false child
  | _, .optNode none => rfl
  | _, .optNode (some child) => Node.visited_false child
  | _, .token child => child.visited_false
  | _, .optToken none => rfl
  | _, .optToken (some child) => child.visited_false
  | _, .nodes children => flatten_nodesVisited_false children
  | _, .tokens children => flatten_tokensVisited_false children
  | _, .separated ⟨elements, separators⟩ => flatten_weave_visited_false elements separators

theorem flatten_nodesVisited_false : (nodes : List Node) →
    (nodesVisited false nodes).flatten = preorderAll nodes
  | [] => rfl
  | node :: rest => by
    rw [nodesVisited, List.flatten_cons, preorderAll, Node.visited_false node,
      flatten_nodesVisited_false rest]

theorem flatten_weave_visited_false : (elements : List Node) → (separators : List Token) →
    (Separated.weave (nodesVisited false elements) (tokensVisited false separators)).flatten =
      preorderAll elements
  | [], _ => rfl
  | element :: rest, [] => by
    have hrest := flatten_weave_visited_false rest []
    rw [tokensVisited] at hrest
    rw [nodesVisited, tokensVisited, Separated.weave, List.flatten_cons, preorderAll,
      Node.visited_false element, hrest]
  | element :: rest, separator :: separators => by
    rw [nodesVisited, tokensVisited, Separated.weave, List.flatten_cons, List.flatten_cons,
      preorderAll, Node.visited_false element, separator.visited_false,
      flatten_weave_visited_false rest separators, List.nil_append]

end

/-! ### Walks visit their requests in order -/

/-- No node and no token is removed. -/
structure Reply.Complete (reply : Reply) : Prop where
  node : ∀ node, (reply.result .node node).isSome = true
  token : ∀ token, (reply.result .token token).isSome = true

namespace Plan

/-- The plan asks for visits of the listed parts, one after another, and ends with `final`
when they are answered with the results of the reply. -/
inductive Follows (reply : Reply) : {α : Type} → Plan σ α → List Request → α → Prop where
  | pure {α : Type} (final : α) : Follows reply (.pure final) [] final
  | visit {α : Type} {part : Part} {value : part.Value} {next : part.Result → Plan σ α}
      {requests : List Request} {final : α}
      (h : Follows reply (next (reply.result part value)) requests final) :
      Follows reply (.ask .visit part value next) (⟨part, value⟩ :: requests) final

namespace Follows

variable {reply : Reply}

theorem seq {plan : Plan σ α} {f : α → Plan σ β} {as bs : List Request} {a : α} {b : β}
    (h : plan.Follows reply as a) (hf : (f a).Follows reply bs b) :
    (plan >>= f).Follows reply (as ++ bs) b := by
  change (plan.bind f).Follows reply (as ++ bs) b
  induction h with
  | pure final => exact hf
  | visit _ ih => exact .visit (ih hf)

/-- A last step that asks for nothing. -/
theorem last {plan : Plan σ α} {f : α → Plan σ β} {requests : List Request} {a : α} {b : β}
    (h : plan.Follows reply requests a) (hf : (f a).Follows reply [] b) :
    (plan >>= f).Follows reply requests b := by
  have hend := h.seq hf
  rwa [List.append_nil] at hend

theorem map {plan : Plan σ α} {requests : List Request} {a : α} (f : α → β)
    (h : plan.Follows reply requests a) :
    (plan >>= fun value => Pure.pure (f value)).Follows reply requests (f a) :=
  h.last (.pure (f a))

theorem single (part : Part) (value : part.Value) :
    (Plan.visit part value : Plan σ _).Follows reply [⟨part, value⟩] (reply.result part value) :=
  .visit (.pure _)

end Follows

end Plan

open Plan (Follows)

section Walks

theorem filterMap_cons_eq_append (f : α → Option β) (a : α) (as : List α) :
    (a :: as).filterMap f = (f a).toList ++ as.filterMap f := by
  rw [List.filterMap_cons]
  cases f a <;> rfl

variable (reply : Reply)

theorem walkNodes_follows (nodes : List Node) :
    (walkNodes nodes : Plan σ _).Follows reply (nodes.map .node)
      (nodes.filterMap (reply.result .node)) := by
  induction nodes with
  | nil => exact .pure []
  | cons node nodes ih =>
    rw [filterMap_cons_eq_append]
    exact (Follows.single .node node).seq (ih.map _)

theorem walkTokens_follows (tokens : List Token) :
    (walkTokens tokens : Plan σ _).Follows reply (tokens.map .token)
      (tokens.filterMap (reply.result .token)) := by
  induction tokens with
  | nil => exact .pure []
  | cons token tokens ih =>
    rw [filterMap_cons_eq_append]
    exact (Follows.single .token token).seq (ih.map _)

theorem walkTrivias_follows (trivias : List Trivia) :
    (walkTrivias trivias : Plan σ _).Follows reply (trivias.map .trivia)
      (trivias.filterMap (reply.result .trivia)) := by
  induction trivias with
  | nil => exact .pure []
  | cons trivia trivias ih =>
    rw [filterMap_cons_eq_append]
    exact (Follows.single .trivia trivia).seq (ih.map _)

theorem visitOptNode_follows (node : Option Node) :
    (visitOptNode node : Plan σ _).Follows reply (node.toList.map .node)
      (node.bind (reply.result .node)) := by
  cases node with
  | none => exact .pure none
  | some node => exact .single .node node

theorem visitOptToken_follows (token : Option Token) :
    (visitOptToken token : Plan σ _).Follows reply (token.toList.map .token)
      (token.bind (reply.result .token)) := by
  cases token with
  | none => exact .pure none
  | some token => exact .single .token token

theorem walkPairs_follows (elements : List Node) (separators : List Token) :
    (walkPairs elements separators : Plan σ _).Follows reply (pairRequests elements separators)
      (reply.pairs elements separators) := by
  induction elements generalizing separators with
  | nil => exact .pure []
  | cons element elements ih =>
    exact (Follows.single .node element).seq
      ((visitOptToken_follows reply separators.head?).seq ((ih separators.tail).map _))

variable {reply} (complete : reply.Complete)
include complete

theorem walkSlot_follows (parent : Kind) (name : String) {shape : Shape} (slot : Slot shape) :
    (walkSlot parent name slot : Plan σ _).Follows reply slot.requests
      (reply.slotResult slot) := by
  cases slot with
  | node child =>
    obtain ⟨result, hr⟩ := Option.isSome_iff_exists.mp (complete.node child)
    refine (Follows.single .node child).last ?_
    rw [hr, Reply.slotResult, hr]
    exact .pure _
  | optNode child => exact (visitOptNode_follows reply child).map _
  | token child =>
    obtain ⟨result, hr⟩ := Option.isSome_iff_exists.mp (complete.token child)
    refine (Follows.single .token child).last ?_
    rw [hr, Reply.slotResult, hr]
    exact .pure _
  | optToken child => exact (visitOptToken_follows reply child).map _
  | nodes children => exact (Follows.single .nodes children).map _
  | tokens children => exact (Follows.single .tokens children).map _
  | separated children => exact (Follows.single .separated children).map _

theorem walkSlots_follows (parent : Kind) : {fields : List Field} → (slots : Slots fields) →
    (walkSlots parent slots : Plan σ _).Follows reply slots.requests (reply.slotsResult slots)
  | _, .nil => .pure Slots.nil
  | field :: _, .cons slot rest =>
    (walkSlot_follows complete parent field.name slot).seq
      ((walkSlots_follows parent rest).map _)

/-- Where nothing is removed, the walk of a part asks for its requests in their order. -/
theorem walkPart_follows (structured : Bool) (part : Part) (value : part.Value) :
    (walkPart structured part value : Plan σ _).Follows reply (part.requests structured value)
      ((reply.walk structured).result part value) := by
  cases part with
  | node => exact (walkSlots_follows complete _ _).map _
  | token =>
    refine (Follows.single .trivias _).seq ((Follows.single .trivias _).last ?_)
    simp only [Reply.walk, Reply.tokenResult]
    split <;> exact .pure _
  | trivia =>
    simp only [walkPart, walkTrivia, Reply.walk, Reply.triviaResult, Part.requests]
    cases Trivia.inner value with
    | none => cases structured <;> exact .pure _
    | some inner =>
      cases structured with
      | false => exact .pure _
      | true =>
        obtain ⟨result, hr⟩ := Option.isSome_iff_exists.mp (complete.node inner)
        refine (Follows.single .node inner).last ?_
        simp only [hr, if_true, Option.map_some]
        exact .pure _
  | nodes => exact walkNodes_follows reply value
  | separated => exact (walkPairs_follows reply _ _).map _
  | tokens => exact walkTokens_follows reply value
  | trivias => exact walkTrivias_follows reply value

end Walks

/-! ### Recording -/

/-- A run over nodes in the given order: each is recorded, and the first at which `stop`
holds ends the run. -/
def recordAll (stop : Node → Bool) (name : Node → String) (value : α) :
    List Node → List Node → Outcome (List Node) α
  | [], seen => .done value seen
  | node :: rest, seen =>
    if stop node then .failed (.hookFailed (name node)) (seen ++ [node])
    else recordAll stop name value rest (seen ++ [node])

section Record

variable {stop : Node → Bool} {name : Node → String}

theorem recordAll_bind {a : α} {b : β} {f : α → List Node → Outcome (List Node) β}
    {as bs : List Node} (hf : ∀ seen, f a seen = recordAll stop name b bs seen)
    (seen : List Node) :
    (recordAll stop name a as seen).bind f = recordAll stop name b (as ++ bs) seen := by
  induction as generalizing seen with
  | nil => exact hf seen
  | cons node as ih =>
    rw [List.cons_append, recordAll, recordAll]
    split
    · rfl
    · exact ih _

theorem recordAll_of_all {value : α} {nodes : List Node} (h : ∀ node ∈ nodes, stop node = false)
    (seen : List Node) : recordAll stop name value nodes seen = .done value (seen ++ nodes) := by
  induction nodes generalizing seen with
  | nil => rw [recordAll, List.append_nil]
  | cons node nodes ih =>
    rw [recordAll, h node List.mem_cons_self, if_neg Bool.false_ne_true,
      ih fun other ho => h other (List.mem_cons_of_mem _ ho), List.append_assoc]
    rfl

theorem recordAll_of_first {value : α} {before after : List Node} {node : Node}
    (hbefore : ∀ node ∈ before, stop node = false) (hnode : stop node = true) (seen : List Node) :
    recordAll stop name value (before ++ node :: after) seen =
      .failed (.hookFailed (name node)) (seen ++ before ++ [node]) := by
  induction before generalizing seen with
  | nil => rw [List.nil_append, recordAll, if_pos hnode, List.append_nil]
  | cons first before ih =>
    rw [List.cons_append, recordAll, hbefore first List.mem_cons_self, if_neg Bool.false_ne_true,
      ih fun other ho => hbefore other (List.mem_cons_of_mem _ ho), List.append_assoc seen [first],
      List.singleton_append]

theorem idle_complete (structured : Bool) : (Takeover.idle.reply structured).Complete where
  node node := by
    obtain ⟨-, result, hr, -⟩ := idle_faithful structured (.node node)
    exact Option.isSome_iff_exists.mpr ⟨result, hr⟩
  token token := by
    obtain ⟨-, result, hr, -⟩ := idle_faithful structured (.token token)
    exact Option.isSome_iff_exists.mpr ⟨result, hr⟩

/-- Visits that record the nodes they come to. -/
def recording (stop : Node → Bool) (name : Node → String) (structured : Bool) :
    Visit (List Node) := fun part value =>
  recordAll stop name ((Takeover.idle.reply structured).result part value)
    (Request.visited structured ⟨part, value⟩)

theorem Plan.Follows.run_recording {structured : Bool} {plan : Plan (List Node) α}
    {requests : List Request} {final : α}
    (h : plan.Follows (Takeover.idle.reply structured) requests final)
    (traversal : Traversal (List Node)) (seen : List Node) :
    plan.run (fun _ _ => recording stop name structured) traversal seen =
      recordAll stop name final (requests.flatMap (Request.visited structured)) seen := by
  induction h generalizing seen with
  | pure final => rfl
  | visit _ ih => exact recordAll_bind ih seen

end Record

namespace Traversal

/-- Records each node before it is walked. At a node where `stop` holds it gives up, with a
message that names the node. -/
def recorder (stop : Node → Bool) (name : Node → String) (structured : Bool) :
    Traversal (List Node) :=
  (Traversal.empty.withStructured structured).withHook .default fun node => do
    let seen ← Plan.getState
    Plan.setState (seen ++ [node])
    if stop node then .fail (.hookFailed (name node)) else Plan.walk .node node

section Recorder

variable (stop : Node → Bool) (name : Node → String) (structured : Bool)

theorem recorder_modest : (recorder stop name structured).Modest := by
  intro part value hook hhook
  cases part with
  | node =>
    obtain rfl : _ = hook := Option.some.inj hhook
    refine .get fun seen => .put _ ?_
    change (if stop value then _ else _ : Plan (List Node) _).Asks _
    split
    · exact .fail _
    · exact .ask ⟨rfl, rfl⟩ fun result => .pure result
  | token | trivia | nodes | separated | tokens | trivias => exact nomatch hhook

theorem walk_recording (part : Part) (value : part.Value) (seen : List Node) :
    (recording stop name structured).walk structured part value seen =
      recordAll stop name ((Takeover.idle.reply structured).result part value)
        ((part.requests structured value).flatMap (Request.visited structured)) seen := by
  rw [Takeover.result_of_none rfl]
  exact (walkPart_follows (idle_complete structured) structured part value).run_recording _ seen

/-- Recording visits solve the equation of the recorder. -/
theorem round_recording (part : Part) (value : part.Value) (seen : List Node) :
    (recorder stop name structured).round (recording stop name structured) part value seen =
      recording stop name structured part value seen := by
  cases part with
  | node =>
    have hwalk := walk_recording stop name structured .node value (seen ++ [value])
    rw [recording, Request.visited, Node.visited_eq, recordAll, ← hwalk]
    change Plan.run _ (if stop value then _ else _ : Plan (List Node) _) _ (seen ++ [value]) = _
    split
    · rfl
    · exact Plan.run_walk _ _ _ _ _
  | token | trivia | nodes | separated | tokens | trivias =>
    rw [recording, Request.visited_eq value (by decide)]
    exact walk_recording stop name structured _ value seen

end Recorder

/-- A default hook that records each node, and gives up at the first where `stop` holds, sees
the nodes in the order of their visits up to that node, or all of them where there is none.
Without the trees inside trivia these are the tree and its descendants. -/
theorem transform_recorder (stop : Node → Bool) (name : Node → String) (structured : Bool)
    (tree : Node) {fuel : Nat} (enough : tree.fuel ≤ fuel) (seen : List Node) :
    tree.visited false = tree :: tree.descendants ∧
      ((∀ node ∈ tree.visited structured, stop node = false) →
        ∃ result, (recorder stop name structured).transform fuel tree seen =
          .done result (seen ++ tree.visited structured) ∧ result.text = tree.text) ∧
      ∀ before node after, tree.visited structured = before ++ node :: after →
        (∀ earlier ∈ before, stop earlier = false) → stop node = true →
        (recorder stop name structured).transform fuel tree seen =
          .failed (.hookFailed (name node)) (seen ++ before ++ [node]) := by
  obtain ⟨-, result, hresult, htext⟩ := idle_faithful structured (.node tree)
  have hvisit : (recorder stop name structured).visit fuel .node tree seen =
      recordAll stop name (some result) (tree.visited structured) seen := by
    rw [← hresult]
    exact answer_eq_visit (recorder_modest stop name structured)
      (round_recording stop name structured) enough seen
  refine ⟨?_, ?_, ?_⟩
  · rw [tree.visited_false, tree.preorder_eq_cons]
  · intro hall
    refine ⟨result, ?_, htext⟩
    rw [transform, hvisit, recordAll_of_all hall]
    rfl
  · intro before node after hsplit hbefore hnode
    rw [transform, hvisit, hsplit, recordAll_of_first hbefore hnode]
    rfl

/-- The name `x`. -/
def nameX : Node := .identifierName (.ofText .identifier "x")

/-- Two arguments `a` and `b`; the comma between them carries the name `x` in its trivia. -/
def commentedPair : Node :=
  .argumentList (.ofText .punctuation "(")
    ⟨[.identifierName (.ofText .identifier "a"), .identifierName (.ofText .identifier "b")],
      [.mk none .punctuation "," [] [.ofTree .documentationComment nameX]]⟩
    (.ofText .punctuation ")")

/-- The recorder comes to the tree behind the comma before it comes to the second argument;
where such trees are not entered, it comes to the descendants only. -/
theorem transform_commentedPair :
    (recorder (fun node => node.text == "x") Node.text true).transform commentedPair.fuel
        commentedPair [] =
      .failed (.hookFailed "x")
        [commentedPair, .identifierName (.ofText .identifier "a"), nameX] ∧
    ∃ result, (recorder (fun node => node.text == "x") Node.text false).transform
      commentedPair.fuel commentedPair [] =
        .done result (commentedPair :: commentedPair.descendants) ∧
      result.text = "(a,xb)" := by
  have hstop : (Node.text nameX == "x") = true := by decide
  have hbefore : ∀ earlier ∈ [commentedPair, .identifierName (.ofText .identifier "a")],
      (Node.text earlier == "x") = false := by decide
  obtain ⟨-, -, hfirst⟩ := transform_recorder (fun node => node.text == "x") Node.text true
    commentedPair (Nat.le_refl _) []
  obtain ⟨horder, hall, -⟩ := transform_recorder (fun node => node.text == "x") Node.text false
    commentedPair (Nat.le_refl _) []
  refine ⟨hfirst _ nameX [.identifierName (.ofText .identifier "b")] rfl hbefore hstop, ?_⟩
  rw [← horder]
  exact hall (by decide)

end Traversal

end SourceTree
