import SourceTree.Build.Code
import SourceTree.Proofs.Identity
import SourceTree.Proofs.Traversal.Sharing
import SourceTree.Proofs.Traversal.Takeover

/-!
A hook on one kind that asks for nothing is substitution: the topmost nodes of that kind are
replaced by what the hook makes of them. `Node.sites` lists these nodes in the order of the
walk, each with the seat it has; to remove a node from a seat that must not be empty is a
fault, and the first one decides. Otherwise the result is `Node.substitute`.
-/
namespace SourceTree

variable {σ : Type}

/-! ### The nodes that are replaced -/

/-- Where a node stands. Only optional seats may be left empty: those of optional fields,
elements of lists and trees inside trivia. -/
inductive Seat where
  | root
  | required (parent : Kind) (slot : String)
  | optional
  deriving DecidableEq, Repr

/-- The fault of removing a node of a kind from a seat. -/
def Seat.fault? : Seat → Kind → Option Fault
  | .root, kind => some (.rootRemoved kind)
  | .required parent slot, _ => some (.missingChild parent slot)
  | .optional, _ => none

/-- A node and its seat. -/
structure Site where
  seat : Seat
  node : Node

namespace Site

/-- The fault of a hook that removes a node from its seat. -/
def fault? (hook : Node → Option Node) (site : Site) : Option Fault :=
  if (hook site.node).isNone then site.seat.fault? site.node.kind else none

/-- The hook gives back the node itself. -/
def isKept (hook : Node → Option Node) (site : Site) : Bool := (hook site.node).any site.node.same

end Site

section Sites

variable (kind : Kind)

mutual

/-- The nodes of a kind that are below no other node of that kind, in the order of the walk:
fields in order, elements in turn with separators, and for each token the trees in the trivia
in front of it and then in the trivia behind it. -/
def Node.sites (seat : Seat) : Node → List Site
  | .mk info own slots => if own = kind then [⟨seat, .mk info own slots⟩] else slots.sites own

def Slots.sites (parent : Kind) : {fields : List Field} → Slots fields → List Site
  | _, .nil => []
  | field :: _, .cons slot rest => slot.sites (.required parent field.name) ++ rest.sites parent

def Slot.sites (seat : Seat) : {shape : Shape} → Slot shape → List Site
  | _, .node child => child.sites seat
  | _, .optNode none => []
  | _, .optNode (some child) => child.sites .optional
  | _, .token child => child.sites
  | _, .optToken none => []
  | _, .optToken (some child) => child.sites
  | _, .nodes children => (nodeSites children).flatten
  | _, .tokens children => (tokenSites children).flatten
  | _, .separated ⟨elements, separators⟩ =>
    (Separated.weave (nodeSites elements) (tokenSites separators)).flatten

def nodeSites : List Node → List (List Site)
  | [] => []
  | node :: rest => node.sites .optional :: nodeSites rest

def Token.sites : Token → List Site
  | .mk _ _ _ leading trailing => triviaSites leading ++ triviaSites trailing

def tokenSites : List Token → List (List Site)
  | [] => []
  | token :: rest => token.sites :: tokenSites rest

def Trivia.sites : Trivia → List Site
  | .mk _ _ _ none => []
  | .mk _ _ _ (some inner) => inner.sites .optional

def triviaSites : List Trivia → List Site
  | [] => []
  | trivia :: rest => trivia.sites ++ triviaSites rest

end

end Sites

/-! ### Substitution -/

/-- The elements that stay, each with the separator behind it. -/
def staying {α β : Type} : List (Option α) → List β → List (α × Option β)
  | [], _ => []
  | none :: elements, separators => staying elements separators.tail
  | some element :: elements, separators =>
    (element, separators.head?) :: staying elements separators.tail

/-- Leaves out the elements that are gone, each with the separator behind it; the last one
that stays loses its separator unless the list had a trailing one. -/
def dropGone {α β : Type} (trailing : Bool) (elements : List (Option α)) (separators : List β) :
    Separated α β :=
  ofPairs (if trailing then staying elements separators else openEnd (staying elements separators))

section Substitution

variable (kind : Kind) (hook : Node → Option Node)

mutual

/-- The tree with the topmost nodes of a kind replaced. An object below which every such node
is kept stays that object; any other is made anew and keeps its metadata. -/
def Node.substitute : Node → Option Node
  | .mk info own slots =>
    if own = kind then hook (.mk info own slots)
    else if (slots.sites kind own).all (Site.isKept hook) then some (.mk info own slots)
    else some (.mk { metadata := info.metadata } own slots.substitute)

def Slots.substitute : {fields : List Field} → Slots fields → Slots fields
  | _, .nil => .nil
  | _, .cons slot rest => .cons slot.substitute rest.substitute

/-- Optional fields are emptied and lists shrink. A required child that is gone is a fault, so
what is put in its place does not matter. -/
def Slot.substitute : {shape : Shape} → Slot shape → Slot shape
  | _, .node child => .node (child.substitute.getD child)
  | _, .optNode none => .optNode none
  | _, .optNode (some child) => .optNode child.substitute
  | _, .token child => .token child.substitute
  | _, .optToken none => .optToken none
  | _, .optToken (some child) => .optToken (some child.substitute)
  | _, .nodes children => .nodes ((substituteNodes children).filterMap id)
  | _, .tokens children => .tokens (substituteTokens children)
  | _, .separated ⟨elements, separators⟩ =>
    .separated (dropGone (Separated.hasTrailing ⟨elements, separators⟩) (substituteNodes elements)
      (substituteTokens separators))

def substituteNodes : List Node → List (Option Node)
  | [] => []
  | node :: rest => node.substitute :: substituteNodes rest

def Token.substitute : Token → Token
  | .mk label own text leading trailing =>
    if (triviaSites kind leading ++ triviaSites kind trailing).all (Site.isKept hook) then
      .mk label own text leading trailing
    else
      .mk none own text ((substituteTrivias leading).filterMap id)
        ((substituteTrivias trailing).filterMap id)

def substituteTokens : List Token → List Token
  | [] => []
  | token :: rest => token.substitute :: substituteTokens rest

/-- Trivia goes with the tree in it. -/
def Trivia.substitute : Trivia → Option Trivia
  | .mk label own text none => some (.mk label own text none)
  | .mk label own text (some inner) =>
    if (inner.sites kind .optional).all (Site.isKept hook) then
      some (.mk label own text (some inner))
    else inner.substitute.map fun inner => .mk none own text (some inner)

def substituteTrivias : List Trivia → List (Option Trivia)
  | [] => []
  | trivia :: rest => trivia.substitute :: substituteTrivias rest

end

end Substitution

/-! ### Any part -/

section Parts

variable (kind : Kind) (hook : Node → Option Node)

/-- The sites in a part. A node that is itself of the kind has an optional seat here: whether
it may be removed is for its parent to say. -/
def Request.sites : Request → List Site
  | ⟨.node, value⟩ => Node.sites kind .optional value
  | ⟨.token, value⟩ => Token.sites kind value
  | ⟨.trivia, value⟩ => Trivia.sites kind value
  | ⟨.nodes, value⟩ => (nodeSites kind value).flatten
  | ⟨.separated, value⟩ =>
    (Separated.weave (nodeSites kind (Separated.elements value))
      (tokenSites kind (Separated.separators value))).flatten
  | ⟨.tokens, value⟩ => (tokenSites kind value).flatten
  | ⟨.trivias, value⟩ => triviaSites kind value

def Part.substitute : (part : Part) → part.Value → part.Result
  | .node, value => Node.substitute kind hook value
  | .token, value => some (Token.substitute kind hook value)
  | .trivia, value => Trivia.substitute kind hook value
  | .nodes, value => (substituteNodes kind hook value).filterMap id
  | .separated, value =>
    dropGone (Separated.hasTrailing value) (substituteNodes kind hook (Separated.elements value))
      (substituteTokens kind hook (Separated.separators value))
  | .tokens, value => substituteTokens kind hook value
  | .trivias, value => (substituteTrivias kind hook value).filterMap id

end Parts

section Lists

variable {kind : Kind} {hook : Node → Option Node}

theorem nodeSites_eq_map (nodes : List Node) :
    nodeSites kind nodes = nodes.map fun node => (Request.node node).sites kind := by
  induction nodes with
  | nil => rfl
  | cons node nodes ih => rw [nodeSites, ih]; rfl

theorem tokenSites_eq_map (tokens : List Token) :
    tokenSites kind tokens = tokens.map fun token => (Request.token token).sites kind := by
  induction tokens with
  | nil => rfl
  | cons token tokens ih => rw [tokenSites, ih]; rfl

theorem triviaSites_eq_flatMap (trivias : List Trivia) :
    triviaSites kind trivias =
      trivias.flatMap fun trivia => (Request.trivia trivia).sites kind := by
  induction trivias with
  | nil => rfl
  | cons trivia trivias ih => rw [triviaSites, ih]; rfl

theorem substituteNodes_eq_map (nodes : List Node) :
    substituteNodes kind hook nodes = nodes.map (Node.substitute kind hook) := by
  induction nodes with
  | nil => rfl
  | cons node nodes ih => rw [substituteNodes, ih, List.map_cons]

theorem substituteTokens_eq_map (tokens : List Token) :
    substituteTokens kind hook tokens = tokens.map (Token.substitute kind hook) := by
  induction tokens with
  | nil => rfl
  | cons token tokens ih => rw [substituteTokens, ih, List.map_cons]

theorem substituteTrivias_eq_map (trivias : List Trivia) :
    substituteTrivias kind hook trivias = trivias.map (Trivia.substitute kind hook) := by
  induction trivias with
  | nil => rfl
  | cons trivia trivias ih => rw [substituteTrivias, ih, List.map_cons]

/-- The sites of a separated list, in the order in which its parts are asked for. -/
theorem flatten_weave_sites (elements : List Node) (separators : List Token) :
    (Separated.weave (nodeSites kind elements) (tokenSites kind separators)).flatten =
      (pairRequests elements separators).flatMap (Request.sites kind) := by
  rw [nodeSites_eq_map, tokenSites_eq_map]
  induction elements generalizing separators with
  | nil => rfl
  | cons element elements ih =>
    cases separators with
    | nil =>
      have hrest := ih []
      simp only [List.map_nil] at hrest
      simp [Separated.weave, pairRequests, hrest]
    | cons separator separators => simp [Separated.weave, pairRequests, ih]

/-- The sites of a part other than a node are those of the parts its walk asks for. -/
theorem Request.sites_eq_flatMap {part : Part} (value : part.Value) (h : part ≠ .node) :
    Request.sites kind ⟨part, value⟩ = (part.requests true value).flatMap (Request.sites kind) := by
  cases part with
  | node => exact absurd rfl h
  | token =>
    cases value with
    | mk label own text leading trailing =>
      simp [Request.sites, Token.sites, Part.requests, Token.leading, Token.trailing]
  | trivia =>
    cases value with
    | mk label own text inner =>
      cases inner <;> simp [Request.sites, Trivia.sites, Part.requests, Trivia.inner, Request.node]
  | nodes =>
    rw [Request.sites, nodeSites_eq_map, Part.requests, List.flatMap_map, List.flatMap_def]
  | separated => exact flatten_weave_sites _ _
  | tokens =>
    rw [Request.sites, tokenSites_eq_map, Part.requests, List.flatMap_map, List.flatMap_def]
  | trivias =>
    rw [Request.sites, triviaSites_eq_flatMap, Part.requests, List.flatMap_map]

end Lists

/-! ### The reply of such a hook -/

/-- Decides on the nodes of a kind. -/
def Takeover.onKind (kind : Kind) (hook : Node → Option Node) : Takeover
  | .node, value => if Node.kind value = kind then some (hook value) else none
  | _, _ => none

/-- The reply of a traversal whose only hook stands on a kind and asks for nothing. -/
abbrev Reply.replacing (kind : Kind) (hook : Node → Option Node) : Reply :=
  (Takeover.onKind kind hook).reply true

section Reply

variable {kind : Kind} {hook : Node → Option Node}

theorem Takeover.onKind_of_eq {node : Node} (h : node.kind = kind) :
    Takeover.onKind kind hook .node node = some (hook node) := if_pos h

theorem Takeover.onKind_of_ne {node : Node} (h : node.kind ≠ kind) :
    Takeover.onKind kind hook .node node = none := if_neg h

theorem Takeover.ne_of_onKind {node : Node}
    (h : Takeover.onKind kind hook .node node = none) : node.kind ≠ kind := by
  intro hk
  rw [Takeover.onKind_of_eq hk] at h
  exact nomatch h

theorem Takeover.eq_of_onKind {node : Node} {result : Option Node}
    (h : Takeover.onKind kind hook .node node = some result) : node.kind = kind := by
  by_contra hk
  rw [Takeover.onKind_of_ne hk] at h
  exact nomatch h

theorem Node.sites_of_eq {node : Node} (h : node.kind = kind) (seat : Seat) :
    node.sites kind seat = [⟨seat, node⟩] := by
  cases node
  exact if_pos h

theorem Node.sites_of_ne {node : Node} (h : node.kind ≠ kind) (seat : Seat) :
    node.sites kind seat = node.slots.sites kind node.kind := by
  cases node
  exact if_neg h

theorem Takeover.onKind_of_part {part : Part} (value : part.Value) (h : part ≠ .node) :
    Takeover.onKind kind hook part value = none := by
  cases part with
  | node => exact absurd rfl h
  | token | trivia | nodes | separated | tokens | trivias => rfl

theorem Takeover.part_of_onKind {part : Part} {value : part.Value} {result : part.Result}
    (h : Takeover.onKind kind hook part value = some result) : part = .node := by
  by_contra hpart
  rw [Takeover.onKind_of_part value hpart] at h
  exact nomatch h

/-- Tokens are not removed. -/
theorem missing_token (parent : Kind) (name : String) (token : Token) :
    (Reply.replacing kind hook).missing parent name (.token token) = [] := by
  rw [Reply.missing, Takeover.result_of_none rfl]
  rfl

/-- The faults of a part are those of its sites, in the same order. -/
def FaultsAtSites (kind : Kind) (hook : Node → Option Node) (request : Request) : Prop :=
  (Reply.replacing kind hook).faults request.part request.value =
    (request.sites kind).filterMap (Site.fault? hook)

theorem faultsIn_eq {requests : List Request}
    (h : ∀ request ∈ requests, FaultsAtSites kind hook request) :
    (Reply.replacing kind hook).faultsIn requests =
      (requests.flatMap (Request.sites kind)).filterMap (Site.fault? hook) := by
  rw [Reply.faultsIn, List.filterMap_flatMap]
  exact List.flatMap_congr h

/-- What is met at a node itself depends on its seat. -/
theorem filterMap_sites_node {node : Node} (seat : Seat)
    (h : FaultsAtSites kind hook (.node node)) :
    (node.sites kind seat).filterMap (Site.fault? hook) =
      (Reply.replacing kind hook).faults .node node ++
        if ((Reply.replacing kind hook).result .node node).isNone then
          (seat.fault? node.kind).toList
        else [] := by
  by_cases hk : node.kind = kind
  · have htakes : Takeover.onKind kind hook .node node = some (hook node) :=
      Takeover.onKind_of_eq hk
    rw [Takeover.faults_of_some htakes, Takeover.result_of_some htakes, node.sites_of_eq hk]
    cases hn : hook node <;> simp [Site.fault?, hn, List.filterMap_cons]
    cases seat.fault? node.kind <;> rfl
  · have hsome : ((Reply.replacing kind hook).result .node node).isNone = false := by
      rw [Takeover.result_of_none (Takeover.onKind_of_ne hk)]
      rfl
    have hfaults : (Reply.replacing kind hook).faults .node node =
        (node.sites kind .optional).filterMap (Site.fault? hook) := h
    rw [hfaults, hsome, node.sites_of_ne hk, node.sites_of_ne hk]
    exact (List.append_nil _).symm

theorem filterMap_sites_slot (parent : Kind) (name : String) {shape : Shape} (slot : Slot shape)
    (h : ∀ request ∈ slot.requests, FaultsAtSites kind hook request) :
    (slot.sites kind (.required parent name)).filterMap (Site.fault? hook) =
      (Reply.replacing kind hook).faultsIn slot.requests ++
        (Reply.replacing kind hook).missing parent name slot := by
  cases slot with
  | node child =>
    rw [Slot.sites, filterMap_sites_node _ (h _ List.mem_cons_self)]
    simp only [Slot.requests, Reply.faultsIn_cons, Reply.faultsIn_nil, List.append_nil,
      Request.node, Reply.missing]
    rfl
  | token child =>
    rw [faultsIn_eq h, missing_token]
    simp [Slot.sites, Slot.requests, Request.token, Request.sites]
  | optNode child | optToken child =>
    rw [faultsIn_eq h]
    cases child <;> simp [Slot.sites, Slot.requests, Request.node, Request.token, Request.sites,
      Reply.missing]
  | nodes children | tokens children | separated children =>
    rw [faultsIn_eq h]
    simp [Slot.sites, Slot.requests, Request.sites, Reply.missing]

theorem filterMap_sites_slots (parent : Kind) : {fields : List Field} → (slots : Slots fields) →
    (∀ request ∈ slots.requests, FaultsAtSites kind hook request) →
    (slots.sites kind parent).filterMap (Site.fault? hook) =
      (Reply.replacing kind hook).slotsFaults parent slots
  | _, .nil, _ => rfl
  | field :: _, .cons slot rest, h => by
    have hslot := filterMap_sites_slot parent field.name slot
      fun request hr => h request (List.mem_append_left _ hr)
    have hrest := filterMap_sites_slots parent rest
      fun request hr => h request (List.mem_append_right _ hr)
    rw [Slots.sites, List.filterMap_append, hslot, hrest, Reply.slotsFaults]

theorem faultsAtSites (request : Request) : FaultsAtSites kind hook request := by
  induction request using Request.induction true with
  | step part value ih =>
    by_cases hpart : part = .node
    · subst hpart
      by_cases hk : Node.kind value = kind
      · have htakes : Takeover.onKind kind hook .node value = some (hook value) :=
          Takeover.onKind_of_eq hk
        rw [FaultsAtSites, Takeover.faults_of_some htakes]
        simp [Request.sites, Node.sites_of_eq hk, Site.fault?, Seat.fault?]
      · rw [FaultsAtSites, Takeover.faults_of_none (Takeover.onKind_of_ne hk), Request.sites,
          Node.sites_of_ne hk]
        exact (filterMap_sites_slots _ _ ih).symm
    · rw [FaultsAtSites, Takeover.faults_of_none (Takeover.onKind_of_part value hpart),
        Reply.faults_walk_of_part value hpart, faultsIn_eq ih, Request.sites_eq_flatMap value hpart]

/-! ### Objects that come back -/

theorem faults_of_mem_slots (reply : Reply) (parent : Kind) : {fields : List Field} →
    (slots : Slots fields) → reply.slotsFaults parent slots = [] →
    ∀ request ∈ slots.requests, reply.faults request.part request.value = []
  | _, .nil, _, request, hr => by simp [Slots.requests] at hr
  | field :: _, .cons slot rest, h, request, hr => by
    simp only [Reply.slotsFaults, List.append_eq_nil_iff] at h
    rcases List.mem_append.mp hr with hr | hr
    · exact List.flatMap_eq_nil_iff.mp h.1.1 request hr
    · exact faults_of_mem_slots reply parent rest h.2 request hr

/-- A walk without fault asks for parts without fault. -/
theorem faults_of_mem_requests {reply : Reply} {structured : Bool} {part : Part}
    {value : part.Value} (h : (reply.walk structured).faults part value = []) {request : Request}
    (hr : request ∈ part.requests structured value) :
    reply.faults request.part request.value = [] := by
  by_cases hpart : part = .node
  · subst hpart
    exact faults_of_mem_slots reply _ _ h request hr
  · rw [Reply.faults_walk_of_part value hpart] at h
    exact List.flatMap_eq_nil_iff.mp h request hr

theorem all_isKept_slot (seat : Seat) {shape : Shape} (slot : Slot shape) :
    (slot.sites kind seat).all (Site.isKept hook) = true ↔
      ∀ request ∈ slot.requests, (request.sites kind).all (Site.isKept hook) = true := by
  cases slot with
  | node child =>
    by_cases hk : child.kind = kind
    · simp [Slot.sites, Slot.requests, Request.node, Request.sites, Node.sites_of_eq hk,
        Site.isKept]
    · simp [Slot.sites, Slot.requests, Request.node, Request.sites, Node.sites_of_ne hk]
  | optNode child | optToken child =>
    cases child <;>
      simp [Slot.sites, Slot.requests, Request.node, Request.token, Request.sites]
  | token child => simp [Slot.sites, Slot.requests, Request.token, Request.sites]
  | nodes children | tokens children | separated children =>
    simp only [Slot.sites, Slot.requests, Request.sites, List.mem_singleton, forall_eq]

theorem all_isKept_slots (parent : Kind) : {fields : List Field} → (slots : Slots fields) →
    ((slots.sites kind parent).all (Site.isKept hook) = true ↔
      ∀ request ∈ slots.requests, (request.sites kind).all (Site.isKept hook) = true)
  | _, .nil => by simp [Slots.sites, Slots.requests]
  | field :: _, .cons slot rest => by
    rw [Slots.sites, List.all_append, Bool.and_eq_true, all_isKept_slot,
      all_isKept_slots parent rest, Slots.requests]
    exact List.forall_mem_append.symm

/-- All nodes at the sites of a part are kept when that is so of each part its walk asks for. -/
theorem all_isKept_iff {part : Part} {value : part.Value}
    (h : Takeover.onKind kind hook part value = none) :
    (Request.sites kind ⟨part, value⟩).all (Site.isKept hook) = true ↔
      ∀ request ∈ part.requests true value, (request.sites kind).all (Site.isKept hook) = true := by
  by_cases hpart : part = .node
  · subst hpart
    rw [Request.sites, Node.sites_of_ne (Takeover.ne_of_onKind h)]
    exact all_isKept_slots _ _
  · rw [Request.sites_eq_flatMap value hpart, List.all_flatMap, List.all_eq_true]

/-- A part without fault comes back as the same object when all nodes at its sites do. -/
theorem replacing_keeps_iff (request : Request)
    (hlabels : request.every Request.isLabelled true = true)
    (htrim : request.every Request.isTrim true = true)
    (hfaults : (Reply.replacing kind hook).faults request.part request.value = []) :
    (Reply.replacing kind hook).keeps request ↔
      (request.sites kind).all (Site.isKept hook) = true := by
  induction request using Request.induction true with
  | step part value ih =>
    cases htakes : Takeover.onKind kind hook part value with
    | none =>
      rw [Takeover.faults_of_none htakes] at hfaults
      have hwalk := Reply.keeps_walk_iff (Request.test_of_every hlabels) hfaults
      rw [Reply.keeps, Takeover.result_of_none htakes, all_isKept_iff htakes]
      refine hwalk.trans ⟨?_, ?_⟩
      · rintro ⟨-, h⟩ request hr
        refine (ih request hr ?_ ?_ (faults_of_mem_requests hfaults hr)).mp (h request hr)
        · exact Request.every_of_mem_requests id hlabels hr
        · exact Request.every_of_mem_requests id htrim hr
      · intro h
        refine ⟨Request.test_of_every htrim, fun request hr => ?_⟩
        refine (ih request hr ?_ ?_ (faults_of_mem_requests hfaults hr)).mpr (h request hr)
        · exact Request.every_of_mem_requests id hlabels hr
        · exact Request.every_of_mem_requests id htrim hr
    | some result =>
      obtain rfl := Takeover.part_of_onKind htakes
      have hk := Takeover.eq_of_onKind htakes
      rw [Reply.keeps, Takeover.result_of_some (Takeover.onKind_of_eq hk), Request.sites,
        Node.sites_of_eq hk]
      simp [Part.same, Site.isKept]

/-! ### The result -/

/-- The result of a part is its substitution. -/
def Substitutes (reply : Reply) (kind : Kind) (hook : Node → Option Node) (request : Request) :
    Prop :=
  reply.result request.part request.value = request.part.substitute kind hook request.value

theorem slotResult_eq {reply : Reply} {shape : Shape} (slot : Slot shape)
    (h : ∀ request ∈ slot.requests, Substitutes reply kind hook request) :
    reply.slotResult slot = slot.substitute kind hook := by
  cases slot with
  | node child =>
    have hc : reply.result .node child = child.substitute kind hook := h _ List.mem_cons_self
    rw [Reply.slotResult, hc, Slot.substitute]
  | optNode child =>
    cases child with
    | none => rfl
    | some child =>
      have hc : reply.result .node child = child.substitute kind hook := h _ List.mem_cons_self
      rw [Reply.slotResult, Option.bind_some, hc, Slot.substitute]
  | token child =>
    have hc : reply.result .token child = some (child.substitute kind hook) :=
      h _ List.mem_cons_self
    rw [Reply.slotResult, hc, Slot.substitute, Option.getD_some]
  | optToken child =>
    cases child with
    | none => rfl
    | some child =>
      have hc : reply.result .token child = some (child.substitute kind hook) :=
        h _ List.mem_cons_self
      rw [Reply.slotResult, Option.bind_some, hc, Slot.substitute]
  | nodes children => exact congrArg Slot.nodes (h ⟨.nodes, children⟩ List.mem_cons_self)
  | tokens children => exact congrArg Slot.tokens (h ⟨.tokens, children⟩ List.mem_cons_self)
  | separated children =>
    exact congrArg Slot.separated (h ⟨.separated, children⟩ List.mem_cons_self)

theorem slotsResult_eq {reply : Reply} : {fields : List Field} → (slots : Slots fields) →
    (∀ request ∈ slots.requests, Substitutes reply kind hook request) →
    reply.slotsResult slots = slots.substitute kind hook
  | _, .nil, _ => rfl
  | field :: _, .cons slot rest, h => by
    have hslot := slotResult_eq slot fun request hr => h request (List.mem_append_left _ hr)
    have hrest := slotsResult_eq rest fun request hr => h request (List.mem_append_right _ hr)
    rw [Reply.slotsResult, hslot, hrest, Slots.substitute]

theorem pairs_eq {reply : Reply} {elements : List Node} {separators : List Token}
    (h : ∀ request ∈ pairRequests elements separators, Substitutes reply kind hook request) :
    reply.pairs elements separators =
      staying (elements.map (Node.substitute kind hook))
        (separators.map (Token.substitute kind hook)) := by
  induction elements generalizing separators with
  | nil => rfl
  | cons element elements ih =>
    have he : reply.result .node element = element.substitute kind hook := h _ List.mem_cons_self
    have hs : separators.head?.bind (reply.result .token) =
        (separators.map (Token.substitute kind hook)).head? := by
      cases separators with
      | nil => rfl
      | cons separator separators =>
        exact h (.token separator) (List.mem_cons_of_mem _ List.mem_cons_self)
    have hrest := ih fun request hr =>
      h request (List.mem_cons_of_mem _ (List.mem_append_right _ hr))
    rw [Reply.pairs, he, hs, hrest, List.map_cons, List.map_tail]
    cases element.substitute kind hook <;> rfl

theorem nodeResult_eq {reply : Reply} {node : Node} (hk : node.kind ≠ kind)
    (hlabel : node.label.isSome = true)
    (hkeeps : node.same (reply.nodeResult node) = true ↔
      (node.sites kind .optional).all (Site.isKept hook) = true)
    (h : ∀ request ∈ node.slots.requests, Substitutes reply kind hook request) :
    some (reply.nodeResult node) = node.substitute kind hook := by
  rw [Reply.same_nodeResult hlabel, node.sites_of_ne hk] at hkeeps
  rw [Reply.nodeResult, slotsResult_eq node.slots h]
  rw [slotsResult_eq node.slots h] at hkeeps
  cases node with
  | mk info own slots =>
    rw [Node.substitute, if_neg (show own ≠ kind from hk)]
    by_cases hall : (slots.sites kind own).all (Site.isKept hook) = true
    · rw [if_pos (hkeeps.mpr hall), if_pos hall]
    · rw [if_neg (mt hkeeps.mp hall), if_neg hall]
      rfl

theorem tokenResult_eq {reply : Reply} {token : Token} (hlabel : token.label.isSome = true)
    (hkeeps : token.same (reply.tokenResult token) = true ↔
      (token.sites kind).all (Site.isKept hook) = true)
    (hleading : Substitutes reply kind hook ⟨.trivias, token.leading⟩)
    (htrailing : Substitutes reply kind hook ⟨.trivias, token.trailing⟩) :
    reply.tokenResult token = token.substitute kind hook := by
  rw [Reply.same_tokenResult hlabel] at hkeeps
  rw [Reply.tokenResult]
  simp only [Substitutes, Part.substitute] at hleading htrailing
  simp only [hleading, htrailing] at hkeeps ⊢
  cases token with
  | mk label own text leading trailing =>
    rw [Token.substitute]
    by_cases hall : (triviaSites kind leading ++ triviaSites kind trailing).all
        (Site.isKept hook) = true
    · rw [if_pos (hkeeps.mpr hall), if_pos hall]
    · rw [if_neg (mt hkeeps.mp hall), if_neg hall]
      rfl

theorem triviaResult_eq {reply : Reply} {trivia : Trivia} (hlabel : trivia.label.isSome = true)
    (hkeeps : Part.same .trivia trivia (reply.triviaResult true trivia) = true ↔
      (trivia.sites kind).all (Site.isKept hook) = true)
    (h : ∀ inner, trivia.inner = some inner → Substitutes reply kind hook (.node inner)) :
    reply.triviaResult true trivia = trivia.substitute kind hook := by
  cases trivia with
  | mk label own text inner =>
    cases inner with
    | none => rfl
    | some inner =>
      have hinner : reply.result .node inner = inner.substitute kind hook := h inner rfl
      rw [Reply.same_triviaResult_iff true hlabel] at hkeeps
      simp only [Part.requests, Trivia.inner, if_true, Option.toList_some, List.map_cons,
        List.map_nil, List.mem_singleton, forall_eq, Reply.keeps, Request.node, Part.same, hinner,
        Trivia.sites] at hkeeps
      simp only [Reply.triviaResult, Trivia.inner, if_true, hinner, Trivia.substitute]
      by_cases hall : (inner.sites kind .optional).all (Site.isKept hook) = true
      · have hsame := hkeeps.mpr hall
        cases hr : inner.substitute kind hook with
        | none => simp [hr] at hsame
        | some result =>
          rw [hr, Option.any_some] at hsame
          rw [Option.map_some, if_pos hsame, if_pos hall]
      · rw [if_neg hall]
        cases hr : inner.substitute kind hook with
        | none => rfl
        | some result =>
          have hsame : ¬ inner.same result = true := by
            intro hsame
            exact hall (hkeeps.mp (by rw [hr]; exact hsame))
          rw [Option.map_some, if_neg hsame]
          rfl

/-- A walk of a part that is not taken over substitutes in it, if it does so in the parts it
asks for and gives back the objects in which no site is touched. -/
theorem substitutes_walk {reply : Reply} {part : Part} {value : part.Value}
    (hnone : Takeover.onKind kind hook part value = none)
    (hlabel : Request.isLabelled ⟨part, value⟩ = true)
    (hkeeps : (reply.walk true).keeps ⟨part, value⟩ ↔
      (Request.sites kind ⟨part, value⟩).all (Site.isKept hook) = true)
    (h : ∀ request ∈ part.requests true value, Substitutes reply kind hook request) :
    Substitutes (reply.walk true) kind hook ⟨part, value⟩ := by
  cases part with
  | node =>
    exact nodeResult_eq (Takeover.ne_of_onKind hnone) hlabel hkeeps h
  | token =>
    have hleading := h ⟨.trivias, Token.leading value⟩ List.mem_cons_self
    have htrailing := h ⟨.trivias, Token.trailing value⟩
      (List.mem_cons_of_mem _ List.mem_cons_self)
    exact congrArg some (tokenResult_eq hlabel hkeeps hleading htrailing)
  | trivia =>
    refine triviaResult_eq hlabel hkeeps fun inner hi => h (.node inner) ?_
    simp [Part.requests, hi]
  | nodes =>
    have hmap : List.filterMap (reply.result .node) value =
        List.filterMap (Node.substitute kind hook) value :=
      List.filterMap_congr fun node hn => h _ (List.mem_map_of_mem hn)
    simp only [Substitutes, Reply.walk, Part.substitute, substituteNodes_eq_map, hmap,
      List.filterMap_map, Function.id_comp]
  | separated =>
    simp only [Substitutes, Reply.walk, Part.substitute, substituteNodes_eq_map,
      substituteTokens_eq_map, Reply.separatedResult, pairs_eq h, dropGone]
  | tokens =>
    have hmap : List.filterMap (reply.result .token) value =
        List.filterMap (fun token => some (Token.substitute kind hook token)) value :=
      List.filterMap_congr fun token ht => h _ (List.mem_map_of_mem ht)
    simp only [Substitutes, Reply.walk, Part.substitute, substituteTokens_eq_map, hmap]
    exact congrFun List.filterMap_eq_map value
  | trivias =>
    have hmap : List.filterMap (reply.result .trivia) value =
        List.filterMap (Trivia.substitute kind hook) value :=
      List.filterMap_congr fun trivia ht => h _ (List.mem_map_of_mem ht)
    simp only [Substitutes, Reply.walk, Part.substitute, substituteTrivias_eq_map, hmap,
      List.filterMap_map, Function.id_comp]

theorem replacing_substitutes (request : Request)
    (hlabels : request.every Request.isLabelled true = true)
    (htrim : request.every Request.isTrim true = true)
    (hfaults : (Reply.replacing kind hook).faults request.part request.value = []) :
    Substitutes (Reply.replacing kind hook) kind hook request := by
  induction request using Request.induction true with
  | step part value ih =>
    cases htakes : Takeover.onKind kind hook part value with
    | none =>
      have hkeeps := replacing_keeps_iff ⟨part, value⟩ hlabels htrim hfaults
      rw [Takeover.faults_of_none htakes] at hfaults
      rw [Reply.keeps, Takeover.result_of_none htakes] at hkeeps
      rw [Substitutes, Takeover.result_of_none htakes]
      refine substitutes_walk htakes (Request.test_of_every hlabels) hkeeps fun request hr => ?_
      refine ih request hr ?_ ?_ (faults_of_mem_requests hfaults hr)
      · exact Request.every_of_mem_requests id hlabels hr
      · exact Request.every_of_mem_requests id htrim hr
    | some result =>
      obtain rfl := Takeover.part_of_onKind htakes
      have hk := Takeover.eq_of_onKind htakes
      rw [Substitutes, Takeover.result_of_some (Takeover.onKind_of_eq hk)]
      cases value with
      | mk info own slots => exact (if_pos hk).symm

end Reply

namespace Traversal

/-- The traversal with one hook, on a kind, that computes its result from the node alone. -/
def replacing (kind : Kind) (hook : Node → Option Node) : Traversal σ :=
  Traversal.empty.withHook (.node kind) fun node => .pure (hook node)

theorem replacing_decides (kind : Kind) (hook : Node → Option Node) :
    (replacing kind hook : Traversal σ).Decides (Takeover.onKind kind hook) where
  taken part value result htakes := by
    obtain rfl := Takeover.part_of_onKind htakes
    obtain rfl := Takeover.eq_of_onKind htakes
    rw [Takeover.onKind_of_eq rfl] at htakes
    obtain rfl : hook value = result := Option.some.inj htakes
    refine ⟨fun node => .pure (hook node), ?_, rfl⟩
    rw [hookFor, replacing, hooks_withHook_self]
  walked part value htakes other hother := by
    have hdefault : ∀ point, point ≠ .node kind →
        (replacing kind hook : Traversal σ).hooks point = none := by
      intro point hne
      rw [replacing, hooks_withHook_other _ _ _ _ (Ne.symm hne)]
      rfl
    cases part with
    | node =>
      have hk := Takeover.ne_of_onKind htakes
      have hnode : (Point.node (Node.kind value)) ≠ .node kind := fun h => hk (Point.node.inj h)
      rw [hookFor, hdefault _ hnode] at hother
      simp [hdefault] at hother
    | token | trivia | nodes | separated | tokens | trivias =>
      simp [hookFor, hdefault] at hother

/-- A hook on one kind substitutes for the topmost nodes of that kind. The run fails with the
fault of the first site that the hook must not empty; if there is none, it ends with the
substituted tree, in which every untouched object is the object it was. -/
theorem transform_replacing (kind : Kind) (hook : Node → Option Node) (tree : Node)
    (labels : tree.hasLabels = true) (trim : tree.isTrim true = true) {fuel : Nat}
    (enough : tree.fuel ≤ fuel) (state : σ) :
    match (tree.sites kind .root).findSome? (Site.fault? hook) with
    | some fault => (replacing kind hook).transform fuel tree state = .failed fault state
    | none => ∃ result, tree.substitute kind hook = some result ∧
        (replacing kind hook).transform fuel tree state = .done result state := by
  have hsites : (tree.sites kind .root).filterMap (Site.fault? hook) =
      (Reply.replacing kind hook).faults .node tree ++
        if ((Reply.replacing kind hook).result .node tree).isNone then [.rootRemoved tree.kind]
        else [] :=
    filterMap_sites_node .root (faultsAtSites (.node tree))
  have hrun : (replacing kind hook).transform fuel tree state =
      .verdict ((tree.sites kind .root).filterMap (Site.fault? hook))
        (((Reply.replacing kind hook).result .node tree).getD tree) state := by
    rw [hsites]
    exact transform_eq_reply (replacing_decides kind hook) tree enough state
  rw [← List.head?_filterMap, hrun]
  cases hfaults : (tree.sites kind .root).filterMap (Site.fault? hook) with
  | cons fault faults => rfl
  | nil =>
    rw [hfaults, eq_comm, List.append_eq_nil_iff] at hsites
    obtain ⟨hnone, hroot⟩ := hsites
    have hresult : (Reply.replacing kind hook).result .node tree = tree.substitute kind hook :=
      replacing_substitutes (.node tree) labels trim hnone
    cases hs : tree.substitute kind hook with
    | none => simp [hresult, hs] at hroot
    | some result =>
      refine ⟨result, rfl, ?_⟩
      rw [hresult, hs]
      rfl

/-- The call `f(1, 2)`. -/
def twoArguments : Node :=
  (Node.labelFrom (Build.invocation (Build.identifierName "f")
    [Build.argument (Build.numericLiteral "1"), Build.argument (Build.numericLiteral "2")]) 0).1

/-- Removing the last argument takes the separator in front of it along; the number in an
argument cannot be removed. -/
theorem transform_twoArguments :
    (∃ result, (replacing .argument fun node => if node.text = "2" then none else some node
        : Traversal Unit).transform twoArguments.fuel twoArguments () = .done result () ∧
      result.text = "f(1)") ∧
    (replacing .literalExpression fun _ => none : Traversal Unit).transform twoArguments.fuel
      twoArguments () = .failed (.missingChild .argument "expression") () := by
  have hlabels : twoArguments.hasLabels = true := Node.hasLabels_labelFrom _ _
  have htrim : twoArguments.isTrim true = true := by decide
  constructor
  · obtain ⟨result, hresult, hrun⟩ := transform_replacing .argument
      (fun node => if node.text = "2" then none else some node) twoArguments hlabels htrim
      (Nat.le_refl _) ()
    refine ⟨result, hrun, ?_⟩
    have htext : (twoArguments.substitute .argument
        fun node => if node.text = "2" then none else some node).map Node.text =
          some "f(1)" := by decide
    rw [hresult] at htext
    exact Option.some.inj htext
  · exact transform_replacing .literalExpression (fun _ => none) twoArguments hlabels htrim
      (Nat.le_refl _) ()

end Traversal

end SourceTree
