import SourceTree.Proofs.Equality
import SourceTree.Proofs.Traversal.Rework

/-!
Traversals that remove nothing. They make of each part a part of the same sort, and the walk of
a part puts together what becomes of the parts that it asks for. A traversal may keep a state:
parts are visited one after another, each in the state in which the one before left off. So
what a traversal does to a tree follows, from the inside out, from what it does to a part whose
smaller parts are settled.
-/
namespace SourceTree

variable {σ : Type}

/-! ### Changes -/

/-- A relation between parts of one sort. -/
abbrev Part.Relation : Type := (part : Part) → part.Value → part.Value → Prop

/-- Where a part is the same object as before, nothing changed. -/
def Part.Fresh : Part.Relation := fun part before after =>
  part.same before (part.unchanged after) = true → after = before

/-- What becomes of a part, and of the state. -/
abbrev Change (σ : Type) : Type := (part : Part) → part.Value → σ → part.Value → σ → Prop

def Change.related (change : Change σ) : Part.Relation := fun part before after =>
  ∃ start next, change part before start after next

/-- Parts are changed one after another. -/
inductive Threads (change : Change σ) : List Request → σ → List Request → σ → Prop where
  | nil (state : σ) : Threads change [] state [] state
  | cons {part : Part} {before after : part.Value} {start next last : σ}
      {requests results : List Request} (h : change part before start after next)
      (rest : Threads change requests next results last) :
      Threads change (⟨part, before⟩ :: requests) start (⟨part, after⟩ :: results) last

namespace Threads

variable {change : Change σ}

theorem single {part : Part} {before after : part.Value} {start next : σ}
    (h : change part before start after next) :
    Threads change [⟨part, before⟩] start [⟨part, after⟩] next :=
  .cons h (.nil next)

theorem append {as bs cs ds : List Request} {start next last : σ}
    (h : Threads change as start bs next) (h' : Threads change cs next ds last) :
    Threads change (as ++ cs) start (bs ++ ds) last := by
  induction h with
  | nil state => exact h'
  | cons hfirst _ ih => exact .cons hfirst (ih h')

/-- Each part that comes out is a changed part that went in. -/
theorem exists_of_mem {requests results : List Request} {start last : σ}
    (h : Threads change requests start results last) {part : Part} {after : part.Value}
    (hmem : ⟨part, after⟩ ∈ results) :
    ∃ before, ⟨part, before⟩ ∈ requests ∧ change.related part before after := by
  induction h with
  | nil state => exact absurd hmem List.not_mem_nil
  | cons hfirst _ ih =>
    rcases List.mem_cons.mp hmem with heq | hmem
    · cases heq
      exact ⟨_, List.mem_cons_self, _, _, hfirst⟩
    · obtain ⟨before, hbefore, hrelated⟩ := ih hmem
      exact ⟨before, List.mem_cons_of_mem _ hbefore, hrelated⟩

/-- Each part that goes in comes out changed. -/
theorem exists_result_of_mem {requests results : List Request} {start last : σ}
    (h : Threads change requests start results last) {part : Part} {before : part.Value}
    (hmem : ⟨part, before⟩ ∈ requests) :
    ∃ after, ⟨part, after⟩ ∈ results ∧ change.related part before after := by
  induction h with
  | nil state => exact absurd hmem List.not_mem_nil
  | cons hfirst _ ih =>
    rcases List.mem_cons.mp hmem with heq | hmem
    · cases heq
      exact ⟨_, List.mem_cons_self, _, _, hfirst⟩
    · obtain ⟨after, hafter, hrelated⟩ := ih hmem
      exact ⟨after, List.mem_cons_of_mem _ hafter, hrelated⟩

end Threads

/-- The visit of a part always succeeds and makes such a change. -/
def Visit.Makes (visit : Visit σ) (change : Change σ) (request : Request) : Prop :=
  ∀ state, ∃ after next, change request.part request.value state after next ∧
    visit request.part request.value state = .done (request.part.unchanged after) next

/-! ### Rebuilt parts -/

section Rebuilt

variable (R : Part.Relation)

/-- The content of a field is related to what was there. -/
inductive Slot.Rebuilt : {shape : Shape} → Slot shape → Slot shape → Prop where
  | node {before after : Node} (h : R .node before after) : Rebuilt (.node before) (.node after)
  | optNode {before after : Option Node} (h : Option.Rel (R .node) before after) :
      Rebuilt (.optNode before) (.optNode after)
  | token {before after : Token} (h : R .token before after) :
      Rebuilt (.token before) (.token after)
  | optToken {before after : Option Token} (h : Option.Rel (R .token) before after) :
      Rebuilt (.optToken before) (.optToken after)
  | nodes {before after : List Node} (h : R .nodes before after) :
      Rebuilt (.nodes before) (.nodes after)
  | tokens {before after : List Token} (h : R .tokens before after) :
      Rebuilt (.tokens before) (.tokens after)
  | separated {before after : Separated Node Token} (h : R .separated before after) :
      Rebuilt (.separated before) (.separated after)

inductive Slots.Rebuilt : {fields : List Field} → Slots fields → Slots fields → Prop where
  | nil : Rebuilt .nil .nil
  | cons {field : Field} {fields : List Field} {before after : Slot field.shape}
      {first second : Slots fields} (h : before.Rebuilt R after) (rest : Rebuilt first second) :
      Rebuilt (.cons before first) (.cons after second)

/-- The same kind and metadata, and fields that are related. -/
inductive Node.Rebuilt : Node → Node → Prop where
  | mk {info : Info} {kind : Kind} {before after : Slots kind.fields} (label : Option Nat)
      (h : before.Rebuilt R after) :
      Rebuilt (.mk info kind before) (.mk { info with label } kind after)

structure Token.Rebuilt (before after : Token) : Prop where
  kind : after.kind = before.kind
  text : after.text = before.text
  leading : R .trivias before.leading after.leading
  trailing : R .trivias before.trailing after.trailing

/-- The tree inside is related where such trees are entered, and else the same. -/
structure Trivia.Rebuilt (structured : Bool) (before after : Trivia) : Prop where
  kind : after.kind = before.kind
  text : after.text = before.text
  entered : structured = true → Option.Rel (R .node) before.inner after.inner
  passed : structured = false → after.inner = before.inner

/-- A part is put together from parts that are related to those it had. -/
def Part.Rebuilt (structured : Bool) : Part.Relation
  | .node => Node.Rebuilt R
  | .token => Token.Rebuilt R
  | .trivia => Trivia.Rebuilt R structured
  | .nodes => List.Forall₂ (R .node)
  | .separated => Separated.Match (R .node) (R .token)
  | .tokens => List.Forall₂ (R .token)
  | .trivias => List.Forall₂ (R .trivia)

variable {R}

theorem Slot.Rebuilt.eq_of_same (fresh : ∀ part before after, R part before after →
    part.Fresh before after) {shape : Shape} {before after : Slot shape}
    (h : before.Rebuilt R after) (hsame : before.same after = true) : after = before := by
  cases h with
  | node h => rw [fresh .node _ _ h hsame]
  | optNode h =>
    cases h with
    | none => rfl
    | some h => rw [fresh .node _ _ h hsame]
  | token h => rw [fresh .token _ _ h hsame]
  | optToken h =>
    cases h with
    | none => rfl
    | some h => rw [fresh .token _ _ h hsame]
  | nodes h => rw [fresh .nodes _ _ h hsame]
  | tokens h => rw [fresh .tokens _ _ h hsame]
  | separated h => rw [fresh .separated _ _ h hsame]

theorem Slots.Rebuilt.eq_of_same (fresh : ∀ part before after, R part before after →
    part.Fresh before after) {fields : List Field} {before after : Slots fields}
    (h : before.Rebuilt R after) (hsame : before.same after = true) : after = before := by
  induction h with
  | nil => rfl
  | cons hslot _ ih =>
    simp only [Slots.same, Bool.and_eq_true] at hsame
    rw [hslot.eq_of_same fresh hsame.1, ih hsame.2]

/-- The content of one field. -/
theorem Slots.Rebuilt.get? {fields : List Field} {before after : Slots fields}
    (h : before.Rebuilt R after) {target : Field} {content : Slot target.shape}
    (hget : before.get? target = some content) :
    ∃ result, after.get? target = some result ∧ content.Rebuilt R result := by
  induction h with
  | nil => cases hget
  | @cons field fields slot slot' _ _ hslot _ ih =>
    rw [Slots.get?] at hget
    rw [Slots.get?]
    by_cases hfield : field = target
    · subst hfield
      rw [dif_pos rfl] at hget ⊢
      obtain rfl : slot = content := Option.some.inj hget
      exact ⟨slot', rfl, hslot⟩
    · rw [dif_neg hfield] at hget ⊢
      exact ih hget

/-- No separator is left surplus. -/
theorem Part.isTrim_of_rebuilt {structured : Bool} {part : Part} {before after : part.Value}
    (h : part.Rebuilt R structured before after) : Request.isTrim ⟨part, after⟩ = true := by
  cases part with
  | separated =>
    have helements := h.elements.length_eq
    have hseparators := h.separators.length_eq
    rw [List.length_take] at hseparators
    exact decide_eq_true (by omega)
  | node | token | trivia | nodes | tokens | trivias => rfl

end Rebuilt

/-! ### Equal parts -/

/-- A part of the tree itself, and not of the trivia in it. -/
def Part.isSyntax : Part → Bool
  | .trivia | .trivias => false
  | .node | .token | .nodes | .separated | .tokens => true

theorem Slot.isSyntax_of_mem_requests {shape : Shape} {slot : Slot shape} {request : Request}
    (h : request ∈ slot.requests) : request.part.isSyntax = true := by
  cases slot with
  | optNode child | optToken child =>
    obtain ⟨item, -, rfl⟩ := List.mem_map.mp h
    rfl
  | node child | token child | nodes children | tokens children | separated children =>
    obtain rfl := List.mem_singleton.mp h
    rfl

theorem Slots.isSyntax_of_mem_requests : {fields : List Field} → (slots : Slots fields) →
    {request : Request} → request ∈ slots.requests → request.part.isSyntax = true
  | _, .nil, _, h => absurd h List.not_mem_nil
  | _, .cons _ rest, _, h =>
    (List.mem_append.mp h).elim Slot.isSyntax_of_mem_requests (isSyntax_of_mem_requests rest)

/-- The walk of a part of the tree asks for such parts, but for the trivia of a token. -/
theorem Part.isSyntax_of_mem_requests {structured : Bool} {part : Part} {value : part.Value}
    (h : part.isSyntax = true) (htoken : part ≠ .token) {request : Request}
    (hr : request ∈ part.requests structured value) : request.part.isSyntax = true := by
  cases part with
  | node => exact Slots.isSyntax_of_mem_requests _ hr
  | token => exact absurd rfl htoken
  | nodes | tokens =>
    obtain ⟨item, -, rfl⟩ := List.mem_map.mp hr
    rfl
  | separated =>
    rcases mem_of_mem_pairRequests hr with ⟨element, -, rfl⟩ | ⟨separator, -, rfl⟩
    · rfl
    · rfl
  | trivia | trivias => cases h

def Part.bare : (part : Part) → part.Value → part.Value
  | .node, value => Node.bare value
  | .token, value => Token.bare value
  | .trivia, value => Trivia.bare value
  | .nodes, value => bareNodes value
  | .separated, value =>
    ⟨bareNodes (Separated.elements value), bareTokens (Separated.separators value)⟩
  | .tokens, value => bareTokens value
  | .trivias, value => bareTrivia value

/-- Each token replaced, and no labels or metadata on nodes. -/
def Part.mapTokens (f : Token → Token) : (part : Part) → part.Value → part.Value
  | .node, value => Node.mapTokens f value
  | .token, value => f value
  | .trivia, value => value
  | .nodes, value => mapTokensAll f value
  | .separated, value =>
    ⟨mapTokensAll f (Separated.elements value), List.map f (Separated.separators value)⟩
  | .tokens, value => List.map f value
  | .trivias, value => value

theorem Part.bare_eq_mapTokens {part : Part} (h : part.isSyntax = true) (value : part.Value) :
    part.bare value = part.mapTokens Token.bare value := by
  cases part with
  | node => exact Node.bare_eq_mapTokens value
  | token => rfl
  | nodes => exact bareNodes_eq_mapTokensAll value
  | separated => rw [Part.bare, Part.mapTokens, bareNodes_eq_mapTokensAll, bareTokens_eq_map]
  | tokens => exact bareTokens_eq_map value
  | trivia | trivias => cases h

/-- Two parts differ in labels and metadata only. -/
def Part.Alike : Part.Relation := fun part before after => part.bare after = part.bare before

theorem map_eq_of_forall₂ {α β : Type} {f : α → β} {as bs : List α}
    (h : List.Forall₂ (fun a b => f b = f a) as bs) : bs.map f = as.map f := by
  induction h with
  | nil => rfl
  | cons hab _ ih => rw [List.map_cons, List.map_cons, hab, ih]

theorem forall₂_imp_of_mem {α β : Type} {R S : α → β → Prop} {as : List α} {bs : List β}
    (h : List.Forall₂ R as bs) (himp : ∀ a ∈ as, ∀ b, R a b → S a b) : List.Forall₂ S as bs := by
  induction h with
  | nil => exact .nil
  | cons hab _ ih =>
    exact .cons (himp _ List.mem_cons_self _ hab)
      (ih fun a ha => himp a (List.mem_cons_of_mem _ ha))

/-- Whatever a part is related to differs from it in labels, in metadata and in what `f` does
not show of the tokens. -/
def Request.AlikeUnder (f : Token → Token) (R : Part.Relation) (request : Request) : Prop :=
  ∀ after, R request.part request.value after →
    request.part.mapTokens f after = request.part.mapTokens f request.value

section Alike

variable {R : Part.Relation} {f : Token → Token}

theorem Slot.Rebuilt.mapTokens_eq {shape : Shape} {before after : Slot shape}
    (h : before.Rebuilt R after) (alike : ∀ request ∈ before.requests, request.AlikeUnder f R) :
    after.mapTokens f = before.mapTokens f := by
  cases h with
  | node h => exact congrArg Slot.node (alike _ List.mem_cons_self _ h)
  | optNode h =>
    cases h with
    | none => rfl
    | some h => exact congrArg (Slot.optNode ∘ some) (alike _ List.mem_cons_self _ h)
  | token h => exact congrArg Slot.token (alike _ List.mem_cons_self _ h)
  | optToken h =>
    cases h with
    | none => rfl
    | some h => exact congrArg (Slot.optToken ∘ some) (alike _ List.mem_cons_self _ h)
  | nodes h => exact congrArg Slot.nodes (alike _ List.mem_cons_self _ h)
  | tokens h => exact congrArg Slot.tokens (alike _ List.mem_cons_self _ h)
  | separated h => exact congrArg Slot.separated (alike _ List.mem_cons_self _ h)

theorem Slots.Rebuilt.mapTokens_eq {fields : List Field} {before after : Slots fields}
    (h : before.Rebuilt R after) (alike : ∀ request ∈ before.requests, request.AlikeUnder f R) :
    after.mapTokens f = before.mapTokens f := by
  induction h with
  | nil => rfl
  | cons hslot _ ih =>
    rw [Slots.mapTokens, Slots.mapTokens,
      hslot.mapTokens_eq fun request hr => alike request (List.mem_append_left _ hr),
      ih fun request hr => alike request (List.mem_append_right _ hr)]

theorem mapTokensAll_eq {before after : List Node} (h : List.Forall₂ (R .node) before after)
    (alike : ∀ node ∈ before, (Request.node node).AlikeUnder f R) :
    mapTokensAll f after = mapTokensAll f before := by
  rw [mapTokensAll_eq_map, mapTokensAll_eq_map]
  exact map_eq_of_forall₂ (forall₂_imp_of_mem h alike)

theorem map_tokens_eq {before after : List Token} (h : List.Forall₂ (R .token) before after)
    (alike : ∀ token ∈ before, (Request.token token).AlikeUnder f R) :
    after.map f = before.map f := map_eq_of_forall₂ (forall₂_imp_of_mem h alike)

/-- A part put together from parts that look alike looks alike, if it had no surplus
separators. -/
theorem Part.mapTokens_of_rebuilt {structured : Bool} {part : Part} {before after : part.Value}
    (h : part.Rebuilt R structured before after) (hparts : part.isSyntax = true)
    (htoken : part ≠ .token) (htrim : Request.isTrim ⟨part, before⟩ = true)
    (alike : ∀ request ∈ part.requests structured before, request.AlikeUnder f R) :
    part.mapTokens f after = part.mapTokens f before := by
  cases part with
  | node =>
    cases h with
    | mk label h => exact congrArg (Node.mk {} _) (h.mapTokens_eq alike)
  | token => exact absurd rfl htoken
  | nodes => exact mapTokensAll_eq h fun node hn => alike _ (List.mem_map_of_mem hn)
  | separated =>
    obtain ⟨hes, hss⟩ := mem_pairRequests (of_decide_eq_true htrim)
    have hseparators := h.separators
    rw [List.take_of_length_le (of_decide_eq_true htrim)] at hseparators
    rw [Part.mapTokens, Part.mapTokens,
      mapTokensAll_eq h.elements fun node hn => alike _ (hes node hn),
      map_tokens_eq hseparators fun token ht => alike _ (hss token ht)]
  | tokens => exact map_tokens_eq h fun token ht => alike _ (List.mem_map_of_mem ht)
  | trivia | trivias => cases hparts

variable (alike : ∀ part before after, R part before after → part.Alike before after)
include alike

theorem bareTrivia_eq {before after : List Trivia} (h : List.Forall₂ (R .trivia) before after) :
    bareTrivia after = bareTrivia before := by
  rw [bareTrivia_eq_map, bareTrivia_eq_map]
  exact map_eq_of_forall₂ (h.imp (alike .trivia))

theorem map_bare_eq {before after : Option Node} (h : Option.Rel (R .node) before after) :
    after.map Node.bare = before.map Node.bare := by
  cases h with
  | none => rfl
  | some h => exact congrArg some (alike _ _ _ h)

/-- A part put together from equal parts is equal, if it had no surplus separators. -/
theorem Part.alike_of_rebuilt {structured : Bool} {part : Part} {before after : part.Value}
    (h : part.Rebuilt R structured before after)
    (htrim : Request.isTrim ⟨part, before⟩ = true) : part.Alike before after := by
  have hparts (hpart : part.isSyntax = true) (htoken : part ≠ .token) :
      part.Alike before after := by
    rw [Part.Alike, Part.bare_eq_mapTokens hpart, Part.bare_eq_mapTokens hpart]
    refine Part.mapTokens_of_rebuilt h hpart htoken htrim fun request hr result hresult => ?_
    have hrequest := Part.isSyntax_of_mem_requests hpart htoken hr
    rw [← Part.bare_eq_mapTokens hrequest, ← Part.bare_eq_mapTokens hrequest]
    exact alike _ _ _ hresult
  cases part with
  | token =>
    have hleading : bareTrivia (Token.leading after) = bareTrivia (Token.leading before) :=
      alike _ _ _ h.leading
    have htrailing : bareTrivia (Token.trailing after) = bareTrivia (Token.trailing before) :=
      alike _ _ _ h.trailing
    change Token.bare after = Token.bare before
    rw [Token.bare_eq, Token.bare_eq, h.kind, h.text, hleading, htrailing]
  | trivia =>
    have hinner : (Trivia.inner after).map Node.bare = (Trivia.inner before).map Node.bare := by
      cases structured with
      | false => rw [h.passed rfl]
      | true => exact map_bare_eq alike (h.entered rfl)
    change Trivia.bare after = Trivia.bare before
    rw [Trivia.bare_eq, Trivia.bare_eq, h.kind, h.text, hinner]
  | trivias => exact bareTrivia_eq alike h
  | node | nodes | separated | tokens => exact hparts rfl nofun

end Alike

/-! ### Walks -/

/-- Visits each item and leaves out the removed ones. -/
def collect {α : Type} (ask : α → Plan σ (Option α)) : List α → Plan σ (List α)
  | [] => pure []
  | item :: rest => do
    let item ← ask item
    let rest ← collect ask rest
    return item.toList ++ rest

theorem walkNodes_eq_collect (nodes : List Node) :
    (walkNodes nodes : Plan σ _) = collect (Plan.visit .node) nodes := by
  induction nodes with
  | nil => rfl
  | cons node nodes ih => rw [walkNodes, collect, ih]

theorem walkTokens_eq_collect (tokens : List Token) :
    (walkTokens tokens : Plan σ _) = collect (Plan.visit .token) tokens := by
  induction tokens with
  | nil => rfl
  | cons token tokens ih => rw [walkTokens, collect, ih]

theorem walkTrivias_eq_collect (trivias : List Trivia) :
    (walkTrivias trivias : Plan σ _) = collect (Plan.visit .trivia) trivias := by
  induction trivias with
  | nil => rfl
  | cons trivia trivias ih => rw [walkTrivias, collect, ih]

section Walk

variable {visit : Visit σ} {change : Change σ}

theorem Visit.Makes.run {part : Part} {value : part.Value} (h : visit.Makes change ⟨part, value⟩)
    (state : σ) :
    ∃ after next, (Plan.visit part value).run (fun _ _ => visit) .empty state =
      .done (part.unchanged after) next ∧ change part value state after next := by
  obtain ⟨after, next, hchange, hvisit⟩ := h state
  exact ⟨after, next, (Plan.run_visit _ _ _ _ _).trans hvisit, hchange⟩

theorem run_collect {α : Type} (ask : α → Plan σ (Option α)) (wrap : α → Request)
    (made : α → σ → α → σ → Prop)
    (single : ∀ {before start after next}, made before start after next →
      Threads change [wrap before] start [wrap after] next)
    (hask : ∀ {item}, visit.Makes change (wrap item) → ∀ state, ∃ after next,
      (ask item).run (fun _ _ => visit) .empty state = .done (some after) next ∧
        made item state after next) {items : List α}
    (h : ∀ request ∈ items.map wrap, visit.Makes change request) (state : σ) :
    ∃ results next, (collect ask items).run (fun _ _ => visit) .empty state =
        .done results next ∧
      Threads change (items.map wrap) state (results.map wrap) next ∧
      List.Forall₂ (fun before after => ∃ start next, made before start after next) items
        results := by
  induction items generalizing state with
  | nil => exact ⟨[], state, rfl, .nil state, .nil⟩
  | cons item items ih =>
    obtain ⟨after, middle, hrun, hitem⟩ := hask (h _ List.mem_cons_self) state
    obtain ⟨results, next, hrest, hthreads, hall⟩ :=
      ih (fun other ho => h other (List.mem_cons_of_mem _ ho)) middle
    refine ⟨after :: results, next, ?_, (single hitem).append hthreads, .cons ⟨_, _, hitem⟩ hall⟩
    rw [collect, Plan.run_seq, hrun, Outcome.bind_done, Plan.run_seq, hrest]
    rfl

theorem run_optNode {node : Option Node}
    (h : ∀ request ∈ node.toList.map .node, visit.Makes change request) (state : σ) :
    ∃ after next, (visitOptNode node).run (fun _ _ => visit) .empty state = .done after next ∧
      Threads change (node.toList.map .node) state (after.toList.map .node) next ∧
      Option.Rel (change.related .node) node after := by
  cases node with
  | none => exact ⟨none, state, rfl, .nil state, .none⟩
  | some node =>
    obtain ⟨after, next, hrun, hnode⟩ := Visit.Makes.run (h _ List.mem_cons_self) state
    exact ⟨some after, next, hrun, .single hnode, .some ⟨_, _, hnode⟩⟩

theorem run_optToken {token : Option Token}
    (h : ∀ request ∈ token.toList.map .token, visit.Makes change request) (state : σ) :
    ∃ after next, (visitOptToken token).run (fun _ _ => visit) .empty state = .done after next ∧
      Threads change (token.toList.map .token) state (after.toList.map .token) next ∧
      Option.Rel (change.related .token) token after := by
  cases token with
  | none => exact ⟨none, state, rfl, .nil state, .none⟩
  | some token =>
    obtain ⟨after, next, hrun, htoken⟩ := Visit.Makes.run (h _ List.mem_cons_self) state
    exact ⟨some after, next, hrun, .single htoken, .some ⟨_, _, htoken⟩⟩

theorem run_slot (parent : Kind) (name : String) {shape : Shape} {slot : Slot shape}
    (h : ∀ request ∈ slot.requests, visit.Makes change request) (state : σ) :
    ∃ after next, (walkSlot parent name slot).run (fun _ _ => visit) .empty state =
        .done after next ∧
      Threads change slot.requests state after.requests next ∧
      slot.Rebuilt change.related after := by
  cases slot with
  | node child =>
    obtain ⟨after, next, hrun, hchild⟩ := Visit.Makes.run (h _ List.mem_cons_self) state
    refine ⟨.node after, next, ?_, .single hchild, .node ⟨_, _, hchild⟩⟩
    rw [walkSlot, Plan.run_seq, hrun]
    rfl
  | optNode child =>
    obtain ⟨after, next, hrun, hthreads, hrel⟩ := run_optNode h state
    refine ⟨.optNode after, next, ?_, hthreads, .optNode hrel⟩
    rw [walkSlot, Plan.run_seq, hrun]
    rfl
  | token child =>
    obtain ⟨after, next, hrun, hchild⟩ := Visit.Makes.run (h _ List.mem_cons_self) state
    refine ⟨.token after, next, ?_, .single hchild, .token ⟨_, _, hchild⟩⟩
    rw [walkSlot, Plan.run_seq, hrun]
    rfl
  | optToken child =>
    obtain ⟨after, next, hrun, hthreads, hrel⟩ := run_optToken h state
    refine ⟨.optToken after, next, ?_, hthreads, .optToken hrel⟩
    rw [walkSlot, Plan.run_seq, hrun]
    rfl
  | nodes children =>
    obtain ⟨after, next, hrun, hchildren⟩ := Visit.Makes.run (h _ List.mem_cons_self) state
    refine ⟨.nodes after, next, ?_, .single hchildren, .nodes ⟨_, _, hchildren⟩⟩
    rw [walkSlot, Plan.run_seq, hrun]
    rfl
  | tokens children =>
    obtain ⟨after, next, hrun, hchildren⟩ := Visit.Makes.run (h _ List.mem_cons_self) state
    refine ⟨.tokens after, next, ?_, .single hchildren, .tokens ⟨_, _, hchildren⟩⟩
    rw [walkSlot, Plan.run_seq, hrun]
    rfl
  | separated children =>
    obtain ⟨after, next, hrun, hchildren⟩ := Visit.Makes.run (h _ List.mem_cons_self) state
    refine ⟨.separated after, next, ?_, .single hchildren, .separated ⟨_, _, hchildren⟩⟩
    rw [walkSlot, Plan.run_seq, hrun]
    rfl

theorem run_slots (parent : Kind) : {fields : List Field} → {slots : Slots fields} →
    (∀ request ∈ slots.requests, visit.Makes change request) → (state : σ) →
    ∃ after next, (walkSlots parent slots).run (fun _ _ => visit) .empty state =
        .done after next ∧
      Threads change slots.requests state after.requests next ∧
      slots.Rebuilt change.related after
  | _, .nil, _, state => ⟨.nil, state, rfl, .nil state, .nil⟩
  | field :: _, .cons slot rest, h, state => by
    obtain ⟨first, middle, hfirst, hthreads, hslot⟩ := run_slot parent field.name
      (fun request hr => h request (List.mem_append_left _ hr)) state
    obtain ⟨others, next, hothers, hmore, hrest⟩ := run_slots parent
      (fun request hr => h request (List.mem_append_right _ hr)) middle
    refine ⟨.cons first others, next, ?_, hthreads.append hmore, .cons hslot hrest⟩
    rw [walkSlots, Plan.run_seq, hfirst, Outcome.bind_done, Plan.run_seq, hothers]
    rfl

/-! ### Separated lists -/

/-- The reply of visits that leave everything as it is. -/
def Reply.still : Reply where
  faults _ _ := []
  result := Part.unchanged

theorem Reply.still_separatedResult {list : Separated Node Token}
    (h : list.separators.length ≤ list.elements.length) : still.separatedResult list = list := by
  have helements : (still.separatedResult list).elements = list.elements :=
    (elements_separatedResult list).trans (List.filterMap_some)
  have hseparators : (still.separatedResult list).separators = list.separators := by
    rw [separators_separatedResult fun element he => rfl, List.take_of_length_le h]
    exact List.filterMap_some
  cases list
  exact Separated.mk.injEq .. ▸ ⟨helements, hseparators⟩

theorem run_pairs {elements : List Node} {separators : List Token}
    (h : ∀ request ∈ pairRequests elements separators, visit.Makes change request) (state : σ) :
    ∃ newElements newSeparators next,
      (walkPairs elements separators).run (fun _ _ => visit) .empty state =
        .done (Reply.still.pairs newElements newSeparators) next ∧
      Threads change (pairRequests elements separators) state
        (pairRequests newElements newSeparators) next ∧
      List.Forall₂ (change.related .node) elements newElements ∧
      List.Forall₂ (change.related .token) (separators.take elements.length) newSeparators := by
  induction elements generalizing separators state with
  | nil => exact ⟨[], [], state, rfl, .nil state, .nil, .nil⟩
  | cons element elements ih =>
    obtain ⟨newElement, second, helement, hfirst⟩ := Visit.Makes.run (h _ List.mem_cons_self) state
    obtain ⟨newSeparator, third, hseparator, hthreads, hrel⟩ := run_optToken
      (fun request hr => h request (List.mem_cons_of_mem _ (List.mem_append_left _ hr))) second
    obtain ⟨newElements, newSeparators, next, hrest, hmore, hes, hss⟩ := ih
      (fun request hr => h request (List.mem_cons_of_mem _ (List.mem_append_right _ hr))) third
    have hrun : (walkPairs (element :: elements) separators).run (fun _ _ => visit) .empty state =
        .done ((newElement, newSeparator) :: Reply.still.pairs newElements newSeparators) next := by
      rw [walkPairs, Plan.run_seq, helement, Outcome.bind_done, Plan.run_seq, hseparator,
        Outcome.bind_done, Plan.run_seq, hrest]
      rfl
    cases separators with
    | nil =>
      cases hrel
      rw [List.tail_nil, List.take_nil] at hss
      cases hss
      exact ⟨newElement :: newElements, [], next, hrun, .cons hfirst (hthreads.append hmore),
        .cons ⟨_, _, hfirst⟩ hes, .nil⟩
    | cons separator separators =>
      cases hrel with
      | some hrel =>
        rename_i newSeparator
        exact ⟨newElement :: newElements, newSeparator :: newSeparators, next, hrun,
          .cons hfirst (hthreads.append hmore), .cons ⟨_, _, hfirst⟩ hes, .cons hrel hss⟩

theorem run_separated {list : Separated Node Token}
    (h : ∀ request ∈ pairRequests list.elements list.separators, visit.Makes change request)
    (state : σ) :
    ∃ after next, (walkSeparated list).run (fun _ _ => visit) .empty state = .done after next ∧
      Threads change (pairRequests list.elements list.separators) state
        (pairRequests after.elements after.separators) next ∧
      Separated.Match (change.related .node) (change.related .token) list after := by
  obtain ⟨elements, separators, next, hrun, hthreads, hes, hss⟩ := run_pairs h state
  refine ⟨⟨elements, separators⟩, next, ?_, hthreads, ⟨hes, hss⟩⟩
  have helements := hes.length_eq
  have hseparators := hss.length_eq
  rw [List.length_take] at hseparators
  -- the list ends in a separator just when the old one does
  have htrailing : list.hasTrailing = Separated.hasTrailing ⟨elements, separators⟩ := by
    have hempty : list.elements.isEmpty = elements.isEmpty := by
      rw [Bool.eq_iff_iff, List.isEmpty_iff_length_eq_zero, List.isEmpty_iff_length_eq_zero,
        helements]
    rw [Separated.hasTrailing, Separated.hasTrailing, hempty]
    congr 1
    refine decide_eq_decide.mpr ?_
    change list.elements.length ≤ list.separators.length ↔ elements.length ≤ separators.length
    omega
  rw [walkSeparated, Plan.run_seq, hrun, Outcome.bind_done, Plan.run_pure, htrailing]
  exact congrArg (Outcome.done · next) (Reply.still_separatedResult (by simp; omega))

/-! ### Every part -/

section Parts

variable (fresh : ∀ part before after, change.related part before after →
  part.Fresh before after)
include fresh

theorem run_walkNode {node : Node}
    (h : ∀ request ∈ node.slots.requests, visit.Makes change request) (state : σ) :
    ∃ after next, (walkNode node).run (fun _ _ => visit) .empty state = .done (some after) next ∧
      Threads change node.slots.requests state after.slots.requests next ∧
      node.Rebuilt change.related after ∧ Part.Fresh .node node after := by
  cases node with
  | mk info kind slots =>
    change ∀ request ∈ slots.requests, visit.Makes change request at h
    obtain ⟨after, next, hrun, hthreads, hslots⟩ := run_slots kind h state
    have hwalk : (walkNode (.mk info kind slots)).run (fun _ _ => visit) .empty state =
        .done (some (if slots.same after then .mk info kind slots
          else .mk { metadata := info.metadata } kind after)) next :=
      (Plan.run_seq _ _ _ _ _).trans (congrArg (Outcome.bind · _) hrun)
    by_cases hsame : slots.same after = true
    · obtain rfl := hslots.eq_of_same fresh hsame
      rw [if_pos hsame] at hwalk
      exact ⟨.mk info kind after, next, hwalk, hthreads, .mk info.label hslots, fun _ => rfl⟩
    · rw [if_neg hsame] at hwalk
      refine ⟨.mk { metadata := info.metadata } kind after, next, hwalk, hthreads, .mk none hslots,
        fun hlabel => ?_⟩
      simp [Part.same, Part.unchanged, Node.same, Node.label, Node.info] at hlabel

theorem run_walkToken {structured : Bool} {token : Token}
    (h : ∀ request ∈ Part.requests structured .token token, visit.Makes change request)
    (state : σ) :
    ∃ after next, (walkToken token).run (fun _ _ => visit) .empty state = .done (some after) next ∧
      Threads change (Part.requests structured .token token) state
        (Part.requests structured .token after) next ∧
      token.Rebuilt change.related after ∧ Part.Fresh .token token after := by
  obtain ⟨first, middle, hleading, hfirst⟩ := Visit.Makes.run (h _ List.mem_cons_self) state
  obtain ⟨second, next, htrailing, hsecond⟩ :=
    Visit.Makes.run (h _ (List.mem_cons_of_mem _ List.mem_cons_self)) middle
  have hwalk : (walkToken token).run (fun _ _ => visit) .empty state =
      .done (some (if sameAll Trivia.same token.leading first &&
        sameAll Trivia.same token.trailing second then token
        else .mk none token.kind token.text first second)) next := by
    rw [walkToken, Plan.run_seq, hleading, Outcome.bind_done, Plan.run_seq, htrailing,
      Outcome.bind_done, Part.unchanged, Part.unchanged]
    split_ifs <;> rfl
  split at hwalk
  · rename_i hsame
    rw [Bool.and_eq_true] at hsame
    have hfirstSame : first = token.leading := fresh .trivias _ _ ⟨_, _, hfirst⟩ hsame.1
    have hsecondSame : second = token.trailing := fresh .trivias _ _ ⟨_, _, hsecond⟩ hsame.2
    rw [hfirstSame] at hfirst
    rw [hsecondSame] at hsecond
    exact ⟨token, next, hwalk, .cons hfirst (.single hsecond),
      ⟨rfl, rfl, ⟨_, _, hfirst⟩, ⟨_, _, hsecond⟩⟩, fun _ => rfl⟩
  · refine ⟨_, next, hwalk, .cons hfirst (.single hsecond),
      ⟨rfl, rfl, ⟨_, _, hfirst⟩, ⟨_, _, hsecond⟩⟩, fun hlabel => ?_⟩
    simp [Part.same, Part.unchanged, Token.same, Token.label] at hlabel

theorem run_walkTrivia {structured : Bool} {trivia : Trivia}
    (h : ∀ request ∈ Part.requests structured .trivia trivia, visit.Makes change request)
    (state : σ) :
    ∃ after next, (walkTrivia structured trivia).run (fun _ _ => visit) .empty state =
        .done (some after) next ∧
      Threads change (Part.requests structured .trivia trivia) state
        (Part.requests structured .trivia after) next ∧
      trivia.Rebuilt change.related structured after ∧ Part.Fresh .trivia trivia after := by
  cases trivia with
  | mk label kind text inner =>
    cases structured with
    | false =>
      refine ⟨.mk label kind text inner, state, ?_, .nil state, ⟨rfl, rfl, ?_, fun _ => rfl⟩,
        fun _ => rfl⟩
      · cases inner <;> rfl
      · simp
    | true =>
      cases inner with
      | none =>
        refine ⟨.mk label kind text none, state, rfl, .nil state,
          ⟨rfl, rfl, fun _ => .none, ?_⟩, fun _ => rfl⟩
        simp
      | some inner =>
        obtain ⟨after, next, hrun, hinner⟩ :=
          Visit.Makes.run (h (.node inner) List.mem_cons_self) state
        have hwalk : (walkTrivia true (.mk label kind text (some inner))).run (fun _ _ => visit)
            .empty state = .done (some (if inner.same after then .mk label kind text (some inner)
              else .mk none kind text (some after))) next :=
          (Plan.run_seq _ _ _ _ _).trans (congrArg (Outcome.bind · _) hrun)
        have hrebuilt (label') : (Trivia.mk label kind text (some inner)).Rebuilt change.related
            true (.mk label' kind text (some after)) :=
          ⟨rfl, rfl, fun _ => .some ⟨_, _, hinner⟩, by simp⟩
        split at hwalk
        · rename_i hsame
          obtain rfl : after = inner := fresh .node _ _ ⟨_, _, hinner⟩ hsame
          exact ⟨_, next, hwalk, .single hinner, hrebuilt label, fun _ => rfl⟩
        · refine ⟨_, next, hwalk, .single hinner, hrebuilt none, fun hlabel => ?_⟩
          simp [Part.same, Part.unchanged, Trivia.same, Trivia.label] at hlabel

/-- Where the visits of the smaller parts make changes, so does the walk of a part, and the
part is put together from what they make. -/
theorem Visit.walk_makes {structured : Bool} {part : Part} {value : part.Value}
    (h : ∀ request ∈ part.requests structured value, visit.Makes change request) (state : σ) :
    ∃ after next, visit.walk structured part value state = .done (part.unchanged after) next ∧
      Threads change (part.requests structured value) state (part.requests structured after)
        next ∧
      part.Rebuilt change.related structured value after ∧ part.Fresh value after := by
  cases part with
  | node => exact run_walkNode fresh h state
  | token => exact run_walkToken fresh h state
  | trivia => exact run_walkTrivia fresh h state
  | nodes =>
    obtain ⟨after, next, hrun, hthreads, hall⟩ := run_collect (Plan.visit .node) .node
      (change .node) .single Visit.Makes.run h state
    rw [← walkNodes_eq_collect] at hrun
    exact ⟨after, next, hrun, hthreads, hall, eq_of_sameAll (fresh .node) hall⟩
  | separated =>
    obtain ⟨after, next, hrun, hthreads, hmatch⟩ := run_separated h state
    exact ⟨after, next, hrun, hthreads, hmatch, hmatch.eq_of_same (fresh .node) (fresh .token)⟩
  | tokens =>
    obtain ⟨after, next, hrun, hthreads, hall⟩ := run_collect (Plan.visit .token) .token
      (change .token) .single Visit.Makes.run h state
    rw [← walkTokens_eq_collect] at hrun
    exact ⟨after, next, hrun, hthreads, hall, eq_of_sameAll (fresh .token) hall⟩
  | trivias =>
    obtain ⟨after, next, hrun, hthreads, hall⟩ := run_collect (Plan.visit .trivia) .trivia
      (change .trivia) .single Visit.Makes.run h state
    rw [← walkTrivias_eq_collect] at hrun
    exact ⟨after, next, hrun, hthreads, hall, eq_of_sameAll (fresh .trivia) hall⟩

end Parts

end Walk

namespace Traversal

variable {traversal : Traversal σ} {Q : Request → Prop} {test : Request → Bool} {change : Change σ}

/-- Suppose that the visit of a part makes a change if the visits of the smaller parts do, for
all parts with a property that passes on to the smaller ones. Then the visit of such a part
makes a change, given enough fuel. -/
theorem Modest.makes (modest : traversal.Modest)
    (closed : ∀ part value, Q ⟨part, value⟩ →
      ∀ request ∈ part.requests traversal.structured value, Q request)
    (step : ∀ (visit : Visit σ) (part : Part) (value : part.Value), Q ⟨part, value⟩ →
      (∀ request ∈ part.requests traversal.structured value, visit.Makes change request) →
      (traversal.round visit).Makes change ⟨part, value⟩)
    {request : Request} (h : Q request) (state : σ) :
    ∃ after next, change request.part request.value state after next ∧
      ∀ fuel, 2 * request.depth ≤ fuel →
        answer fuel traversal .visit request.part request.value state =
          .done (request.part.unchanged after) next := by
  induction request using Request.induction traversal.structured generalizing state with
  | step part value ih =>
    -- what becomes of the smaller parts makes up a visit
    have hany : ∀ request : Request, Nonempty request.part.Value :=
      fun request => ⟨request.value⟩
    have : Nonempty σ := ⟨state⟩
    choose! after next hchange hanswer using fun request hr =>
      ih request hr (closed part value h request hr)
    let visit : Visit σ := fun part value state =>
      .done (part.unchanged (after ⟨part, value⟩ state)) (next ⟨part, value⟩ state)
    obtain ⟨result, last, hresult, hround⟩ := step visit part value h
      (fun request hr state => ⟨_, _, hchange request hr state, rfl⟩) state
    refine ⟨result, last, hresult, fun fuel enough => ?_⟩
    have hpos := part.depth_pos value
    simp only [Request.depth] at enough
    obtain ⟨fuel, rfl⟩ : ∃ less, fuel = less + 2 := ⟨fuel - 2, by omega⟩
    rw [← hround]
    apply answer_eq_round modest
    intro request hr less hle _ state
    have hdepth : request.depth < part.depth value := Part.depth_requests hr
    exact hanswer request hr state less (by omega)

/-- The same for a whole tree. -/
theorem Modest.transform_closed (modest : traversal.Modest)
    (closed : ∀ part value, Q ⟨part, value⟩ →
      ∀ request ∈ part.requests traversal.structured value, Q request)
    (step : ∀ (visit : Visit σ) (part : Part) (value : part.Value), Q ⟨part, value⟩ →
      (∀ request ∈ part.requests traversal.structured value, visit.Makes change request) →
      (traversal.round visit).Makes change ⟨part, value⟩)
    {tree : Node} (h : Q (.node tree)) (state : σ) :
    ∃ result next, change .node tree state result next ∧ ∀ fuel, tree.fuel ≤ fuel →
      traversal.transform fuel tree state = .done result next := by
  obtain ⟨result, next, hchange, hanswer⟩ := modest.makes closed step h state
  refine ⟨result, next, hchange, fun fuel enough => ?_⟩
  have hvisit : traversal.visit fuel .node tree state = .done (some result) next :=
    hanswer fuel enough
  rw [transform, hvisit]
  rfl

/-- The same for a tree whose parts all pass a test. -/
theorem Modest.transform_makes (modest : traversal.Modest)
    (step : ∀ (visit : Visit σ) (part : Part) (value : part.Value),
      Request.every test traversal.structured ⟨part, value⟩ = true →
      (∀ request ∈ part.requests traversal.structured value, visit.Makes change request) →
      (traversal.round visit).Makes change ⟨part, value⟩)
    {tree : Node} (h : tree.every test traversal.structured = true) (state : σ) :
    ∃ result next, change .node tree state result next ∧ ∀ fuel, tree.fuel ≤ fuel →
      traversal.transform fuel tree state = .done result next := by
  have hnode : (Request.node tree).every test traversal.structured = true := h
  exact modest.transform_closed (fun _ _ hevery _ => Request.every_of_mem_requests id hevery) step
    hnode state

end Traversal

/-! ### Two traversals at once -/

namespace Traversal

variable {traversal other : Traversal σ} {test : Request → Bool} {change : Change σ}

end Traversal

/-! ### Traversals that decide on some parts -/

/-- The change that keeps no state. -/
def Change.stateless (R : Part.Relation) : Change Unit := fun part before _ after _ =>
  R part before after

@[simp] theorem Change.related_stateless (R : Part.Relation) : (stateless R).related = R := by
  funext part before after
  refine propext ⟨?_, fun h => ⟨(), (), h⟩⟩
  rintro ⟨_, _, h⟩
  exact h

/-- The visit of a part meets no fault and makes a related part of it. -/
def Reply.Makes (reply : Reply) (R : Part.Relation) (request : Request) : Prop :=
  reply.faults request.part request.value = [] ∧
    ∃ after, reply.result request.part request.value = request.part.unchanged after ∧
      R request.part request.value after

section Decides

variable {R : Part.Relation} {structured : Bool} {takes : Takeover}

theorem Reply.Makes.visit {reply : Reply} {request : Request} (h : reply.Makes R request) :
    (reply.visit : Visit Unit).Makes (.stateless R) request := by
  obtain ⟨hfaults, after, hresult, hrelated⟩ := h
  intro state
  refine ⟨after, state, hrelated, ?_⟩
  rw [Reply.visit, hfaults, hresult, Outcome.verdict_nil]

theorem Outcome.eq_of_verdict {α : Type} {faults : List Fault} {value result : α} {start next : σ}
    (h : Outcome.verdict faults value start = .done result next) :
    faults = [] ∧ value = result := by
  cases faults with
  | nil =>
    cases h
    exact ⟨rfl, rfl⟩
  | cons fault faults => cases h

/-- Suppose that the parts decided on are related to what they become, and that a part is if it
is walked and its smaller parts are. Then every part is. -/
theorem Takeover.makes {Q : Request → Prop}
    (closed : ∀ part value, Q ⟨part, value⟩ → ∀ request ∈ part.requests structured value, Q request)
    (fresh : ∀ part before after, R part before after → part.Fresh before after)
    (taken : ∀ part value result, takes part value = some result →
      ∃ after, result = part.unchanged after ∧ R part value after)
    (walked : ∀ part value after, Q ⟨part, value⟩ → takes part value = none →
      (takes.reply structured).result part value = part.unchanged after →
      Threads (.stateless R) (part.requests structured value) () (part.requests structured after)
        () →
      part.Rebuilt R structured value after → part.Fresh value after → R part value after)
    {request : Request} (h : Q request) : (takes.reply structured).Makes R request := by
  induction request using Request.induction structured with
  | step part value ih =>
    cases ht : takes part value with
    | some result =>
      obtain ⟨after, rfl, hrelated⟩ := taken part value result ht
      exact ⟨faults_of_some ht, after, result_of_some ht, hrelated⟩
    | none =>
      have hvisits : ∀ request ∈ part.requests structured value,
          ((takes.reply structured).visit : Visit Unit).Makes (.stateless R) request :=
        fun request hr => (ih request hr (closed part value h request hr)).visit
      have hrelated : ∀ part before after, (Change.stateless R).related part before after →
          part.Fresh before after := by simpa using fresh
      obtain ⟨after, next, hwalk, hthreads, hrebuilt, hfresh⟩ :=
        Visit.walk_makes hrelated hvisits ()
      rw [Change.related_stateless] at hrebuilt
      rw [Reply.walk_visit] at hwalk
      obtain ⟨hfaults, hresult⟩ := Outcome.eq_of_verdict hwalk
      have hmade : (takes.reply structured).result part value = part.unchanged after :=
        (result_of_none ht).trans hresult
      exact ⟨(faults_of_none ht).trans hfaults, after, hmade,
        walked part value after h ht hmade hthreads hrebuilt hfresh⟩

theorem Traversal.Decides.transform_makes {traversal : Traversal σ} (h : traversal.Decides takes)
    {tree : Node} (hmakes : (takes.reply traversal.structured).Makes R (.node tree)) {fuel : Nat}
    (enough : tree.fuel ≤ fuel) (state : σ) :
    ∃ result, traversal.transform fuel tree state = .done result state ∧ R .node tree result := by
  obtain ⟨hfaults, result, hresult, hrelated⟩ := hmakes
  simp only [Request.node] at hfaults hresult hrelated
  refine ⟨result, ?_, hrelated⟩
  rw [transform_eq_reply h tree enough, hfaults, hresult]
  rfl

end Decides

end SourceTree
