import SourceTree.Form
import SourceTree.Identity
import SourceTree.Proofs.Traversal.Kept

/-!
Taking trivia out of a tree. A hook on trivia removes those that satisfy a predicate of kind and
text and walks the others, trees inside them included. Every tree is transformed; nothing that
satisfies the predicate is left, however deep; tokens keep their kinds and texts, and what is left
of their trivia stays in order. A tree without such trivia comes back as the object that it was.
-/
namespace SourceTree

variable {σ : Type} {p : TriviaKind → String → Bool}

/-- Removes the trivia that satisfy `p` and walks the others. -/
def triviaStripper (p : TriviaKind → String → Bool) : Traversal σ :=
  Traversal.empty.withHook .trivia fun trivia =>
    if p trivia.kind trivia.text then pure none else Plan.walk .trivia trivia

def Takeover.stripping (p : TriviaKind → String → Bool) : Takeover
  | .trivia, trivia => if p (Trivia.kind trivia) (Trivia.text trivia) then some none else none
  | _, _ => none

theorem stripping_trivia_eq_none_iff {trivia : Trivia} :
    Takeover.stripping p .trivia trivia = none ↔ p trivia.kind trivia.text = false := by
  simp [Takeover.stripping]

theorem stripping_decides : (triviaStripper p : Traversal σ).Decides (.stripping p) where
  taken part value result ht := by
    cases part with
    | trivia =>
      refine ⟨_, rfl, ?_⟩
      by_cases hp : p (Trivia.kind value) (Trivia.text value) = true
      · simp only [Takeover.stripping, hp, if_true] at ht ⊢
        cases ht
        rfl
      · simp [Takeover.stripping, hp] at ht
    | node | token | nodes | separated | tokens | trivias => cases ht
  walked part value ht hook hhook := by
    cases part with
    | trivia =>
      obtain rfl : _ = hook := Option.some.inj hhook
      simp [stripping_trivia_eq_none_iff.mp ht]
    | node | token | nodes | separated | tokens | trivias => cases hhook

/-! ### What is left -/

section Left

variable (p)

mutual

/-- A token keeps its kind and text, and of its trivia those that do not satisfy `p`, in order. -/
inductive Token.Thinned : Token → Token → Prop where
  | mk {before after : Token} (kind : after.kind = before.kind) (text : after.text = before.text)
      (leading : List.Forall₂ Trivia.Thinned
        (before.leading.filter fun trivia => !p trivia.kind trivia.text) after.leading)
      (trailing : List.Forall₂ Trivia.Thinned
        (before.trailing.filter fun trivia => !p trivia.kind trivia.text) after.trailing) :
      Token.Thinned before after

/-- Trivia keep their kind and text, and the tokens of the tree inside are thinned. -/
inductive Trivia.Thinned : Trivia → Trivia → Prop where
  | plain {before after : Trivia} (kind : after.kind = before.kind)
      (text : after.text = before.text) (before_inner : before.inner = none)
      (after_inner : after.inner = none) : Trivia.Thinned before after
  | tree {before after : Trivia} {inner left : Node} (kind : after.kind = before.kind)
      (text : after.text = before.text) (before_inner : before.inner = some inner)
      (after_inner : after.inner = some left)
      (tokens : List.Forall₂ Token.Thinned inner.tokens left.tokens) :
      Trivia.Thinned before after

end

/-- The part is not one of the trivia that satisfy `p`. -/
def Request.isLeft : Request → Bool
  | ⟨.trivia, value⟩ => !p (Trivia.kind value) (Trivia.text value)
  | _ => true

/-- No trivia satisfy `p`, be it on a token of the tree or inside trivia, at any depth. -/
def Node.lacks (node : Node) : Bool := node.every (Request.isLeft p) true

/-- What stripping leaves as it is: separated lists without surplus, and no trivia to remove. -/
def Request.isStripped (request : Request) : Bool := request.isTrim && request.isLeft p

/-- What becomes of a node. -/
structure Node.Stripped (before after : Node) : Prop where
  fresh : before.same after = true → after = before
  stripped : after.every (Request.isStripped p) true = true
  tokens : List.Forall₂ (Token.Thinned p) before.tokens after.tokens

structure Token.Stripped (before after : Token) : Prop where
  fresh : before.same after = true → after = before
  stripped : after.every (Request.isStripped p) true = true
  thinned : before.Thinned p after

structure Trivia.Stripped (before after : Trivia) : Prop where
  fresh : before.same after = true → after = before
  stripped : after.every (Request.isStripped p) true = true
  thinned : before.Thinned p after

/-- What becomes of a list of trivia. -/
structure TriviasStripped (before after : List Trivia) : Prop where
  fresh : sameAll Trivia.same before after = true → after = before
  each : List.Forall₂ (Trivia.Stripped p)
    (before.filter fun trivia => !p trivia.kind trivia.text) after

/-- Trivia that satisfy `p` are gone, and others are stripped inside. -/
def Trivia.GoesTo (before : Trivia) (result : Option Trivia) : Prop :=
  (p before.kind before.text = true ∧ result = none) ∨
    p before.kind before.text = false ∧ ∃ after, result = some after ∧ before.Stripped p after

/-- The same for a part; nodes and tokens are seen to elsewhere. -/
def Part.TriviaStripped : (part : Part) → part.Value → part.Result → Prop
  | .trivia, value, result => Trivia.GoesTo p value result
  | .trivias, value, result => TriviasStripped p value result
  | _, _, _ => True

/-- The visit of a part meets no fault and strips it. -/
def Reply.Strips (reply : Reply) (request : Request) : Prop :=
  reply.Matches (Node.Stripped p) (Token.Stripped p) request ∧
    request.part.TriviaStripped p request.value (reply.result request.part request.value)

end Left

/-! ### Tokens and tests of fields that match -/

section Match

variable {onNode : Node → Node → Prop} {onToken : Token → Token → Prop}
  {R : Token → Token → Prop} {test : Request → Bool} {structured : Bool}

theorem forall₂_tokensBetween (hnode : ∀ a b, onNode a b → List.Forall₂ R a.tokens b.tokens)
    (htoken : ∀ a b, onToken a b → R a b) {as bs : List Node} (h : List.Forall₂ onNode as bs)
    {cs ds : List Token} (h' : List.Forall₂ onToken (cs.take as.length) ds) :
    List.Forall₂ R (tokensBetween as cs) (tokensBetween bs ds) := by
  induction h generalizing cs ds with
  | nil => exact .nil
  | cons hab _ ih =>
    cases cs with
    | nil =>
      cases h' with
      | nil => exact List.rel_append (hnode _ _ hab) (ih (by rw [List.take_nil]; exact .nil))
    | cons c cs =>
      rw [List.length_cons, List.take_succ_cons] at h'
      cases h' with
      | cons hcd hrest =>
        exact List.rel_append (hnode _ _ hab) (.cons (htoken _ _ hcd) (ih hrest))

theorem Slot.Match.forall₂_tokens (hnode : ∀ a b, onNode a b → List.Forall₂ R a.tokens b.tokens)
    (htoken : ∀ a b, onToken a b → R a b) {shape : Shape} {before after : Slot shape}
    (h : before.Match onNode onToken after) :
    List.Forall₂ R before.tokensIn after.tokensIn := by
  cases h with
  | node h => exact hnode _ _ h
  | optNode h =>
    cases h with
    | none => exact .nil
    | some h => exact hnode _ _ h
  | token h => exact .cons (htoken _ _ h) .nil
  | optToken h =>
    cases h with
    | none => exact .nil
    | some h => exact .cons (htoken _ _ h) .nil
  | nodes h =>
    rw [Slot.tokensIn, Slot.tokensIn, tokensAll_eq_flatMap, tokensAll_eq_flatMap]
    exact List.rel_flatMap h fun a b hab => hnode a b hab
  | tokens h => exact h.imp fun a b hab => htoken a b hab
  | separated h => exact forall₂_tokensBetween hnode htoken h.elements h.separators

theorem Slots.Match.forall₂_tokens (hnode : ∀ a b, onNode a b → List.Forall₂ R a.tokens b.tokens)
    (htoken : ∀ a b, onToken a b → R a b) {fields : List Field} {before after : Slots fields}
    (h : before.Match onNode (fun _ => onToken) after) :
    List.Forall₂ R before.tokens after.tokens := by
  induction h with
  | nil => exact .nil
  | cons hslot _ ih => exact List.rel_append (hslot.forall₂_tokens hnode htoken) ih

theorem forall_of_forall₂ {α : Type} {S : α → α → Prop} {q : α → Prop} {as bs : List α}
    (h : List.Forall₂ S as bs) (hq : ∀ a b, S a b → q b) : ∀ b ∈ bs, q b := by
  induction h with
  | nil => exact List.forall_mem_nil _
  | cons hab _ ih => exact List.forall_mem_cons.mpr ⟨hq _ _ hab, ih⟩

end Match

theorem Slot.Match.every_isStripped {shape : Shape} {before after : Slot shape}
    (h : before.Match (Node.Stripped p) (Token.Stripped p) after) :
    after.every (Request.isStripped p) true = true := by
  cases h with
  | node h => exact h.stripped
  | optNode h =>
    cases h with
    | none => rfl
    | some h => exact h.stripped
  | token h => exact h.stripped
  | optToken h =>
    cases h with
    | none => rfl
    | some h => exact h.stripped
  | nodes h => exact nodesEvery_iff.mpr (forall_of_forall₂ h fun _ _ h => h.stripped)
  | tokens h => exact tokensEvery_iff.mpr (forall_of_forall₂ h fun _ _ h => h.stripped)
  | separated h =>
    have helements := h.elements.length_eq
    have hseparators := h.separators.length_eq
    rw [List.length_take] at hseparators
    simp only [Slot.every, Request.isStripped, Request.isTrim, Request.isLeft, Bool.and_eq_true,
      Bool.and_true, decide_eq_true_eq]
    exact ⟨⟨by omega, nodesEvery_iff.mpr (forall_of_forall₂ h.elements fun _ _ h => h.stripped)⟩,
      tokensEvery_iff.mpr (forall_of_forall₂ h.separators fun _ _ h => h.stripped)⟩

theorem Slots.Match.every_isStripped {fields : List Field} {before after : Slots fields}
    (h : before.Match (Node.Stripped p) (fun _ => Token.Stripped p) after) :
    after.every (Request.isStripped p) true = true := by
  induction h with
  | nil => rfl
  | cons hslot _ ih =>
    rw [Slots.every, Bool.and_eq_true]
    exact ⟨hslot.every_isStripped, ih⟩

theorem Token.every_isStripped_of_trivia (token : Token)
    (h : ∀ trivia ∈ token.leading ++ token.trailing,
      trivia.every (Request.isStripped p) true = true) :
    token.every (Request.isStripped p) true = true := by
  cases token with
  | mk label kind text leading trailing =>
    obtain ⟨hleading, htrailing⟩ := List.forall_mem_append.mp h
    simp only [Token.every, Bool.and_eq_true]
    exact ⟨⟨rfl, rfl, triviasEvery_iff.mpr hleading⟩, rfl, triviasEvery_iff.mpr htrailing⟩

/-! ### One level at a time -/

namespace Reply

variable {reply : Reply}

theorem nodeResult_stripped {node : Node}
    (h : node.slots.Match (Node.Stripped p) (fun _ => Token.Stripped p)
      (reply.slotsResult node.slots)) :
    node.Stripped p (reply.nodeResult node) := by
  cases node with
  | mk info kind slots =>
    have hfresh : slots.same (reply.slotsResult slots) = true → reply.slotsResult slots = slots :=
      h.eq_of_same (fun _ _ h => h.fresh) fun _ _ _ h => h.fresh
    obtain ⟨after, hresult, hlabel⟩ := Reply.nodeResult_eq info hfresh
    rw [hresult]
    refine ⟨fun hsame => ?_, ?_, ?_⟩
    · rcases hlabel with hlabel | hlabel
      · simp [Node.same, Node.label, Node.info, hlabel] at hsame
      · exact hlabel
    · rw [Node.every, Bool.and_eq_true]
      exact ⟨rfl, h.every_isStripped⟩
    · exact h.forall₂_tokens (fun _ _ h => h.tokens) fun _ _ h => h.thinned

theorem tokenResult_stripped {token : Token}
    (hleading : TriviasStripped p token.leading (reply.result .trivias token.leading))
    (htrailing : TriviasStripped p token.trailing (reply.result .trivias token.trailing)) :
    token.Stripped p (reply.tokenResult token) := by
  have hthinned : ∀ after : Token, after.kind = token.kind → after.text = token.text →
      after.leading = reply.result .trivias token.leading →
      after.trailing = reply.result .trivias token.trailing →
      after.every (Request.isStripped p) true = true ∧ token.Thinned p after := by
    intro after hkind htext hl ht
    have hevery : ∀ trivia ∈ after.leading ++ after.trailing,
        trivia.every (Request.isStripped p) true = true := by
      rw [hl, ht]
      exact List.forall_mem_append.mpr
        ⟨forall_of_forall₂ hleading.each fun _ _ h => h.stripped,
          forall_of_forall₂ htrailing.each fun _ _ h => h.stripped⟩
    refine ⟨after.every_isStripped_of_trivia hevery, .mk hkind htext ?_ ?_⟩
    · rw [hl]
      exact hleading.each.imp fun _ _ h => h.thinned
    · rw [ht]
      exact htrailing.each.imp fun _ _ h => h.thinned
  rw [tokenResult]
  split
  · rename_i hsame
    rw [Bool.and_eq_true] at hsame
    obtain ⟨hstripped, hthin⟩ := hthinned token rfl rfl (hleading.fresh hsame.1).symm
      (htrailing.fresh hsame.2).symm
    exact ⟨fun _ => rfl, hstripped, hthin⟩
  · obtain ⟨hstripped, hthin⟩ := hthinned (.mk none token.kind token.text _ _) rfl rfl rfl rfl
    exact ⟨fun hsame => by simp [Token.same, Token.label] at hsame, hstripped, hthin⟩

theorem triviaResult_stripped {trivia : Trivia} (hp : p trivia.kind trivia.text = false)
    (h : ∀ request ∈ Part.requests true .trivia trivia, reply.Strips p request) :
    ∃ after, reply.triviaResult true trivia = some after ∧ trivia.Stripped p after := by
  cases trivia with
  | mk label kind text inner =>
    have hleft : (!p kind text) = true := by
      rw [Bool.not_eq_true']
      exact hp
    cases inner with
    | none => exact ⟨_, rfl, fun _ => rfl, hleft, .plain rfl rfl rfl rfl⟩
    | some inner =>
      have hmem :
          Request.node inner ∈ Part.requests true .trivia (.mk label kind text (some inner)) :=
        List.mem_cons_self
      obtain ⟨⟨-, result, hresult, hstripped⟩, -⟩ := h _ hmem
      simp only [Request.node] at hresult hstripped
      simp only [triviaResult, Trivia.inner, if_true, hresult, Option.map_some]
      refine ⟨_, rfl, ?_⟩
      split
      · rename_i hsame
        obtain rfl := hstripped.fresh hsame
        refine ⟨fun _ => rfl, ?_, .tree rfl rfl rfl rfl hstripped.tokens⟩
        simp only [Trivia.every, Bool.and_eq_true]
        exact ⟨hleft, hstripped.stripped⟩
      · refine ⟨fun hsame => ?_, ?_, .tree rfl rfl rfl rfl hstripped.tokens⟩
        · simp [Trivia.same, Trivia.withInner, Trivia.label] at hsame
        · simp only [Trivia.withInner, Trivia.every, Bool.and_eq_true]
          exact ⟨hleft, hstripped.stripped⟩

theorem triviasStripped_filterMap {f : Trivia → Option Trivia} {trivias : List Trivia}
    (h : ∀ trivia ∈ trivias, trivia.GoesTo p (f trivia)) :
    TriviasStripped p trivias (trivias.filterMap f) := by
  constructor
  · intro hsame
    have hkept : ∀ trivia ∈ trivias, f trivia = some trivia := by
      intro trivia ht
      have hany := sameAll_filterMap_iff.mp hsame trivia ht
      rcases h trivia ht with ⟨-, hnone⟩ | ⟨-, after, hsome, hstripped⟩
      · rw [hnone] at hany
        cases hany
      · rw [hsome, Option.any_some] at hany
        rw [hsome, hstripped.fresh hany]
    calc trivias.filterMap f = trivias.filterMap some := List.filterMap_congr hkept
      _ = trivias := List.filterMap_some
  · induction trivias with
    | nil => exact .nil
    | cons trivia rest ih =>
      obtain ⟨hfirst, hrest⟩ := List.forall_mem_cons.mp h
      rcases hfirst with ⟨hp, hnone⟩ | ⟨hp, after, hsome, hstripped⟩
      · rw [List.filter_cons_of_neg (by simp [hp]), List.filterMap_cons_none hnone]
        exact ih hrest
      · rw [List.filter_cons_of_pos (by simp [hp]), List.filterMap_cons_some hsome]
        exact .cons hstripped (ih hrest)

/-- A walk whose parts are all stripped strips the part, unless it should be removed. -/
theorem walk_strips {part : Part} {value : part.Value}
    (hwalked : Takeover.stripping p part value = none)
    (h : ∀ request ∈ part.requests true value, reply.Strips p request) :
    (reply.walk true).Strips p ⟨part, value⟩ := by
  have hmatch : ∀ request ∈ part.requests true value,
      reply.Matches (Node.Stripped p) (Token.Stripped p) request :=
    fun request hr => (h request hr).1
  cases part with
  | node =>
    obtain ⟨hfaults, hslots⟩ := slots_match (Node.kind value) (Node.slots value) hmatch
    exact ⟨⟨hfaults, _, rfl, nodeResult_stripped hslots⟩, trivial⟩
  | token =>
    have hleading := (h _ List.mem_cons_self).2
    have htrailing := (h _ (List.mem_cons_of_mem _ List.mem_cons_self)).2
    exact ⟨⟨faultsIn_matches hmatch, _, rfl, tokenResult_stripped hleading htrailing⟩, trivial⟩
  | trivia =>
    have hp := stripping_trivia_eq_none_iff.mp hwalked
    exact ⟨walk_matches (by simp) (by simp) hmatch, .inr ⟨hp, triviaResult_stripped hp h⟩⟩
  | trivias =>
    refine ⟨walk_matches (by simp) (by simp) hmatch, triviasStripped_filterMap fun trivia ht => ?_⟩
    exact (h _ (List.mem_map_of_mem ht)).2
  | nodes | separated | tokens => exact ⟨walk_matches (by simp) (by simp) hmatch, trivial⟩

end Reply

/-! ### Labels make no difference to a test -/

section Bare

/-- A test that looks at no labels and no metadata. -/
def IgnoresLabels (test : Request → Bool) : Prop :=
  ∀ (part : Part) (value : part.Value), test ⟨part, part.bare value⟩ = test ⟨part, value⟩

variable {test : Request → Bool} {structured : Bool}

mutual

theorem Node.every_bare (htest : IgnoresLabels test) : (node : Node) →
    node.bare.every test structured = node.every test structured
  | .mk info kind slots => by
    rw [Node.bare, Node.every, Node.every, Slots.every_bare htest slots]
    exact congrArg (· && _) (htest .node (.mk info kind slots))

theorem Slots.every_bare (htest : IgnoresLabels test) : {fields : List Field} →
    (slots : Slots fields) → slots.bare.every test structured = slots.every test structured
  | _, .nil => rfl
  | _, .cons slot rest => by
    rw [Slots.bare, Slots.every, Slots.every, Slot.every_bare htest slot,
      Slots.every_bare htest rest]

theorem Slot.every_bare (htest : IgnoresLabels test) : {shape : Shape} → (slot : Slot shape) →
    slot.bare.every test structured = slot.every test structured
  | _, .node child => Node.every_bare htest child
  | _, .optNode none => rfl
  | _, .optNode (some child) => Node.every_bare htest child
  | _, .token child => Token.every_bare htest child
  | _, .optToken none => rfl
  | _, .optToken (some child) => Token.every_bare htest child
  | _, .nodes children => by
    rw [Slot.bare, Slot.every, Slot.every, nodesEvery_bare htest children]
    exact congrArg (· && _) (htest .nodes children)
  | _, .tokens children => by
    rw [Slot.bare, Slot.every, Slot.every, tokensEvery_bare htest children]
    exact congrArg (· && _) (htest .tokens children)
  | _, .separated ⟨elements, separators⟩ => by
    rw [Slot.bare, Slot.every, Slot.every, nodesEvery_bare htest elements,
      tokensEvery_bare htest separators]
    exact congrArg (· && _ && _) (htest .separated ⟨elements, separators⟩)

theorem nodesEvery_bare (htest : IgnoresLabels test) : (nodes : List Node) →
    nodesEvery test structured (bareNodes nodes) = nodesEvery test structured nodes
  | [] => rfl
  | node :: rest => by
    rw [bareNodes, nodesEvery, nodesEvery, Node.every_bare htest node, nodesEvery_bare htest rest]

theorem Token.every_bare (htest : IgnoresLabels test) : (token : Token) →
    token.bare.every test structured = token.every test structured
  | .mk label kind text leading trailing => by
    rw [Token.bare, Token.every, Token.every, triviasEvery_bare htest leading,
      triviasEvery_bare htest trailing]
    have htoken := htest .token (.mk label kind text leading trailing)
    have hleading := htest .trivias leading
    have htrailing := htest .trivias trailing
    simp only [Part.bare, Token.bare] at htoken hleading htrailing
    rw [Request.token, htoken, hleading, htrailing]
    rfl

theorem tokensEvery_bare (htest : IgnoresLabels test) : (tokens : List Token) →
    tokensEvery test structured (bareTokens tokens) = tokensEvery test structured tokens
  | [] => rfl
  | token :: rest => by
    rw [bareTokens, tokensEvery, tokensEvery, Token.every_bare htest token,
      tokensEvery_bare htest rest]

theorem Trivia.every_bare (htest : IgnoresLabels test) : (trivia : Trivia) →
    trivia.bare.every test structured = trivia.every test structured
  | .mk label kind text none => htest .trivia (.mk label kind text none)
  | .mk label kind text (some inner) => by
    rw [Trivia.bare, Trivia.every, Trivia.every, Node.every_bare htest inner]
    exact congrArg (· && _) (htest .trivia (.mk label kind text (some inner)))

theorem triviasEvery_bare (htest : IgnoresLabels test) : (trivias : List Trivia) →
    triviasEvery test structured (bareTrivia trivias) = triviasEvery test structured trivias
  | [] => rfl
  | trivia :: rest => by
    rw [bareTrivia, triviasEvery, triviasEvery, Trivia.every_bare htest trivia,
      triviasEvery_bare htest rest]

end

end Bare

/-! ### Whole trees -/

theorem stripping_strips (request : Request) :
    ((Takeover.stripping p).reply true).Strips p request := by
  induction request using Request.induction true with
  | step part value ih =>
    cases ht : Takeover.stripping p part value with
    | none =>
      have hwalk := Reply.walk_strips ht ih
      rw [Reply.Strips, Reply.Matches, Takeover.faults_of_none ht, Takeover.result_of_none ht]
      exact hwalk
    | some result =>
      cases part with
      | trivia =>
        have hp : p (Trivia.kind value) (Trivia.text value) = true := by
          by_contra hp
          rw [stripping_trivia_eq_none_iff.mpr (Bool.eq_false_iff.mpr hp)] at ht
          cases ht
        obtain rfl : result = none := by
          simp only [Takeover.stripping, hp, if_true] at ht
          exact (Option.some.inj ht).symm
        exact ⟨⟨Takeover.faults_of_some ht, trivial⟩, .inl ⟨hp, Takeover.result_of_some ht⟩⟩
      | node | token | nodes | separated | tokens | trivias => cases ht

/-- What is stripped already is given back. -/
theorem stripping_keeps {request : Request} (hlabels : request.every Request.isLabelled true = true)
    (h : request.every (Request.isStripped p) true = true) :
    ((Takeover.stripping p).reply true).keeps request := by
  induction request using Request.induction true with
  | step part value ih =>
    obtain ⟨htrim, hleft⟩ := Bool.and_eq_true_iff.mp (Request.test_of_every h)
    have hwalked : Takeover.stripping p part value = none := by
      cases part with
      | trivia =>
        rw [stripping_trivia_eq_none_iff]
        exact (Bool.not_eq_true' _).mp hleft
      | node | token | nodes | separated | tokens | trivias => rfl
    have hfaults : (((Takeover.stripping p).reply true).walk true).faults part value = [] := by
      rw [← Takeover.faults_of_none hwalked]
      exact (stripping_strips ⟨part, value⟩).1.1
    rw [Reply.keeps, Takeover.result_of_none hwalked]
    refine (Reply.keeps_walk_iff (Request.test_of_every hlabels) hfaults).mpr ⟨htrim, ?_⟩
    intro request hr
    exact ih request hr (Request.every_of_mem_requests id hlabels hr)
      (Request.every_of_mem_requests id h hr)

theorem transform_triviaStripper_of_result {tree result : Node}
    (hresult : ((Takeover.stripping p).reply true).result .node tree = some result) {fuel : Nat}
    (enough : tree.fuel ≤ fuel) (state : σ) :
    (triviaStripper p).transform fuel tree state = .done result state := by
  have hdecides : (triviaStripper p : Traversal σ).Decides (.stripping p) := stripping_decides
  have hfaults : ((Takeover.stripping p).reply true).faults .node tree = [] :=
    (stripping_strips (.node tree)).1.1
  have hstructured : (triviaStripper p : Traversal σ).structured = true := rfl
  rw [Traversal.transform_eq_reply hdecides tree enough, hstructured, hfaults, hresult]
  rfl

theorem ignoresLabels_isStripped : IgnoresLabels (Request.isStripped p) := by
  intro part value
  cases part with
  | trivia =>
    simp only [Request.isStripped, Request.isTrim, Request.isLeft, Part.bare]
    rw [Trivia.bare_eq]
    rfl
  | separated =>
    simp only [Request.isStripped, Request.isTrim, Part.bare, bareNodes_eq_map, bareTokens_eq_map,
      List.length_map]
    rfl
  | node | token | nodes | tokens | trivias => rfl

/-- A tree with nothing to remove comes back as the object that it is. -/
theorem result_of_stripped {tree : Node} (hlabels : tree.hasLabels = true)
    (h : tree.every (Request.isStripped p) true = true) :
    ((Takeover.stripping p).reply true).result .node tree = some tree := by
  have hkeeps : ((Takeover.stripping p).reply true).keeps (.node tree) := stripping_keeps hlabels h
  obtain ⟨⟨-, result, hresult, hstripped⟩, -⟩ :
    ((Takeover.stripping p).reply true).Strips p (.node tree) := stripping_strips (.node tree)
  simp only [Request.node] at hresult hstripped
  simp only [Reply.keeps, Request.node, Part.same, hresult, Option.any_some] at hkeeps
  rw [hresult, hstripped.fresh hkeeps]

/-- Stripping transforms every tree. No trivia that satisfy `p` are left at any depth, each token
keeps its kind, its text and the order of the trivia that stay, and what comes out is given back as
it is by a second run, once its objects have labels. -/
theorem transform_triviaStripper (p : TriviaKind → String → Bool) (tree : Node) :
    ∃ result, (∀ fuel, tree.fuel ≤ fuel → ∀ state : σ,
        (triviaStripper p).transform fuel tree state = .done result state) ∧
      result.lacks p = true ∧
      List.Forall₂ (Token.Thinned p) tree.tokens result.tokens ∧
      ∀ again : Node, again.equal result = true → again.hasLabels = true →
        ∀ fuel, again.fuel ≤ fuel → ∀ state : σ,
          (triviaStripper p).transform fuel again state = .done again state := by
  obtain ⟨⟨-, result, hresult, hstripped⟩, -⟩ :
    ((Takeover.stripping p).reply true).Strips p (.node tree) := stripping_strips (.node tree)
  refine ⟨result, ?_, ?_, hstripped.tokens, ?_⟩
  · intro fuel enough state
    exact transform_triviaStripper_of_result hresult enough state
  · have hevery : (Request.node result).every (Request.isStripped p) true = true :=
      hstripped.stripped
    exact Request.every_imp (fun _ => Bool.and_eq_true_iff.mp) hevery
  · intro again hequal hlabels fuel enough state
    have hagain : again.every (Request.isStripped p) true = true := by
      rw [← Node.every_bare ignoresLabels_isStripped, (Node.equal_iff again result).mp hequal,
        Node.every_bare ignoresLabels_isStripped, hstripped.stripped]
    exact transform_triviaStripper_of_result (result_of_stripped hlabels hagain) enough state

/-- The name `y` behind the name `x` in its documentation, with a blank in front of both. -/
def spacedNames : Node :=
  let blank : Trivia := .ofText .whitespace " "
  let mention : Node := .identifierName (.mk none .identifier "x" [blank] [])
  .identifierName (.mk none .identifier "y" [.ofTree .documentationComment mention, blank] [])

/-- Both blanks go, and a copy with labels of what is left comes back as it is. -/
theorem transform_triviaStripper_spacedNames :
    spacedNames.text = " x y" ∧
    ∃ result, (triviaStripper fun kind _ => kind == .whitespace).transform spacedNames.fuel
        spacedNames () = .done result () ∧
      result.text = "xy" ∧ result.lacks (fun kind _ => kind == .whitespace) = true ∧
      (result.labelFrom 0).1.hasLabels = true ∧
      (triviaStripper fun kind _ => kind == .whitespace).transform (result.labelFrom 0).1.fuel
        (result.labelFrom 0).1 () = .done (result.labelFrom 0).1 () := by
  obtain ⟨result, hdone, hlacks, -, hagain⟩ :=
    transform_triviaStripper (fun kind _ => kind == .whitespace) spacedNames
  have hrun := hdone spacedNames.fuel (Nat.le_refl _) ()
  have hfacts : ((triviaStripper fun kind _ => kind == .whitespace).transform spacedNames.fuel
      spacedNames ()).value?.all (fun result => result.text = "xy" ∧
        (result.labelFrom 0).1.hasLabels = true ∧ (result.labelFrom 0).1.equal result = true) =
      true := by
    decide
  rw [hrun, Outcome.value?, Option.all_some, decide_eq_true_iff] at hfacts
  obtain ⟨htext, hlabels, hequal⟩ := hfacts
  exact ⟨by decide, result, hrun, htext, hlacks, hlabels,
    hagain _ hequal hlabels _ (Nat.le_refl _) ()⟩

end SourceTree
