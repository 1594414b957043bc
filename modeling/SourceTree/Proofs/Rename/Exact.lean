import SourceTree.Form
import SourceTree.Rename
import SourceTree.View
import SourceTree.Proofs.Identity
import SourceTree.Proofs.Traversal.Kept

/-!
Renaming tokens, object by object. A token that is renamed keeps its kind and the very trivia
that it had; all others keep their text and are renamed inside their trivia. Whatever holds no
token to be renamed comes back as the same object, and nothing else does.
-/
namespace SourceTree

variable {σ : Type}

/-! ### Tokens to be renamed -/

section Hits

variable (p : Token → Bool)

/-- The part as a token to be renamed. -/
def Request.hit? : Request → Option Token
  | ⟨.token, token⟩ => if p token then some token else none
  | _ => none

/-- The tokens to be renamed in a part, in document order. A token that is renamed hides those
in its trivia. -/
@[semireducible] def Request.hits (request : Request) : List Token :=
  match request.hit? p with
  | some token => [token]
  | none => (request.part.requests true request.value).attach.flatMap fun smaller =>
    smaller.1.hits
termination_by request.depth
decreasing_by exact Part.depth_requests smaller.2

def Node.hits (node : Node) : List Token := (Request.node node).hits p

variable {p}

theorem Request.hits_of_hit {token : Token} (h : p token = true) :
    Request.hits p ⟨.token, token⟩ = [token] := by
  rw [Request.hits, Request.hit?, if_pos h]

theorem Request.hits_of_miss {part : Part} {value : part.Value}
    (h : Request.hit? p ⟨part, value⟩ = none) :
    Request.hits p ⟨part, value⟩ = (part.requests true value).flatMap (Request.hits p) := by
  rw [Request.hits, h]
  conv_rhs => rw [← List.attach_map_subtype_val (part.requests true value), List.flatMap_map]

end Hits

/-- Renames the tokens that satisfy a predicate, and walks everything else. -/
def Takeover.renaming (p : Token → Bool) (text : String) : Takeover
  | .token, token => if p token then some (some (Token.withText token text)) else none
  | _, _ => none

section Renaming

variable {p : Token → Bool} {text : String}

theorem renaming_token_eq_none_iff {token : Token} :
    Takeover.renaming p text .token token = none ↔ p token = false := by
  simp [Takeover.renaming]

theorem renaming_decides :
    (tokenRenamer (fun token => if p token then some text else none) : Traversal σ).Decides
      (.renaming p text) where
  taken part value result ht := by
    cases part with
    | token =>
      refine ⟨_, rfl, ?_⟩
      by_cases hp : p value = true
      · simp only [Takeover.renaming, hp, if_true] at ht ⊢
        cases ht
        rfl
      · simp [Takeover.renaming, hp] at ht
    | node | trivia | nodes | separated | tokens | trivias => cases ht
  walked part value ht hook hhook := by
    cases part with
    | token =>
      obtain rfl : _ = hook := Option.some.inj hhook
      simp [renaming_token_eq_none_iff.mp ht]
    | node | trivia | nodes | separated | tokens | trivias => cases hhook

theorem Request.hits_of_walked {part : Part} {value : part.Value}
    (h : Takeover.renaming p text part value = none) :
    Request.hits p ⟨part, value⟩ = (part.requests true value).flatMap (Request.hits p) := by
  apply Request.hits_of_miss
  cases part with
  | token => simp [Request.hit?, renaming_token_eq_none_iff.mp h]
  | node | trivia | nodes | separated | tokens | trivias => rfl

/-- What holds of renamed tokens holds of all that a renaming decides on. -/
theorem renaming_taken {R : Part.Relation}
    (hit : ∀ token : Token, p token = true → R .token token (token.withText text)) (part : Part)
    (value : part.Value) (result : part.Result)
    (h : Takeover.renaming p text part value = some result) :
    ∃ after, result = part.unchanged after ∧ R part value after := by
  cases part with
  | token =>
    by_cases hp : p value = true
    · simp only [Takeover.renaming, hp, if_true] at h
      cases h
      exact ⟨Token.withText value text, rfl, hit value hp⟩
    · simp [Takeover.renaming, hp] at h
  | node | trivia | nodes | separated | tokens | trivias => cases h

@[simp] theorem Token.same_withText (token : Token) (text : String) :
    token.same (token.withText text) = false := by
  simp [Token.same, Token.withText, Token.label]

theorem Token.fresh_withText (token : Token) (text : String) :
    Part.Fresh .token token (token.withText text) := by
  intro hsame
  simp [Part.same, Part.unchanged] at hsame

variable (p text) in
/-- Renaming meets no fault, and removes nothing. -/
theorem renaming_makes_fresh (request : Request) :
    ((Takeover.renaming p text).reply true).Makes Part.Fresh request := by
  apply Takeover.makes (Q := fun _ => True)
  · intro part value _ request _
    trivial
  · intro part before after h
    exact h
  · exact renaming_taken fun token _ => token.fresh_withText text
  · intro part value after _ _ _ _ _ hfresh
    exact hfresh
  · trivial

/-- Where everything has a label and no separator is surplus, the parts that come back as the
same object are those without a token to be renamed. -/
theorem renaming_keeps_iff {request : Request}
    (hlabels : request.every Request.isLabelled true = true)
    (htrim : request.every Request.isTrim true = true) :
    ((Takeover.renaming p text).reply true).keeps request ↔ request.hits p = [] := by
  induction request using Request.induction true with
  | step part value ih =>
    cases ht : Takeover.renaming p text part value with
    | some result =>
      have hchanged : ∃ after, result = part.unchanged after ∧
          part.same value (part.unchanged after) = false ∧ Request.hits p ⟨part, value⟩ ≠ [] := by
        refine renaming_taken (R := fun part before after =>
          part.same before (part.unchanged after) = false ∧ Request.hits p ⟨part, before⟩ ≠ [])
          (fun token hp => ⟨?_, ?_⟩) part value result ht
        · simp [Part.same, Part.unchanged]
        · simp [Request.hits_of_hit hp]
      obtain ⟨after, rfl, hother, hhits⟩ := hchanged
      rw [Reply.keeps, Takeover.result_of_some ht]
      simp [hother, hhits]
    | none =>
      -- a part that is walked is kept just when its smaller parts are
      have hfaults : (((Takeover.renaming p text).reply true).walk true).faults part value = [] :=
        (Takeover.faults_of_none ht).symm.trans (renaming_makes_fresh p text ⟨part, value⟩).1
      have hbelow : ∀ request ∈ part.requests true value,
          (((Takeover.renaming p text).reply true).keeps request ↔ request.hits p = []) :=
        fun request hr => ih request hr (Request.every_of_mem_requests id hlabels hr)
          (Request.every_of_mem_requests id htrim hr)
      have hwalk := Reply.keeps_walk_iff (Request.test_of_every hlabels) hfaults
      rw [Reply.keeps, Takeover.result_of_none ht, Request.hits_of_walked ht,
        List.flatMap_eq_nil_iff]
      refine hwalk.trans ⟨fun h request hr => (hbelow request hr).mp (h.2 request hr), fun h => ?_⟩
      exact ⟨Request.test_of_every htrim, fun request hr => (hbelow request hr).mpr (h request hr)⟩

/-! ### The renamed tree -/

/-- A part is the same object as before exactly if it has no token to be renamed. -/
structure Part.Shares (p : Token → Bool) (part : Part) (before after : part.Value) : Prop where
  fresh : part.Fresh before after
  same_iff : Request.every Request.isLabelled true ⟨part, before⟩ = true →
    (part.same before (part.unchanged after) = true ↔ Request.hits p ⟨part, before⟩ = [])

/-- What renaming makes of a part. Tokens that satisfy `p` get the new text, with kind and trivia
as they were. Everything else has the same form, with smaller parts that are renamed. -/
inductive Part.Renamed (p : Token → Bool) (text : String) :
    (part : Part) → part.Value → part.Value → Prop where
  | hit {token : Token} (h : p token = true) : Renamed p text .token token (token.withText text)
  | token {before after : Token} (h : p before = false) (kind_eq : after.kind = before.kind)
      (text_eq : after.text = before.text)
      (leading : Renamed p text .trivias before.leading after.leading)
      (trailing : Renamed p text .trivias before.trailing after.trailing)
      (shares : Part.Shares p .token before after) : Renamed p text .token before after
  | trivia {before after : Trivia} (kind_eq : after.kind = before.kind)
      (text_eq : after.text = before.text)
      (inner : Option.Rel (Renamed p text .node) before.inner after.inner)
      (shares : Part.Shares p .trivia before after) : Renamed p text .trivia before after
  | node {before after : Node} (h : before.Rebuilt (Renamed p text) after)
      (shares : Part.Shares p .node before after) : Renamed p text .node before after
  | nodes {before after : List Node} (h : List.Forall₂ (Renamed p text .node) before after) :
      Renamed p text .nodes before after
  | tokens {before after : List Token} (h : List.Forall₂ (Renamed p text .token) before after) :
      Renamed p text .tokens before after
  | trivias {before after : List Trivia} (h : List.Forall₂ (Renamed p text .trivia) before after) :
      Renamed p text .trivias before after
  | separated {before after : Separated Node Token}
      (elements : List.Forall₂ (Renamed p text .node) before.elements after.elements)
      (separators : List.Forall₂ (Renamed p text .token) before.separators after.separators) :
      Renamed p text .separated before after

namespace Part.Renamed

theorem fresh_node {before after : Node} (h : Part.Renamed p text .node before after)
    (hsame : before.same after = true) : after = before := by
  cases h with
  | node _ shares => exact shares.fresh hsame

theorem fresh_token {before after : Token} (h : Part.Renamed p text .token before after)
    (hsame : before.same after = true) : after = before := by
  cases h with
  | hit => simp at hsame
  | token _ _ _ _ _ shares => exact shares.fresh hsame

theorem fresh_trivia {before after : Trivia} (h : Part.Renamed p text .trivia before after)
    (hsame : before.same after = true) : after = before := by
  cases h with
  | trivia _ _ _ shares => exact shares.fresh hsame

theorem fresh (part : Part) (before after : part.Value) (h : part.Renamed p text before after) :
    part.Fresh before after := by
  cases h with
  | hit => exact Token.fresh_withText _ _
  | token _ _ _ _ _ shares => exact shares.fresh
  | trivia _ _ _ shares => exact shares.fresh
  | node _ shares => exact shares.fresh
  | nodes h => exact eq_of_sameAll (fun _ _ => fresh_node) h
  | tokens h => exact eq_of_sameAll (fun _ _ => fresh_token) h
  | trivias h => exact eq_of_sameAll (fun _ _ => fresh_trivia) h
  | @separated before after elements separators =>
    intro hsame
    simp only [Part.same, Part.unchanged, Bool.and_eq_true] at hsame
    have helements := eq_of_sameAll (fun _ _ => fresh_node) elements hsame.1
    have hseparators := eq_of_sameAll (fun _ _ => fresh_token) separators hsame.2
    cases before
    cases after
    simp only at helements hseparators
    rw [helements, hseparators]

/-- A part that is walked, from its smaller parts. -/
theorem of_rebuilt {part : Part} {before after : part.Value}
    (h : part.Rebuilt (Part.Renamed p text) true before after)
    (hwalked : Takeover.renaming p text part before = none)
    (htrim : Request.isTrim ⟨part, before⟩ = true) (shares : part.Shares p before after) :
    part.Renamed p text before after := by
  cases part with
  | node => exact .node h shares
  | token =>
    exact .token (renaming_token_eq_none_iff.mp hwalked) h.kind h.text h.leading h.trailing shares
  | trivia => exact .trivia h.kind h.text (h.entered rfl) shares
  | nodes => exact .nodes h
  | tokens => exact .tokens h
  | trivias => exact .trivias h
  | separated =>
    have hseparators := h.separators
    rw [List.take_of_length_le (of_decide_eq_true htrim)] at hseparators
    exact .separated h.elements hseparators

end Part.Renamed

/-- Every part without surplus separators is renamed. -/
theorem renaming_makes_renamed {request : Request}
    (htrim : request.every Request.isTrim true = true) :
    ((Takeover.renaming p text).reply true).Makes (Part.Renamed p text) request := by
  apply Takeover.makes (Q := fun request => request.every Request.isTrim true = true)
  · intro part value h request hr
    exact Request.every_of_mem_requests id h hr
  · exact Part.Renamed.fresh
  · exact renaming_taken fun token hp => .hit hp
  · intro part value after h ht hresult _ hrebuilt hfresh
    refine .of_rebuilt hrebuilt ht (Request.test_of_every h) ⟨hfresh, fun hlabels => ?_⟩
    have hkeeps : ((Takeover.renaming p text).reply true).keeps ⟨part, value⟩ ↔ _ :=
      renaming_keeps_iff hlabels h
    rw [Reply.keeps, hresult] at hkeeps
    exact hkeeps
  · exact htrim

/-- In a tree in which no separator is surplus, renaming gives the new text to just the tokens
that satisfy `p`, and shares with the old tree whatever has none of them. -/
theorem renameTokens_renamed (p : Token → Bool) (text : String) {tree : Node}
    (htrim : tree.isTrim true = true) :
    ∃ result, tree.renameTokens p text = .done result () ∧
      Part.Renamed p text .node tree result :=
  renaming_decides.transform_makes (renaming_makes_renamed htrim) (Nat.le_refl _) ()

def Token.hasText (text : String) (token : Token) : Bool := token.text == text

/-- The name `text`, with a comment in front of it that mentions `x`. -/
def mentioningX (text : String) : Node :=
  .identifierName (.mk none .identifier text
    [.ofTree .documentationComment (.identifierName (.ofText .identifier "x"))] [])

/-- The names `x`, `z` and `w`; the first two have a comment that mentions `x`. -/
def mentions : Node :=
  (Node.labelFrom (.argumentList (.ofText .punctuation "(")
    ⟨[mentioningX "x", mentioningX "z", .identifierName (.ofText .identifier "w")],
      [.ofText .punctuation ",", .ofText .punctuation ","]⟩
    (.ofText .punctuation ")")) 0).1

/-- The comment of `x` stays, and that of `z` is renamed. Of the four nodes outside comments only
the name `w` is the same object as before. -/
theorem renameTokens_mentions :
    mentions.isTrim true = true ∧ mentions.hasLabels = true ∧
    (mentions.hits (Token.hasText "x")).map Token.fullText = ["xx", "x"] ∧
    ∃ result, mentions.renameTokens (Token.hasText "x") "y" = .done result () ∧
      Part.Renamed (Token.hasText "x") "y" .node mentions result ∧
      result.text = "(xy,yz,w)" ∧
      List.zipWith Node.same mentions.preorder result.preorder = [false, false, false, true] := by
  have htrim : mentions.isTrim true = true := by decide
  have hrun : (mentions.renameTokens (Token.hasText "x") "y").value?.map
      (fun result => (result.text, List.zipWith Node.same mentions.preorder result.preorder)) =
        some ("(xy,yz,w)", [false, false, false, true]) := by decide
  obtain ⟨result, hdone, hrenamed⟩ := renameTokens_renamed (Token.hasText "x") "y" htrim
  rw [hdone] at hrun
  obtain ⟨htext, hshared⟩ := Prod.mk.inj (Option.some.inj hrun)
  exact ⟨htrim, Node.hasLabels_labelFrom _ _, by decide, result, hdone, hrenamed, htext, hshared⟩

end Renaming

end SourceTree
