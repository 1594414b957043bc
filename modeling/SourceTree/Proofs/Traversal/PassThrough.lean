import SourceTree.Form
import SourceTree.Proofs.Identity
import SourceTree.Proofs.Traversal.Sharing
import SourceTree.Proofs.Traversal.Takeover
import SourceTree.Proofs.View

/-!
Traversals that change nothing. Wherever hooks stand, if each of them only asks for the walk
of its part, a tree is transformed into one with the same text; and into the same object
exactly when no separated list has surplus separators, since those are dropped.
-/
namespace SourceTree

variable {σ : Type}

/-! ### Texts -/

/-- Items that all stay and look as before give a list that looks as before. -/
theorem map_filterMap_of_kept {α β : Type} {f : α → Option α} {view : α → β} {as : List α}
    (h : ∀ a ∈ as, ∃ b, f a = some b ∧ view b = view a) :
    (as.filterMap f).map view = as.map view := by
  induction as with
  | nil => rfl
  | cons a as ih =>
    obtain ⟨b, hb, hview⟩ := h a List.mem_cons_self
    rw [List.filterMap_cons_some hb, List.map_cons, List.map_cons, hview,
      ih fun other ho => h other (List.mem_cons_of_mem _ ho)]

/-- The result of a visit is there and reads as the part does. -/
def Part.TextKept : (part : Part) → part.Value → part.Result → Prop
  | .node, value, result => ∃ node, result = some node ∧ node.text = Node.text value
  | .token, value, result => ∃ token, result = some token ∧ token.fullText = Token.fullText value
  | .trivia, value, result =>
    ∃ trivia, result = some trivia ∧ trivia.fullText = Trivia.fullText value
  | .nodes, value, result => List.map Node.text result = List.map Node.text value
  | .separated, value, result =>
    Separated.weave (List.map Node.text (Separated.elements result))
        (List.map Token.fullText (Separated.separators result)) =
      Separated.weave (List.map Node.text (Separated.elements value))
        (List.map Token.fullText (Separated.separators value))
  | .tokens, value, result => List.map Token.fullText result = List.map Token.fullText value
  | .trivias, value, result => List.map Trivia.fullText result = List.map Trivia.fullText value

namespace Reply

/-- The visit of a part meets no fault and keeps its text. -/
def Faithful (reply : Reply) (request : Request) : Prop :=
  reply.faults request.part request.value = [] ∧
    request.part.TextKept request.value (reply.result request.part request.value)

variable {reply : Reply}

theorem faultsIn_faithful {requests : List Request}
    (h : ∀ request ∈ requests, reply.Faithful request) : reply.faultsIn requests = [] :=
  faultsIn_eq_nil fun request hr => (h request hr).1

theorem slot_faithful (parent : Kind) (name : String) {shape : Shape} (slot : Slot shape)
    (h : ∀ request ∈ slot.requests, reply.Faithful request) :
    reply.missing parent name slot = [] ∧ (reply.slotResult slot).text = slot.text := by
  cases slot with
  | node child =>
    obtain ⟨-, result, hr, htext⟩ := h (.node child) List.mem_cons_self
    simp only [Request.node] at hr htext
    simp [missing, slotResult, Slot.text, hr, htext]
  | optNode child =>
    cases child with
    | none => exact ⟨rfl, rfl⟩
    | some child =>
      obtain ⟨-, result, hr, htext⟩ := h (.node child) List.mem_cons_self
      simp only [Request.node] at hr htext
      simp [missing, slotResult, Slot.text, hr, htext]
  | token child =>
    obtain ⟨-, result, hr, htext⟩ := h (.token child) List.mem_cons_self
    simp only [Request.token] at hr htext
    simp [missing, slotResult, Slot.text, hr, htext]
  | optToken child =>
    cases child with
    | none => exact ⟨rfl, rfl⟩
    | some child =>
      obtain ⟨-, result, hr, htext⟩ := h (.token child) List.mem_cons_self
      simp only [Request.token] at hr htext
      simp [missing, slotResult, Slot.text, hr, htext]
  | nodes children =>
    have htext : List.map Node.text (reply.result .nodes children) = List.map Node.text children :=
      (h _ List.mem_cons_self).2
    simp [missing, slotResult, Slot.text, nodeTexts_eq_map, htext]
  | tokens children =>
    have htext : List.map Token.fullText (reply.result .tokens children) =
        List.map Token.fullText children := (h _ List.mem_cons_self).2
    simp [missing, slotResult, Slot.text, tokenTexts_eq_map, htext]
  | separated children =>
    have htext : Part.TextKept .separated children (reply.result .separated children) :=
      (h _ List.mem_cons_self).2
    simp only [Part.TextKept] at htext
    simp [missing, slotResult, Slot.text, nodeTexts_eq_map, tokenTexts_eq_map, htext]

theorem slots_faithful (parent : Kind) : {fields : List Field} → (slots : Slots fields) →
    (∀ request ∈ slots.requests, reply.Faithful request) →
    reply.slotsFaults parent slots = [] ∧ (reply.slotsResult slots).text = slots.text
  | _, .nil, _ => ⟨rfl, rfl⟩
  | field :: _, .cons slot rest, h => by
    have hslot : ∀ request ∈ slot.requests, reply.Faithful request :=
      fun request hr => h request (List.mem_append_left _ hr)
    obtain ⟨hmissing, htext⟩ := slot_faithful parent field.name slot hslot
    obtain ⟨hfaults, hrest⟩ :=
      slots_faithful parent rest fun request hr => h request (List.mem_append_right _ hr)
    constructor
    · rw [slotsFaults, faultsIn_faithful hslot, hmissing, hfaults]
      rfl
    · rw [slotsResult, Slots.text, Slots.text, htext, hrest]

theorem separatedResult_textKept {list : Separated Node Token}
    (h : ∀ request ∈ pairRequests list.elements list.separators, reply.Faithful request) :
    Part.TextKept .separated list (reply.separatedResult list) := by
  obtain ⟨hes, hss⟩ := mem_pairRequests_take list.elements list.separators
  have helements : ∀ element ∈ list.elements,
      ∃ node, reply.result .node element = some node ∧ node.text = element.text :=
    fun element he => (h _ (hes element he)).2
  have hseparators : ∀ separator ∈ list.separators.take list.elements.length,
      ∃ token, reply.result .token separator = some token ∧ token.fullText = separator.fullText :=
    fun separator hs => (h _ (hss separator hs)).2
  have hpresent : ∀ element ∈ list.elements, (reply.result .node element).isSome = true := by
    intro element he
    obtain ⟨node, hn, -⟩ := helements element he
    simp [hn]
  simp only [Part.TextKept]
  rw [elements_separatedResult, separators_separatedResult hpresent,
    map_filterMap_of_kept helements, map_filterMap_of_kept hseparators, List.map_take]
  have hw := Separated.weave_take (list.elements.map Node.text) (list.separators.map Token.fullText)
  rwa [List.length_map] at hw

theorem nodeResult_text {node : Node} (h : (reply.slotsResult node.slots).text = node.slots.text) :
    (reply.nodeResult node).text = node.text := by
  cases node with
  | mk info kind slots =>
    rw [nodeResult]
    split
    · rfl
    · exact h

theorem tokenResult_fullText {token : Token}
    (hl : (reply.result .trivias token.leading).map Trivia.fullText =
      token.leading.map Trivia.fullText)
    (ht : (reply.result .trivias token.trailing).map Trivia.fullText =
      token.trailing.map Trivia.fullText) :
    (reply.tokenResult token).fullText = token.fullText := by
  cases token with
  | mk label kind text leading trailing =>
    rw [tokenResult]
    split
    · rfl
    · simp only [Token.leading, Token.trailing] at hl ht
      simp [Token.fullText, triviaTexts_eq_map, hl, ht, Token.leading, Token.trailing, Token.text]

theorem triviaResult_textKept {structured : Bool} {trivia : Trivia}
    (h : ∀ request ∈ Part.requests structured .trivia trivia, reply.Faithful request) :
    Part.TextKept .trivia trivia (reply.triviaResult structured trivia) := by
  simp only [Part.TextKept, triviaResult]
  cases hi : trivia.inner with
  | none => exact ⟨trivia, rfl, rfl⟩
  | some inner =>
    cases structured with
    | false => exact ⟨trivia, rfl, rfl⟩
    | true =>
      have hmem : Request.node inner ∈ Part.requests true .trivia trivia := by
        simp [Part.requests, hi]
      obtain ⟨-, result, hr, htext⟩ := h _ hmem
      simp only [Request.node] at hr htext
      simp only [if_true, hr, Option.map_some]
      refine ⟨_, rfl, ?_⟩
      cases trivia with
      | mk label kind text tree =>
        obtain rfl : tree = some inner := hi
        split
        · rfl
        · exact htext

/-- A walk whose parts are all visited faithfully is faithful. -/
theorem walk_faithful {structured : Bool} {part : Part} {value : part.Value}
    (h : ∀ request ∈ part.requests structured value, reply.Faithful request) :
    (reply.walk structured).Faithful ⟨part, value⟩ := by
  cases part with
  | node =>
    obtain ⟨hfaults, htext⟩ := slots_faithful (Node.kind value) (Node.slots value) h
    exact ⟨hfaults, reply.nodeResult value, rfl, nodeResult_text htext⟩
  | token =>
    have hl := (h _ List.mem_cons_self).2
    have ht := (h _ (List.mem_cons_of_mem _ List.mem_cons_self)).2
    exact ⟨faultsIn_faithful h, reply.tokenResult value, rfl, tokenResult_fullText hl ht⟩
  | trivia => exact ⟨faultsIn_faithful h, triviaResult_textKept h⟩
  | nodes =>
    refine ⟨faultsIn_faithful h, map_filterMap_of_kept ?_⟩
    intro node hn
    exact (h _ (List.mem_map_of_mem hn)).2
  | separated => exact ⟨faultsIn_faithful h, separatedResult_textKept h⟩
  | tokens =>
    refine ⟨faultsIn_faithful h, map_filterMap_of_kept ?_⟩
    intro token ht
    exact (h _ (List.mem_map_of_mem ht)).2
  | trivias =>
    refine ⟨faultsIn_faithful h, map_filterMap_of_kept ?_⟩
    intro trivia ht
    exact (h _ (List.mem_map_of_mem ht)).2

end Reply

/-! ### Deciding on nothing -/

/-- Every part is walked. -/
def Takeover.idle : Takeover := fun _ _ => none

theorem idle_faithful (structured : Bool) (request : Request) :
    (Takeover.idle.reply structured).Faithful request := by
  induction request using Request.induction structured with
  | step part value ih =>
    have hwalk := Reply.walk_faithful ih
    rw [Reply.Faithful, Takeover.faults_of_none rfl, Takeover.result_of_none rfl]
    exact hwalk

/-- Where everything has a label, what comes back as the same object are the trim parts. -/
theorem idle_keeps_iff (structured : Bool) (request : Request)
    (hlabels : request.every Request.isLabelled true = true) :
    (Takeover.idle.reply structured).keeps request ↔
      request.every Request.isTrim structured = true := by
  induction request using Request.induction structured with
  | step part value ih =>
    have hfaults := (Reply.walk_faithful
      fun request (_ : request ∈ part.requests structured value) =>
        idle_faithful structured request).1
    have hwalk := Reply.keeps_walk_iff (Request.test_of_every hlabels) hfaults
    have hbelow : ∀ request ∈ part.requests structured value,
        ((Takeover.idle.reply structured).keeps request ↔
          request.every Request.isTrim structured = true) := by
      intro request hr
      exact ih request hr (Request.every_of_mem_requests (fun _ => rfl) hlabels hr)
    rw [Reply.keeps, Takeover.result_of_none rfl]
    refine hwalk.trans ⟨?_, ?_⟩
    · rintro ⟨htrim, hkept⟩
      exact Request.every_of_requests htrim htrim fun request hr =>
        (hbelow request hr).mp (hkept request hr)
    · intro h
      refine ⟨Request.test_of_every h, fun request hr => (hbelow request hr).mpr ?_⟩
      exact Request.every_of_mem_requests id h hr

namespace Traversal

/-- Each hook that there is only asks for the walk of its part. -/
def PassThrough (traversal : Traversal σ) : Prop :=
  ∀ point hook, traversal.hooks point = some hook → ∀ value, hook value = Plan.walk point.part value

theorem PassThrough.empty : (Traversal.empty : Traversal σ).PassThrough := by
  intro point hook hhook
  simp at hhook

theorem PassThrough.withHook {traversal : Traversal σ} (h : traversal.PassThrough) (point : Point) :
    (traversal.withHook point (Plan.walk point.part)).PassThrough := by
  intro other hook hhook value
  by_cases heq : point = other
  · subst heq
    rw [hooks_withHook_self] at hhook
    obtain rfl : Plan.walk point.part = hook := Option.some.inj hhook
    rfl
  · rw [hooks_withHook_other _ _ _ _ heq] at hhook
    exact h other hook hhook value

theorem PassThrough.decides {traversal : Traversal σ} (h : traversal.PassThrough) :
    traversal.Decides Takeover.idle where
  taken part value result ht := nomatch ht
  walked part value _ hook hhook := by
    cases part with
    | node =>
      simp only [hookFor] at hhook
      cases hk : traversal.hooks (.node (Node.kind value)) with
      | none =>
        rw [hk] at hhook
        exact h .default hook hhook value
      | some other =>
        rw [hk] at hhook
        obtain rfl : other = hook := Option.some.inj hhook
        exact h _ other hk value
    | token => exact h .token hook hhook value
    | trivia => exact h .trivia hook hhook value
    | nodes => exact h .nodes hook hhook value
    | separated => exact h .separated hook hhook value
    | tokens => exact h .tokens hook hhook value
    | trivias => exact h .trivias hook hhook value

/-- A traversal whose hooks pass everything on transforms every tree, keeps its text, and
gives the tree itself back exactly when no separated list has surplus separators. -/
theorem transform_of_passThrough {traversal : Traversal σ} (h : traversal.PassThrough)
    (tree : Node) {fuel : Nat} (enough : tree.fuel ≤ fuel) (state : σ) :
    ∃ result, traversal.transform fuel tree state = .done result state ∧
      result.text = tree.text ∧
      (result.same tree = true → result = tree) ∧
      (tree.hasLabels = true →
        (result.same tree = true ↔ tree.isTrim traversal.structured = true)) := by
  obtain ⟨hfaults, result, hresult, htext⟩ := idle_faithful traversal.structured (.node tree)
  simp only [Request.node] at hfaults hresult htext
  have hwalk : result = (Takeover.idle.reply traversal.structured).nodeResult tree := by
    rw [Takeover.result_of_none rfl] at hresult
    exact (Option.some.inj hresult).symm
  refine ⟨result, ?_, htext, ?_, ?_⟩
  · rw [transform_eq_reply h.decides tree enough, hfaults, hresult]
    rfl
  · intro hsame
    rw [Node.same_comm, hwalk, Reply.nodeResult] at hsame
    rw [hwalk, Reply.nodeResult]
    split at hsame
    · rename_i hslots
      rw [if_pos hslots]
    · simp at hsame
  · intro hlabels
    have hkeeps := idle_keeps_iff traversal.structured (.node tree) hlabels
    rw [Reply.keeps] at hkeeps
    simp only [Request.node, hresult, Part.same, Option.any_some] at hkeeps
    rw [Node.same_comm]
    exact hkeeps

/-- Arguments without an element, but with a separator: `(,)`. -/
def surplusComma : Node :=
  (Node.labelFrom (.argumentList (.ofText .punctuation "(") ⟨[], [.ofText .punctuation ","]⟩
    (.ofText .punctuation ")")) 0).1

/-- Hooks on nodes and tokens that pass everything on; the surplus separator goes, so the
result is another object with the same text. -/
theorem transform_surplusComma :
    ∃ result, ((Traversal.empty.withHook .default (Plan.walk .node)).withHook .token
        (Plan.walk .token) : Traversal Unit).transform surplusComma.fuel surplusComma () =
          .done result () ∧
      result.text = "()" ∧ result.same surplusComma = false := by
  have hpass := (PassThrough.empty (σ := Unit)).withHook .default |>.withHook .token
  obtain ⟨result, hdone, htext, -, hsame⟩ :=
    transform_of_passThrough hpass surplusComma (Nat.le_refl _) ()
  have hlabels : surplusComma.hasLabels = true := Node.hasLabels_labelFrom _ _
  have htrim : surplusComma.isTrim true = false := by decide
  refine ⟨result, hdone, htext.trans (by decide), ?_⟩
  rw [Bool.eq_false_iff]
  intro h
  have := (hsame hlabels).mp h
  simp [htrim, Traversal.withHook, Traversal.empty] at this

end Traversal

end SourceTree
