import SourceTree.Proofs.Traversal.Every
import SourceTree.Proofs.Traversal.Reply

/-!
When a walk gives back the very object that it was given. Where all required children are
left, that is so exactly when every part that the walk asks for comes back as the same object
and, for a separated list, no separator is surplus.
-/
namespace SourceTree

/-- The result of a visit is the same object as the part, or holds the same objects. -/
def Part.same : (part : Part) → part.Value → part.Result → Bool
  | .node, value, result => Option.any (Node.same value) result
  | .token, value, result => Option.any (Token.same value) result
  | .trivia, value, result => Option.any (Trivia.same value) result
  | .nodes, value, result => sameAll Node.same value result
  | .separated, value, result =>
    sameAll Node.same (Separated.elements value) (Separated.elements result) &&
      sameAll Token.same (Separated.separators value) (Separated.separators result)
  | .tokens, value, result => sameAll Token.same value result
  | .trivias, value, result => sameAll Trivia.same value result

/-- A part comes back as the same object. -/
def Reply.keeps (reply : Reply) (request : Request) : Prop :=
  request.part.same request.value (reply.result request.part request.value) = true

/-! ### Lists -/

section Lists

variable {α : Type} {same : α → α → Bool}

theorem length_eq_of_sameAll {as bs : List α} (h : sameAll same as bs = true) :
    as.length = bs.length := by
  induction as generalizing bs with
  | nil => cases bs <;> simp_all [sameAll]
  | cons a as ih =>
    cases bs with
    | nil => simp [sameAll] at h
    | cons b bs =>
      simp only [sameAll, Bool.and_eq_true] at h
      simp [ih h.2]

/-- A list from which something is removed is too short to hold the same objects. -/
theorem sameAll_filterMap_iff {f : α → Option α} {as : List α} :
    sameAll same as (as.filterMap f) = true ↔ ∀ a ∈ as, (f a).any (same a) = true := by
  induction as with
  | nil => simp [sameAll]
  | cons a as ih =>
    cases hf : f a with
    | none =>
      rw [List.filterMap_cons_none hf]
      constructor
      · intro h
        have hlength := length_eq_of_sameAll h
        have hle := List.length_filterMap_le f as
        simp only [List.length_cons] at hlength
        omega
      · intro h
        simpa [hf] using h a List.mem_cons_self
    | some b =>
      rw [List.filterMap_cons_some hf]
      simp [sameAll, hf, ih]

theorem sameAll_filterMap_take_iff {f : α → Option α} {as : List α} {n : Nat} :
    sameAll same as ((as.take n).filterMap f) = true ↔
      as.length ≤ n ∧ ∀ a ∈ as, (f a).any (same a) = true := by
  constructor
  · intro h
    have hlength := length_eq_of_sameAll h
    have hle := List.length_filterMap_le f (as.take n)
    rw [List.length_take] at hle
    have hn : as.length ≤ n := by omega
    rw [List.take_of_length_le hn] at h
    exact ⟨hn, sameAll_filterMap_iff.mp h⟩
  · rintro ⟨hn, h⟩
    rw [List.take_of_length_le hn]
    exact sameAll_filterMap_iff.mpr h

end Lists

/-! ### Labels -/

theorem sameLabel_self {label : Option Nat} (h : label.isSome = true) :
    sameLabel label label = true := by
  cases label with
  | none => simp at h
  | some label => simp [sameLabel]

@[simp] theorem sameLabel_none (label : Option Nat) : sameLabel label none = false := by
  cases label <;> rfl

theorem Node.same_comm (a b : Node) : a.same b = b.same a := by
  simp only [Node.same]
  cases a.label <;> cases b.label <;> simp [sameLabel, Bool.beq_comm]

theorem Node.same_self {node : Node} (h : node.label.isSome = true) : node.same node = true :=
  sameLabel_self h

@[simp] theorem Node.same_rebuild (node other : Node) (slots : Slots other.kind.fields) :
    node.same (other.rebuild slots) = false := by
  simp [Node.same]

/-! ### Separated lists -/

theorem openEnd_cons {α β : Type} (pair : α × Option β) {pairs : List (α × Option β)}
    (h : pairs ≠ []) : openEnd (pair :: pairs) = pair :: openEnd pairs := by
  cases pairs with
  | nil => exact absurd rfl h
  | cons next rest => rfl

theorem map_fst_openEnd {α β : Type} (pairs : List (α × Option β)) :
    (openEnd pairs).map Prod.fst = pairs.map Prod.fst := by
  induction pairs with
  | nil => rfl
  | cons pair pairs ih =>
    cases pairs with
    | nil => rfl
    | cons next rest =>
      rw [openEnd_cons pair (by simp), List.map_cons, ih]
      rfl

namespace Reply

variable {reply : Reply}

theorem map_fst_pairs (elements : List Node) (separators : List Token) :
    (reply.pairs elements separators).map Prod.fst = elements.filterMap (reply.result .node) := by
  induction elements generalizing separators with
  | nil => rfl
  | cons element elements ih =>
    rw [pairs, List.map_append, ih, List.filterMap_cons]
    cases reply.result .node element <;> rfl

theorem elements_separatedResult (list : Separated Node Token) :
    (reply.separatedResult list).elements = list.elements.filterMap (reply.result .node) := by
  rw [← map_fst_pairs list.elements list.separators, separatedResult, ofPairs]
  split
  · rfl
  · exact map_fst_openEnd _

/-- Elements that all stay keep the separators that stand behind them. -/
theorem filterMap_snd_pairs {elements : List Node} (separators : List Token)
    (h : ∀ element ∈ elements, (reply.result .node element).isSome = true) :
    (reply.pairs elements separators).filterMap Prod.snd =
      (separators.take elements.length).filterMap (reply.result .token) := by
  induction elements generalizing separators with
  | nil => simp [pairs]
  | cons element elements ih =>
    obtain ⟨result, hr⟩ := Option.isSome_iff_exists.mp (h element List.mem_cons_self)
    have hrest := ih separators.tail fun other ho => h other (List.mem_cons_of_mem _ ho)
    rw [pairs, List.filterMap_append, hrest, hr]
    cases separators with
    | nil => simp
    | cons separator separators =>
      rw [List.length_cons, List.take_succ_cons, List.filterMap_cons]
      cases hs : reply.result .token separator <;> simp [hs]

/-- Without a separator behind the last element there is none to take off. -/
theorem openEnd_pairs {elements : List Node} {separators : List Token}
    (h : ∀ element ∈ elements, (reply.result .node element).isSome = true)
    (hlt : separators.length < elements.length) :
    openEnd (reply.pairs elements separators) = reply.pairs elements separators := by
  induction elements generalizing separators with
  | nil => simp at hlt
  | cons element elements ih =>
    obtain ⟨result, hr⟩ := Option.isSome_iff_exists.mp (h element List.mem_cons_self)
    cases elements with
    | nil =>
      obtain rfl : separators = [] := List.length_eq_zero_iff.mp (by simpa using hlt)
      simp [pairs, hr, openEnd]
    | cons next rest =>
      have htail : separators.tail.length < (next :: rest).length := by
        simp only [List.length_tail, List.length_cons] at hlt ⊢
        omega
      have hrest := ih (fun other ho => h other (List.mem_cons_of_mem _ ho)) htail
      obtain ⟨second, hsecond⟩ := Option.isSome_iff_exists.mp
        (h next (List.mem_cons_of_mem _ List.mem_cons_self))
      have hne : reply.pairs (next :: rest) separators.tail ≠ [] := by
        simp [pairs, hsecond]
      rw [pairs, hr, Option.map_some, Option.toList_some, List.singleton_append,
        openEnd_cons _ hne, hrest]

theorem separators_separatedResult {list : Separated Node Token}
    (h : ∀ element ∈ list.elements, (reply.result .node element).isSome = true) :
    (reply.separatedResult list).separators =
      (list.separators.take list.elements.length).filterMap (reply.result .token) := by
  rw [← filterMap_snd_pairs list.separators h, separatedResult, ofPairs]
  split
  · rfl
  · rename_i htrailing
    cases hes : list.elements with
    | nil => rfl
    | cons element elements =>
      have hlt : list.separators.length < list.elements.length := by
        simpa [Separated.hasTrailing, hes] using htrailing
      rw [hes] at h hlt
      simp only [openEnd_pairs h hlt]

/-- A separated list comes back unchanged when all its parts do and none is surplus. -/
theorem same_separatedResult_iff {list : Separated Node Token} :
    Part.same .separated list (reply.separatedResult list) = true ↔
      list.separators.length ≤ list.elements.length ∧
        ∀ request ∈ pairRequests list.elements list.separators, reply.keeps request := by
  simp only [Part.same, Bool.and_eq_true, elements_separatedResult, sameAll_filterMap_iff]
  constructor
  · rintro ⟨helements, hseparators⟩
    have hpresent : ∀ element ∈ list.elements, (reply.result .node element).isSome = true := by
      intro element he
      exact Option.isSome_of_any (helements element he)
    rw [separators_separatedResult hpresent, sameAll_filterMap_take_iff] at hseparators
    refine ⟨hseparators.1, ?_⟩
    intro request hr
    rcases mem_of_mem_pairRequests hr with ⟨element, he, rfl⟩ | ⟨separator, hs, rfl⟩
    · exact helements element he
    · exact hseparators.2 separator hs
  · rintro ⟨hlength, h⟩
    obtain ⟨hes, hss⟩ := mem_pairRequests hlength
    have helements : ∀ element ∈ list.elements,
        (reply.result .node element).any (Node.same element) = true :=
      fun element he => h _ (hes element he)
    refine ⟨helements, ?_⟩
    rw [separators_separatedResult fun element he => Option.isSome_of_any (helements element he),
      sameAll_filterMap_take_iff]
    exact ⟨hlength, fun separator hs => h _ (hss separator hs)⟩

/-! ### Walks -/

theorem same_slotResult_iff (parent : Kind) (name : String) {shape : Shape} (slot : Slot shape)
    (h : reply.missing parent name slot = []) :
    slot.same (reply.slotResult slot) = true ↔ ∀ request ∈ slot.requests, reply.keeps request := by
  cases slot with
  | node child =>
    obtain ⟨result, hr⟩ : ∃ result, reply.result .node child = some result := by
      cases hr : reply.result .node child with
      | none => simp [missing, hr] at h
      | some result => exact ⟨result, rfl⟩
    simp [slotResult, Slot.same, Slot.requests, keeps, Request.node, Part.same, hr]
  | optNode child =>
    cases child with
    | none => simp [slotResult, Slot.same, Slot.requests]
    | some child =>
      cases hr : reply.result .node child <;>
        simp [slotResult, Slot.same, Slot.requests, keeps, Request.node, Part.same, hr]
  | token child =>
    obtain ⟨result, hr⟩ : ∃ result, reply.result .token child = some result := by
      cases hr : reply.result .token child with
      | none => simp [missing, hr] at h
      | some result => exact ⟨result, rfl⟩
    simp [slotResult, Slot.same, Slot.requests, keeps, Request.token, Part.same, hr]
  | optToken child =>
    cases child with
    | none => simp [slotResult, Slot.same, Slot.requests]
    | some child =>
      cases hr : reply.result .token child <;>
        simp [slotResult, Slot.same, Slot.requests, keeps, Request.token, Part.same, hr]
  | nodes children | tokens children | separated children =>
    simp [slotResult, Slot.same, Slot.requests, keeps, Part.same]

theorem same_slotsResult_iff (parent : Kind) : {fields : List Field} → (slots : Slots fields) →
    reply.slotsFaults parent slots = [] →
    (slots.same (reply.slotsResult slots) = true ↔
      ∀ request ∈ slots.requests, reply.keeps request)
  | _, .nil, _ => by simp [slotsResult, Slots.same, Slots.requests]
  | field :: _, .cons slot rest, h => by
    simp only [slotsFaults, List.append_eq_nil_iff] at h
    simp only [slotsResult, Slots.same, Slots.requests, Bool.and_eq_true, List.mem_append,
      same_slotResult_iff parent field.name slot h.1.2, same_slotsResult_iff parent rest h.2]
    constructor
    · rintro ⟨hslot, hrest⟩ request (hr | hr)
      · exact hslot request hr
      · exact hrest request hr
    · intro hall
      exact ⟨fun request hr => hall request (.inl hr), fun request hr => hall request (.inr hr)⟩

/-- The walk of a labelled node gives the node back, or makes a new one. -/
theorem same_nodeResult {node : Node} (h : node.label.isSome = true) :
    node.same (reply.nodeResult node) = node.slots.same (reply.slotsResult node.slots) := by
  rw [nodeResult]
  split
  · rename_i hsame
    rw [Node.same_self h, hsame]
  · rename_i hsame
    rw [Node.same_rebuild, Bool.eq_false_iff.mpr hsame]

theorem same_tokenResult {token : Token} (h : token.label.isSome = true) :
    token.same (reply.tokenResult token) =
      (sameAll Trivia.same token.leading (reply.result .trivias token.leading) &&
        sameAll Trivia.same token.trailing (reply.result .trivias token.trailing)) := by
  rw [tokenResult]
  split
  · rename_i hsame
    exact (sameLabel_self h).trans hsame.symm
  · rename_i hsame
    exact (sameLabel_none _).trans (Bool.eq_false_iff.mpr hsame).symm

theorem same_triviaResult_iff (structured : Bool) {trivia : Trivia}
    (h : trivia.label.isSome = true) :
    Part.same .trivia trivia (reply.triviaResult structured trivia) = true ↔
      ∀ request ∈ Part.requests structured .trivia trivia, reply.keeps request := by
  have hself : trivia.same trivia = true := sameLabel_self h
  cases structured with
  | false => cases hi : trivia.inner <;> simp [triviaResult, hi, Part.requests, Part.same, hself]
  | true =>
    cases hi : trivia.inner with
    | none => simp [triviaResult, hi, Part.requests, Part.same, hself]
    | some inner =>
      have hrequests : Part.requests true .trivia trivia = [.node inner] := by
        simp [Part.requests, hi]
      rw [hrequests]
      simp only [List.mem_singleton, forall_eq, keeps, Part.same, Request.node, triviaResult, hi,
        if_true]
      cases hr : reply.result .node inner with
      | none => simp
      | some result =>
        simp only [Option.map_some, Option.any_some]
        split
        · rename_i hsame
          simp [hself, hsame]
        · rename_i hsame
          simp [hsame, Trivia.same, Trivia.withInner, Trivia.label]

/-- A walk that meets no fault gives back the object it was given exactly when every part it
asks for comes back as the same object and no separator is surplus. -/
theorem keeps_walk_iff {structured : Bool} {part : Part} {value : part.Value}
    (hlabel : Request.isLabelled ⟨part, value⟩ = true)
    (hfaults : (reply.walk structured).faults part value = []) :
    (reply.walk structured).keeps ⟨part, value⟩ ↔
      Request.isTrim ⟨part, value⟩ = true ∧
        ∀ request ∈ part.requests structured value, reply.keeps request := by
  cases part with
  | node =>
    have hsame : (Node.slots value).same (reply.slotsResult (Node.slots value)) = true ↔
        ∀ request ∈ (Node.slots value).requests, reply.keeps request :=
      same_slotsResult_iff _ _ hfaults
    simp only [keeps, walk, Part.same, Option.any_some, same_nodeResult hlabel]
    exact ⟨fun h => ⟨rfl, hsame.mp h⟩, fun h => hsame.mpr h.2⟩
  | token =>
    simp only [keeps, walk, Part.same, Option.any_some, same_tokenResult hlabel]
    simp [Request.isTrim, Part.requests]
  | trivia =>
    have hsame : Part.same .trivia value (reply.triviaResult structured value) = true ↔
        ∀ request ∈ Part.requests structured .trivia value, reply.keeps request :=
      same_triviaResult_iff structured hlabel
    exact ⟨fun h => ⟨rfl, hsame.mp h⟩, fun h => hsame.mpr h.2⟩
  | nodes =>
    simp only [keeps, walk, Part.same, sameAll_filterMap_iff]
    simp [Request.isTrim, Part.requests, Request.node]
  | separated =>
    have hsame : Part.same .separated value (reply.separatedResult value) = true ↔
        (Separated.separators value).length ≤ (Separated.elements value).length ∧
          ∀ request ∈ Part.requests structured .separated value, reply.keeps request :=
      same_separatedResult_iff
    exact ⟨fun h => ⟨decide_eq_true (hsame.mp h).1, (hsame.mp h).2⟩,
      fun h => hsame.mpr ⟨of_decide_eq_true h.1, h.2⟩⟩
  | tokens =>
    simp only [keeps, walk, Part.same, sameAll_filterMap_iff]
    simp [Request.isTrim, Part.requests, Request.token]
  | trivias =>
    simp only [keeps, walk, Part.same, sameAll_filterMap_iff]
    simp [Request.isTrim, Part.requests, Request.trivia]

end Reply

end SourceTree
